/-
  Dates in JSON texts: RFC 3339 as Go's `time.Time` writes and reads it, and the form of it that
  JavaScript's `toISOString` writes.

  A `Moment` is what such a text says: the civil time, down to a nanosecond, and the minutes that
  its zone is east of UTC.  Both writers are read back (`parse_text`, `parse_iso`).  Go reads more
  than RFC 3339: an hour of one digit, a comma for the point, and zones of a day or more, which it
  then refuses to write (`Fields.Writable`).
-/
import Mathlib.Algebra.Ring.Nat
import Mathlib.Data.List.DropRight
import Mathlib.Tactic.Common

namespace Novamail.Core.Rfc3339

/-- The characters of a text. -/
abbrev Text := List Char

/-! ## Numbers of a fixed width -/

/-- The last `k` decimal digits of a number, with the zeros in front. -/
def padded : Nat → Nat → Text
  | 0, _ => []
  | k + 1, n => padded k (n / 10) ++ [(n % 10).digitChar]

theorem length_padded (k n : Nat) : (padded k n).length = k := by
  induction k generalizing n with
  | zero => rfl
  | succ k ih => rw [padded, List.length_append, ih, List.length_singleton]

theorem isDigit_padded (k n : Nat) : ∀ c ∈ padded k n, c.isDigit = true := by
  induction k generalizing n with
  | zero => exact fun c hc => absurd hc List.not_mem_nil
  | succ k ih =>
    intro c hc
    rcases List.mem_append.mp hc with hc | hc
    · exact ih _ c hc
    · rw [List.mem_singleton.mp hc, Nat.isDigit_digitChar]
      exact decide_eq_true (Nat.mod_lt n (by decide))

theorem ofDigitChars_padded (k n : Nat) :
    Nat.ofDigitChars 10 (padded k n) 0 = n % 10 ^ k := by
  induction k generalizing n with
  | zero =>
    show 0 = n % 1
    omega
  | succ k ih =>
    have hlast : Nat.ofDigitChars 10 [(n % 10).digitChar] (n / 10 % 10 ^ k) =
        10 * (n / 10 % 10 ^ k) + n % 10 := by
      rw [Nat.ofDigitChars_cons_digitChar_of_lt_ten (Nat.mod_lt n (by decide)),
        Nat.ofDigitChars_nil]
    rw [padded, Nat.ofDigitChars_append, ih, hlast, Nat.pow_succ', Nat.mod_mul]
    exact Nat.add_comm _ _

/-- A number of `k` digits, and what is behind it. -/
def readNumber (k : Nat) (cs : Text) : Option (Nat × Text) :=
  if k ≤ cs.length ∧ (cs.take k).all Char.isDigit = true then
    some (Nat.ofDigitChars 10 (cs.take k) 0, cs.drop k)
  else none

/-- This very character. -/
def expect (c : Char) (cs : Text) : Option Text := if cs.head? = some c then some cs.tail else none

theorem readNumber_padded {k n : Nat} (h : n < 10 ^ k) (cs : Text) :
    readNumber k (padded k n ++ cs) = some (n, cs) := by
  have hlen : k ≤ (padded k n ++ cs).length := by
    rw [List.length_append, length_padded]
    exact Nat.le_add_right k _
  have htake : (padded k n ++ cs).take k = padded k n := List.take_left' (length_padded k n)
  have hdrop : (padded k n ++ cs).drop k = cs := List.drop_left' (length_padded k n)
  unfold readNumber
  rw [htake, hdrop, if_pos ⟨hlen, List.all_eq_true.mpr (isDigit_padded k n)⟩, ofDigitChars_padded,
    Nat.mod_eq_of_lt h]

/-- The same at the end of a text. -/
theorem readNumber_padded_end {k n : Nat} (h : n < 10 ^ k) :
    readNumber k (padded k n) = some (n, []) := by
  have hread := readNumber_padded h []
  rwa [List.append_nil] at hread

theorem expect_cons (c : Char) (cs : Text) : expect c (c :: cs) = some cs := if_pos rfl

/-! ## Moments -/

/-- The days of a month. -/
def daysIn (month year : Nat) : Nat :=
  if month = 2 then
    if year % 4 = 0 ∧ (year % 100 ≠ 0 ∨ year % 400 = 0) then 29 else 28
  else if month = 4 ∨ month = 6 ∨ month = 9 ∨ month = 11 then 30
  else 31

/-- The numbers of a date. -/
structure Fields where
  year : Nat
  month : Nat
  day : Nat
  hour : Nat
  minute : Nat
  second : Nat
  nano : Nat
  zone : Int
  deriving DecidableEq, Repr

/-- There is such a date. -/
structure Fields.Valid (f : Fields) : Prop where
  year : f.year < 10000
  month : 1 ≤ f.month ∧ f.month ≤ 12
  day : 1 ≤ f.day ∧ f.day ≤ daysIn f.month f.year
  hour : f.hour < 24
  minute : f.minute < 60
  second : f.second < 60
  nano : f.nano < 1000000000
  zone : f.zone.natAbs ≤ 1500

instance (f : Fields) : Decidable f.Valid :=
  decidable_of_iff (f.year < 10000 ∧ (1 ≤ f.month ∧ f.month ≤ 12) ∧
      (1 ≤ f.day ∧ f.day ≤ daysIn f.month f.year) ∧ f.hour < 24 ∧ f.minute < 60 ∧
      f.second < 60 ∧ f.nano < 1000000000 ∧ f.zone.natAbs ≤ 1500)
    ⟨fun h => ⟨h.1, h.2.1, h.2.2.1, h.2.2.2.1, h.2.2.2.2.1, h.2.2.2.2.2.1, h.2.2.2.2.2.2.1,
        h.2.2.2.2.2.2.2⟩,
      fun h => ⟨h.year, h.month, h.day, h.hour, h.minute, h.second, h.nano, h.zone⟩⟩

/-- A `time.Time` that can be read. -/
abbrev Moment := { f : Fields // f.Valid }

/-- `MarshalJSON` refuses a zone that is a day or more off. -/
def Fields.Writable (f : Fields) : Prop := f.zone.natAbs < 1440

instance (f : Fields) : Decidable f.Writable := Nat.decLt _ _

/-- The zero `time.Time`. -/
def zeroTime : Moment := ⟨⟨1, 1, 1, 0, 0, 0, 0, 0⟩, by decide⟩

/-! ## Reading -/

/-- The nanoseconds of the digits behind a point; those behind the ninth do not count. -/
def nanoseconds (ds : Text) : Nat :=
  Nat.ofDigitChars 10 (ds.take 9 ++ List.replicate (9 - ds.length) '0') 0

/-- A fraction of a second, if there is one, and what is behind it. -/
def readFraction (cs : Text) : Nat × Text :=
  if (cs.head? = some '.' ∨ cs.head? = some ',') ∧ cs.tail.head?.any Char.isDigit = true then
    (nanoseconds (cs.tail.takeWhile Char.isDigit), cs.tail.dropWhile Char.isDigit)
  else (0, cs)

/-- An hour: two digits, or else one. -/
def readHour (cs : Text) : Option (Nat × Text) := (readNumber 2 cs).or (readNumber 1 cs)

/-- Hours and minutes, the minutes in all; 24 hours and 60 minutes are let pass. -/
def readOffset (cs : Text) : Option Nat := do
  let (h, cs) ← readNumber 2 cs
  let cs ← expect ':' cs
  let (m, cs) ← readNumber 2 cs
  if h ≤ 24 ∧ m ≤ 60 ∧ cs = [] then some (h * 60 + m) else none

/-- The zone that ends a date. -/
def readZone (cs : Text) : Option Int :=
  if cs.head? = some 'Z' then if cs.tail = [] then some 0 else none
  else if cs.head? = some '+' then (readOffset cs.tail).map fun n : Nat => (n : Int)
  else if cs.head? = some '-' then (readOffset cs.tail).map fun n : Nat => -(n : Int)
  else none

/-- `parseStrictRFC3339`, which is `parseRFC3339` or else `time.Parse`: numbers of fixed width but
    for the hour, then a fraction, then a zone. -/
def parse (cs : Text) : Option Moment := do
  let (year, cs) ← readNumber 4 cs
  let cs ← expect '-' cs
  let (month, cs) ← readNumber 2 cs
  let cs ← expect '-' cs
  let (day, cs) ← readNumber 2 cs
  let cs ← expect 'T' cs
  let (hour, cs) ← readHour cs
  let cs ← expect ':' cs
  let (minute, cs) ← readNumber 2 cs
  let cs ← expect ':' cs
  let (second, cs) ← readNumber 2 cs
  let zone ← readZone (readFraction cs).2
  let f : Fields := ⟨year, month, day, hour, minute, second, (readFraction cs).1, zone⟩
  if h : f.Valid then some ⟨f, h⟩ else none

/-! ## Writing -/

/-- The date and the time, down to a second, in front of a text. -/
def stamp (f : Fields) (cs : Text) : Text :=
  padded 4 f.year ++ '-' :: (padded 2 f.month ++ '-' :: (padded 2 f.day ++ 'T' ::
    (padded 2 f.hour ++ ':' :: (padded 2 f.minute ++ ':' :: (padded 2 f.second ++ cs)))))

/-- A fraction without the zeros at its end, or nothing. -/
def fraction (nano : Nat) : Text :=
  if nano = 0 then [] else '.' :: (padded 9 nano).rdropWhile (· == '0')

/-- The zone. -/
def zoneText (zone : Int) : Text :=
  if zone = 0 then ['Z']
  else (if zone < 0 then '-' else '+') ::
    (padded 2 (zone.natAbs / 60) ++ ':' :: padded 2 (zone.natAbs % 60))

/-- `MarshalJSON` of a `time.Time` that can be written, without the quotes. -/
def Fields.text (f : Fields) : Text := stamp f (fraction f.nano ++ zoneText f.zone)

/-- `toISOString` of a `Date`: always three digits, always UTC. -/
def Fields.iso (f : Fields) : Text :=
  stamp f ('.' :: padded 3 (f.nano / 1000000) ++ ['Z'])

/-! ## What was written is read -/

/-- Digits that only lost zeros at their end are the same nanoseconds. -/
theorem nanoseconds_rdropWhile {n : Nat} (h : n < 1000000000) :
    nanoseconds ((padded 9 n).rdropWhile (· == '0')) = n := by
  have hparts : (padded 9 n).rdropWhile (· == '0') ++ (padded 9 n).rtakeWhile (· == '0') =
      padded 9 n := List.rdropWhile_append_rtakeWhile
  generalize hkept : (padded 9 n).rdropWhile (· == '0') = kept at hparts
  generalize hlost : (padded 9 n).rtakeWhile (· == '0') = lost at hparts
  have hlen : kept.length + lost.length = 9 := by
    rw [← List.length_append, hparts, length_padded]
  have hzeros : lost = List.replicate (9 - kept.length) '0' := by
    rw [List.eq_replicate_iff]
    refine ⟨by omega, fun c hc => ?_⟩
    rw [← hlost] at hc
    have hzero : (c == '0') = true := List.mem_rtakeWhile_imp (p := (· == '0')) hc
    exact eq_of_beq hzero
  have htake : kept.take 9 = kept := List.take_of_length_le (by omega)
  unfold nanoseconds
  rw [htake, ← hzeros, hparts, ofDigitChars_padded]
  exact Nat.mod_eq_of_lt h

/-- The first digit of a fraction is there, as it is not zero. -/
theorem head_rdropWhile {n : Nat} (h : n < 1000000000) (h0 : n ≠ 0) :
    ((padded 9 n).rdropWhile (· == '0')).head?.any Char.isDigit = true := by
  cases hds : (padded 9 n).rdropWhile (· == '0') with
  | nil =>
    have hzero := nanoseconds_rdropWhile h
    rw [hds] at hzero
    have hnone : (0 : Nat) = n := hzero
    exact absurd hnone.symm h0
  | cons d ds =>
    have hmem : d ∈ padded 9 n := by
      have hsub := (List.rdropWhile_prefix (· == '0') (padded 9 n)).subset
      exact hsub (by rw [hds]; exact List.mem_cons_self)
    exact isDigit_padded 9 n d hmem

/-- A digit does not begin a zone. -/
theorem zoneText_head (zone : Int) : (zoneText zone).head?.any Char.isDigit = false := by
  unfold zoneText
  split
  · rfl
  · split <;> rfl

theorem takeWhile_digits {ds cs : Text} (hds : ∀ c ∈ ds, c.isDigit = true)
    (hcs : cs.head?.any Char.isDigit = false) :
    (ds ++ cs).takeWhile Char.isDigit = ds ∧ (ds ++ cs).dropWhile Char.isDigit = cs := by
  rw [List.takeWhile_append_of_pos hds, List.dropWhile_append_of_pos hds]
  cases cs with
  | nil => exact ⟨List.append_nil ds, rfl⟩
  | cons c cs =>
    have hc : ¬c.isDigit = true := by
      rw [show c.isDigit = false from hcs]
      exact Bool.false_ne_true
    rw [List.takeWhile_cons_of_neg hc, List.dropWhile_cons_of_neg hc]
    exact ⟨List.append_nil ds, rfl⟩

/-- A point, digits and a zone. -/
theorem readFraction_point {ds cs : Text} (hds : ∀ c ∈ ds, c.isDigit = true)
    (hhead : ds.head?.any Char.isDigit = true) (hcs : cs.head?.any Char.isDigit = false) :
    readFraction ('.' :: ds ++ cs) = (nanoseconds ds, cs) := by
  obtain ⟨htake, hdrop⟩ := takeWhile_digits hds hcs
  have hany : (ds ++ cs).head?.any Char.isDigit = true := by
    cases ds with
    | nil => exact absurd hhead Bool.false_ne_true
    | cons d ds => exact hhead
  show (if (some '.' = some '.' ∨ some '.' = some ',') ∧
      (ds ++ cs).head?.any Char.isDigit = true then
    (nanoseconds ((ds ++ cs).takeWhile Char.isDigit), (ds ++ cs).dropWhile Char.isDigit)
    else (0, '.' :: (ds ++ cs))) = _
  rw [if_pos ⟨.inl rfl, hany⟩, htake, hdrop]

theorem readFraction_fraction {n : Nat} (h : n < 1000000000) (zone : Int) :
    readFraction (fraction n ++ zoneText zone) = (n, zoneText zone) := by
  unfold fraction
  split
  · rename_i h0
    have hno : ¬((zoneText zone).head? = some '.' ∨ (zoneText zone).head? = some ',') := by
      unfold zoneText
      split
      · simp
      · split <;> simp
    unfold readFraction
    rw [List.nil_append, if_neg fun hc => hno hc.1, h0]
  · rename_i h0
    have hdigits : ∀ c ∈ (padded 9 n).rdropWhile (· == '0'), c.isDigit = true := fun c hc =>
      isDigit_padded 9 n c ((List.rdropWhile_prefix (· == '0') (padded 9 n)).subset hc)
    rw [readFraction_point hdigits (head_rdropWhile h h0) (zoneText_head zone),
      nanoseconds_rdropWhile h]

theorem readOffset_padded {n : Nat} (h : n < 1440) :
    readOffset (padded 2 (n / 60) ++ ':' :: padded 2 (n % 60)) = some n := by
  have hh : n / 60 < 10 ^ 2 := by omega
  have hm : n % 60 < 10 ^ 2 := by omega
  have hrange : n / 60 ≤ 24 ∧ n % 60 ≤ 60 ∧ True := ⟨by omega, by omega, trivial⟩
  have hsum : n / 60 * 60 + n % 60 = n := by omega
  simp only [readOffset, readNumber_padded hh, expect_cons, readNumber_padded_end hm,
    Option.bind_eq_bind, Option.bind_some, hsum]
  exact if_pos hrange

theorem readZone_plus (cs : Text) :
    readZone ('+' :: cs) = (readOffset cs).map fun n : Nat => (n : Int) := by
  have hz : ¬some '+' = some 'Z' := by decide
  unfold readZone
  rw [List.head?_cons, if_neg hz, if_pos rfl]
  rfl

theorem readZone_minus (cs : Text) :
    readZone ('-' :: cs) = (readOffset cs).map fun n : Nat => -(n : Int) := by
  have hz : ¬some '-' = some 'Z' := by decide
  have hplus : ¬some '-' = some '+' := by decide
  unfold readZone
  rw [List.head?_cons, if_neg hz, if_neg hplus, if_pos rfl]
  rfl

theorem readZone_zoneText {zone : Int} (h : zone.natAbs < 1440) :
    readZone (zoneText zone) = some zone := by
  have hoff := readOffset_padded h
  unfold zoneText
  split
  · rename_i h0
    rw [h0]
    rfl
  · rename_i h0
    split
    · rename_i hneg
      have habs : -(zone.natAbs : Int) = zone := by omega
      rw [readZone_minus, hoff]
      exact congrArg some habs
    · rename_i hpos
      have habs : (zone.natAbs : Int) = zone := by omega
      rw [readZone_plus, hoff]
      exact congrArg some habs

theorem readHour_padded {n : Nat} (h : n < 10 ^ 2) (cs : Text) :
    readHour (padded 2 n ++ cs) = some (n, cs) := by
  unfold readHour
  rw [readNumber_padded h, Option.some_or]

theorem daysIn_lt (month year : Nat) : daysIn month year < 100 := by
  unfold daysIn
  split
  · split <;> decide
  · split <;> decide

/-- A date is read as its numbers, whatever way the fraction is written. -/
theorem parse_stamp {f : Fields} (h : f.Valid) {cs z : Text}
    (hfrac : readFraction cs = (f.nano, z)) (hzone : readZone z = some f.zone) :
    parse (stamp f cs) = some ⟨f, h⟩ := by
  have hyear : f.year < 10 ^ 4 := h.year
  have hmonth : f.month < 10 ^ 2 := Nat.lt_of_le_of_lt h.month.2 (by decide)
  have hday : f.day < 10 ^ 2 := Nat.lt_of_le_of_lt h.day.2 (daysIn_lt _ _)
  have hhour : f.hour < 10 ^ 2 := Nat.lt_trans h.hour (by decide)
  have hminute : f.minute < 10 ^ 2 := Nat.lt_trans h.minute (by decide)
  have hsecond : f.second < 10 ^ 2 := Nat.lt_trans h.second (by decide)
  simp only [parse, stamp, readNumber_padded hyear, readNumber_padded hmonth,
    readNumber_padded hday, readHour_padded hhour, readNumber_padded hminute,
    readNumber_padded hsecond, expect_cons, hfrac, hzone, Option.bind_eq_bind, Option.bind_some]
  exact dif_pos h

/-- **Go reads what Go writes.** -/
theorem parse_text {m : Moment} (h : m.1.Writable) : parse m.1.text = some m :=
  parse_stamp m.2 (readFraction_fraction m.2.nano m.1.zone) (readZone_zoneText h)

/-- Go reads a zone that it does not write. -/
example : (parse "2026-01-02T3:04:05,5+24:00".toList).map (decide ·.1.Writable) = some false := by
  decide

/-- **Go reads what JavaScript writes**: a moment in UTC, to a millisecond. -/
theorem parse_iso {m : Moment} (hzone : m.1.zone = 0) (hms : m.1.nano % 1000000 = 0) :
    parse m.1.iso = some m := by
  have hlt : m.1.nano / 1000000 < 10 ^ 3 := by
    have hnano := m.2.nano
    omega
  have hnano : nanoseconds (padded 3 (m.1.nano / 1000000)) = m.1.nano := by
    show Nat.ofDigitChars 10 (padded 3 (m.1.nano / 1000000) ++ List.replicate 6 '0') 0 = m.1.nano
    rw [Nat.ofDigitChars_append, ofDigitChars_padded, Nat.mod_eq_of_lt hlt,
      Nat.ofDigitChars_replicate_zero]
    omega
  have hfrac : readFraction ('.' :: padded 3 (m.1.nano / 1000000) ++ ['Z']) = (m.1.nano, ['Z']) := by
    rw [readFraction_point (isDigit_padded 3 _) ?_ rfl, hnano]
    exact isDigit_padded 3 (m.1.nano / 1000000) _ (by simp [padded])
  exact parse_stamp m.2 hfrac (by rw [hzone]; rfl)

end Novamail.Core.Rfc3339

/-
  Base64 with the standard alphabet and padding, and two decoders of it.

  Three bytes are four digits of six bits; one or two bytes at the end are padded with `=`.  The
  strict decoder skips line breaks, takes padding only in the last group, and does not look at the
  bits that the padding leaves over.  The lenient one takes any text: it reads the digits of the
  standard and of the URL-safe alphabet up to the first `=`, and skips what is none.
-/
import Mathlib.Tactic.Common
import Mathlib.Tactic.SplitIfs

namespace Novamail.Core.Base64

/-- The digit of a six-bit number. -/
def digit (n : Nat) : Char :=
  if n < 26 then Char.ofNat (n + 65)
  else if n < 52 then Char.ofNat (n + 71)
  else if n < 62 then Char.ofNat (n - 4)
  else if n = 62 then '+'
  else '/'

/-- The number of a digit. -/
def value (c : Char) : Option Nat :=
  let n := c.toNat
  if 65 ≤ n ∧ n ≤ 90 then some (n - 65)
  else if 97 ≤ n ∧ n ≤ 122 then some (n - 71)
  else if 48 ≤ n ∧ n ≤ 57 then some (n + 4)
  else if c = '+' then some 62
  else if c = '/' then some 63
  else none

theorem value_digit : ∀ n < 64, value (digit n) = some n := by decide

theorem digit_ne_pad : ∀ n < 64, digit n ≠ '=' := by decide

theorem digit_ne_break : ∀ n < 64, digit n ≠ '\r' ∧ digit n ≠ '\n' := by decide

theorem value_pad : value '=' = none := rfl

/-- The digits of bytes. -/
def encodeChars : List UInt8 → List Char
  | [] => []
  | [a] => [digit (a.toNat / 4), digit (a.toNat % 4 * 16), '=', '=']
  | [a, b] =>
    [digit (a.toNat / 4), digit (a.toNat % 4 * 16 + b.toNat / 16), digit (b.toNat % 16 * 4), '=']
  | a :: b :: c :: rest =>
    digit (a.toNat / 4) :: digit (a.toNat % 4 * 16 + b.toNat / 16) ::
      digit (b.toNat % 16 * 4 + c.toNat / 64) :: digit (c.toNat % 64) :: encodeChars rest

/-- The text of bytes. -/
def encode (bs : List UInt8) : String := String.ofList (encodeChars bs)

/-- The bytes of one group. -/
def decodeGroup (x y z w : Char) : Option (List UInt8) :=
  match value x, value y, value z, value w with
  | some m, some n, some k, some l =>
    some [.ofNat (m * 4 + n / 16), .ofNat (n % 16 * 16 + k / 4), .ofNat (k % 4 * 64 + l)]
  | some m, some n, some k, none =>
    if w = '=' then some [.ofNat (m * 4 + n / 16), .ofNat (n % 16 * 16 + k / 4)] else none
  | some m, some n, none, none =>
    if z = '=' ∧ w = '=' then some [.ofNat (m * 4 + n / 16)] else none
  | _, _, _, _ => none

/-- The bytes of digits. -/
def decodeChars : List Char → Option (List UInt8)
  | [] => some []
  | x :: y :: z :: w :: rest =>
    if w = '=' ∧ rest ≠ [] then none
    else do
      let group ← decodeGroup x y z w
      let bs ← decodeChars rest
      pure (group ++ bs)
  | _ => none

/-- The bytes of a text. -/
def decode (s : String) : Option (List UInt8) :=
  decodeChars (s.toList.filter fun c => c ≠ '\r' ∧ c ≠ '\n')

/-! ## What the strict decoder takes -/

/-- The bytes of six-bit numbers; bits at the end that fill no byte are dropped. -/
def bytesOf : List Nat → List UInt8
  | m :: n :: k :: l :: rest =>
    .ofNat (m * 4 + n / 16) :: .ofNat (n % 16 * 16 + k / 4) :: .ofNat (k % 4 * 64 + l) ::
      bytesOf rest
  | [m, n, k] => [.ofNat (m * 4 + n / 16), .ofNat (n % 16 * 16 + k / 4)]
  | [m, n] => [.ofNat (m * 4 + n / 16)]
  | [_] => []
  | [] => []

theorem length_bytesOf (ns : List Nat) : (bytesOf ns).length = ns.length * 3 / 4 := by
  induction ns using bytesOf.induct with
  | case1 m n k l rest ih =>
    simp only [bytesOf, List.length_cons, ih]
    omega
  | case2 m n k => simp [bytesOf]
  | case3 m n => simp [bytesOf]
  | case4 m => simp [bytesOf]
  | case5 => simp [bytesOf]

/-- A text of digits, and the padding that fills its last group. -/
structure Padded (t ds : List Char) (p : Nat) : Prop where
  split : t = ds ++ List.replicate p '='
  digits : ∀ c ∈ ds, (value c).isSome
  few : p ≤ 2
  whole : (ds.length + p) % 4 = 0

theorem ne_pad_of_digit {c : Char} (h : (value c).isSome) : c ≠ '=' := by
  rintro rfl
  exact absurd h (by decide)

/-- A group of the decoder is four digits, or ends in padding. -/
theorem decodeGroup_some {x y z w : Char} {bs : List UInt8} (h : decodeGroup x y z w = some bs) :
    (∃ m n k l, value x = some m ∧ value y = some n ∧ value z = some k ∧ value w = some l ∧
      bs = bytesOf [m, n, k, l]) ∨
    w = '=' ∧ ∃ ds p, Padded [x, y, z, w] ds p ∧ bs = bytesOf (ds.filterMap value) := by
  unfold decodeGroup at h
  split at h
  · rename_i m n k l hx hy hz hw
    exact .inl ⟨m, n, k, l, hx, hy, hz, hw, (Option.some.inj h).symm⟩
  · rename_i m n k hx hy hz hw
    obtain ⟨rfl, h⟩ := Option.ite_none_right_eq_some.mp h
    have hpad : Padded [x, y, z, '='] [x, y, z] 1 :=
      ⟨rfl, by simp [hx, hy, hz], by omega, by simp⟩
    exact .inr ⟨rfl, _, _, hpad, by simp [hx, hy, hz, bytesOf, ← Option.some.inj h]⟩
  · rename_i m n hx hy hz hw
    obtain ⟨⟨rfl, rfl⟩, h⟩ := Option.ite_none_right_eq_some.mp h
    have hpad : Padded [x, y, '=', '='] [x, y] 2 :=
      ⟨rfl, by simp [hx, hy], by omega, by simp⟩
    exact .inr ⟨rfl, _, _, hpad, by simp [hx, hy, bytesOf, ← Option.some.inj h]⟩
  · cases h

theorem Padded.of_decode {t : List Char} : ∀ {bs : List UInt8}, decodeChars t = some bs →
    ∃ ds p, Padded t ds p ∧ bs = bytesOf (ds.filterMap value) := by
  induction t using decodeChars.induct with
  | case1 =>
    intro bs h
    exact ⟨[], 0, ⟨rfl, nofun, Nat.zero_le 2, rfl⟩, (Option.some.inj h).symm⟩
  | case2 x y z w rest hcut =>
    intro bs h
    rw [decodeChars, if_pos hcut] at h
    cases h
  | case3 x y z w rest hcut ih =>
    intro bs h
    rw [decodeChars, if_neg hcut] at h
    obtain ⟨group, hgroup, h⟩ := Option.bind_eq_some_iff.mp h
    obtain ⟨more, hmore, h⟩ := Option.bind_eq_some_iff.mp h
    obtain rfl := Option.some.inj h
    rcases decodeGroup_some hgroup with ⟨m, n, k, l, hx, hy, hz, hw, rfl⟩ | ⟨hpad, hlast⟩
    · obtain ⟨ds, p, hp, rfl⟩ := ih hmore
      have hdigits : ∀ c ∈ x :: y :: z :: w :: ds, (value c).isSome := by
        simp only [List.forall_mem_cons]
        exact ⟨by simp [hx], by simp [hy], by simp [hz], by simp [hw], hp.digits⟩
      have hwhole := hp.whole
      refine ⟨x :: y :: z :: w :: ds, p, ⟨by rw [hp.split]; rfl, hdigits, hp.few, ?_⟩, ?_⟩
      · simp only [List.length_cons]
        omega
      · simp [hx, hy, hz, hw, bytesOf]
    · -- padding takes nothing behind it
      obtain rfl : rest = [] := by
        by_contra hrest
        exact hcut ⟨hpad, hrest⟩
      obtain rfl := Option.some.inj hmore
      rw [List.append_nil]
      exact hlast
  | case4 t h₀ h₄ =>
    intro bs h
    rw [decodeChars] at h
    · cases h
    · exact h₀
    · exact h₄

/-- Padded digits are decoded. -/
theorem Padded.decode : ∀ {t ds : List Char} {p : Nat}, Padded t ds p →
    decodeChars t = some (bytesOf (ds.filterMap value))
  | t, x :: y :: z :: w :: ds, p, h => by
    obtain ⟨hx, hy, hz, hw, hds⟩ := by simpa only [List.forall_mem_cons] using h.digits
    have hwhole := h.whole
    have hmore : Padded (ds ++ List.replicate p '=') ds p := by
      refine ⟨rfl, hds, h.few, ?_⟩
      simp only [List.length_cons] at hwhole
      omega
    have hne := ne_pad_of_digit hw
    obtain ⟨m, hx⟩ := Option.isSome_iff_exists.mp hx
    obtain ⟨n, hy⟩ := Option.isSome_iff_exists.mp hy
    obtain ⟨k, hz⟩ := Option.isSome_iff_exists.mp hz
    obtain ⟨l, hw⟩ := Option.isSome_iff_exists.mp hw
    rw [h.split]
    show decodeChars (x :: y :: z :: w :: (ds ++ List.replicate p '=')) = _
    rw [decodeChars, if_neg (fun hcut => hne hcut.1), hmore.decode]
    simp [decodeGroup, hx, hy, hz, hw, bytesOf]
  | t, [x, y, z], p, h => by
    have hp : p = 1 := by
      have hfew := h.few
      have hwhole := h.whole
      simp only [List.length_cons, List.length_nil] at hwhole
      omega
    subst hp
    obtain ⟨hx, hy, hz, -⟩ := by simpa only [List.forall_mem_cons] using h.digits
    obtain ⟨m, hx⟩ := Option.isSome_iff_exists.mp hx
    obtain ⟨n, hy⟩ := Option.isSome_iff_exists.mp hy
    obtain ⟨k, hz⟩ := Option.isSome_iff_exists.mp hz
    rw [h.split]
    simp [decodeChars, decodeGroup, hx, hy, hz, value_pad, bytesOf]
  | t, [x, y], p, h => by
    have hp : p = 2 := by
      have hfew := h.few
      have hwhole := h.whole
      simp only [List.length_cons, List.length_nil] at hwhole
      omega
    subst hp
    obtain ⟨hx, hy, -⟩ := by simpa only [List.forall_mem_cons] using h.digits
    obtain ⟨m, hx⟩ := Option.isSome_iff_exists.mp hx
    obtain ⟨n, hy⟩ := Option.isSome_iff_exists.mp hy
    rw [h.split]
    simp [decodeChars, decodeGroup, hx, hy, value_pad, bytesOf, List.replicate]
  | t, [x], p, h => by
    have hfew := h.few
    have hwhole := h.whole
    simp only [List.length_cons, List.length_nil] at hwhole
    omega
  | t, [], p, h => by
    have hfew := h.few
    have hwhole := h.whole
    have hp : p = 0 := by
      simp only [List.length_nil] at hwhole
      omega
    rw [h.split, hp]
    rfl

/-! ## The round trip -/

private theorem ofNat_eq {n : Nat} {a : UInt8} (h : n = a.toNat) : UInt8.ofNat n = a := by
  subst h
  exact UInt8.ofNat_toNat

theorem decodeChars_encodeChars (bs : List UInt8) : decodeChars (encodeChars bs) = some bs := by
  induction bs using encodeChars.induct with
  | case1 => rfl
  | case2 a =>
    have ha := a.toNat_lt
    have hx := value_digit (a.toNat / 4) (by omega)
    have hy := value_digit (a.toNat % 4 * 16) (by omega)
    have hbyte : UInt8.ofNat (a.toNat / 4 * 4 + a.toNat % 4 * 16 / 16) = a := ofNat_eq (by omega)
    simp only [encodeChars, decodeChars, decodeGroup, hx, hy, value_pad, hbyte]
    rfl
  | case3 a b =>
    have ha := a.toNat_lt
    have hb := b.toNat_lt
    have hx := value_digit (a.toNat / 4) (by omega)
    have hy := value_digit (a.toNat % 4 * 16 + b.toNat / 16) (by omega)
    have hz := value_digit (b.toNat % 16 * 4) (by omega)
    have h₁ : UInt8.ofNat (a.toNat / 4 * 4 + (a.toNat % 4 * 16 + b.toNat / 16) / 16) = a :=
      ofNat_eq (by omega)
    have h₂ : UInt8.ofNat ((a.toNat % 4 * 16 + b.toNat / 16) % 16 * 16 + b.toNat % 16 * 4 / 4) = b :=
      ofNat_eq (by omega)
    simp only [encodeChars, decodeChars, decodeGroup, hx, hy, hz, value_pad, h₁, h₂]
    rfl
  | case4 a b c rest ih =>
    have ha := a.toNat_lt
    have hb := b.toNat_lt
    have hc := c.toNat_lt
    have hx := value_digit (a.toNat / 4) (by omega)
    have hy := value_digit (a.toNat % 4 * 16 + b.toNat / 16) (by omega)
    have hz := value_digit (b.toNat % 16 * 4 + c.toNat / 64) (by omega)
    have hw := value_digit (c.toNat % 64) (by omega)
    have hpad := digit_ne_pad (c.toNat % 64) (by omega)
    have h₁ : UInt8.ofNat (a.toNat / 4 * 4 + (a.toNat % 4 * 16 + b.toNat / 16) / 16) = a :=
      ofNat_eq (by omega)
    have h₂ : UInt8.ofNat ((a.toNat % 4 * 16 + b.toNat / 16) % 16 * 16 +
        (b.toNat % 16 * 4 + c.toNat / 64) / 4) = b := ofNat_eq (by omega)
    have h₃ : UInt8.ofNat ((b.toNat % 16 * 4 + c.toNat / 64) % 4 * 64 + c.toNat % 64) = c :=
      ofNat_eq (by omega)
    simp only [encodeChars, decodeChars, decodeGroup, hx, hy, hz, hw, ih, hpad, h₁, h₂, h₃]
    rfl

/-- The encoder writes digits and padding. -/
theorem encodeChars_forall {P : Char → Prop} (hdigit : ∀ n < 64, P (digit n)) (hpad : P '=')
    (bs : List UInt8) : ∀ c ∈ encodeChars bs, P c := by
  have hdiv : ∀ a : UInt8, P (digit (a.toNat / 4)) := by
    intro a
    have ha := a.toNat_lt
    exact hdigit _ (by omega)
  induction bs using encodeChars.induct with
  | case1 => exact nofun
  | case2 a =>
    intro c hc
    simp only [encodeChars, List.mem_cons, List.not_mem_nil, or_false] at hc
    rcases hc with rfl | rfl | rfl | rfl
    · exact hdiv a
    · exact hdigit _ (by omega)
    · exact hpad
    · exact hpad
  | case3 a b =>
    have hb := b.toNat_lt
    intro c hc
    simp only [encodeChars, List.mem_cons, List.not_mem_nil, or_false] at hc
    rcases hc with rfl | rfl | rfl | rfl
    · exact hdiv a
    · exact hdigit _ (by omega)
    · exact hdigit _ (by omega)
    · exact hpad
  | case4 a b c rest ih =>
    have hb := b.toNat_lt
    have hc := c.toNat_lt
    intro d hd
    simp only [encodeChars, List.mem_cons] at hd
    rcases hd with rfl | rfl | rfl | rfl | hd
    · exact hdiv a
    · exact hdigit _ (by omega)
    · exact hdigit _ (by omega)
    · exact hdigit _ (by omega)
    · exact ih d hd

/-- **What was encoded is decoded.** -/
theorem decode_encode (bs : List UInt8) : decode (encode bs) = some bs := by
  unfold decode encode
  rw [String.toList_ofList]
  have hall : (encodeChars bs).filter (fun c => c ≠ '\r' ∧ c ≠ '\n') = encodeChars bs := by
    refine List.filter_eq_self.mpr fun c hc => ?_
    have hplain := encodeChars_forall (P := fun c => c ≠ '\r' ∧ c ≠ '\n') digit_ne_break
      (by decide) bs c hc
    simpa using hplain
  rw [hall]
  exact decodeChars_encodeChars bs

/-! ## The lenient decoder -/

/-- What the lenient decoder sees in a text. -/
inductive Glyph
  | digit (n : Nat)
  | stop
  deriving DecidableEq, Repr

/-- The digits of both alphabets; `=` ends the text, and any other character is skipped.  What a
    character outside ASCII is taken for is a parameter. -/
def glyphs (foreign : Char → List Glyph) (c : Char) : List Glyph :=
  if 128 ≤ c.toNat then foreign c
  else if c = '=' then [.stop]
  else if c = '-' then [.digit 62]
  else if c = '_' then [.digit 63]
  else match value c with
    | some n => [.digit n]
    | none => []

/-- The digits in front of the end. -/
def sextets : List Glyph → List Nat
  | .digit n :: gs => n :: sextets gs
  | _ => []

theorem length_sextets (gs : List Glyph) :
    (sextets gs).length = (gs.takeWhile (· ≠ .stop)).length := by
  induction gs with
  | nil => rfl
  | cons g gs ih =>
    cases g with
    | digit n =>
      rw [List.takeWhile_cons_of_pos (by simp)]
      exact congrArg (· + 1) ih
    | stop => rfl

/-- The digits of a text. -/
def digitsIn (foreign : Char → List Glyph) (s : String) : List Nat :=
  sextets (s.toList.flatMap (glyphs foreign))

/-- The bytes of a text, whatever it is. -/
def lenient (foreign : Char → List Glyph) (s : String) : List UInt8 := bytesOf (digitsIn foreign s)

section
variable {foreign : Char → List Glyph}

theorem glyphs_value {c : Char} {n : Nat} (h : value c = some n) :
    glyphs foreign c = [.digit n] := by
  have hascii : c.toNat < 128 := by
    unfold value at h
    dsimp only at h
    split_ifs at h with h₁ h₂ h₃ h₄ h₅
    · omega
    · omega
    · omega
    · rw [h₄]
      decide
    · rw [h₅]
      decide
  have hpad : c ≠ '=' := by
    rintro rfl
    cases h
  have hdash : c ≠ '-' := by
    rintro rfl
    cases h
  have hline : c ≠ '_' := by
    rintro rfl
    cases h
  unfold glyphs
  rw [if_neg (by omega), if_neg hpad, if_neg hdash, if_neg hline, h]

theorem sextets_digits {ds : List Char} (h : ∀ c ∈ ds, (value c).isSome) (p : Nat) :
    sextets ((ds ++ List.replicate p '=').flatMap (glyphs foreign)) = ds.filterMap value := by
  induction ds with
  | nil =>
    cases p with
    | zero => rfl
    | succ p => rfl
  | cons c ds ih =>
    obtain ⟨hc, hds⟩ := List.forall_mem_cons.mp h
    obtain ⟨n, hn⟩ := Option.isSome_iff_exists.mp hc
    rw [List.cons_append, List.flatMap_cons, glyphs_value hn, List.filterMap_cons_some hn]
    exact congrArg (n :: ·) (ih hds)

/-- Line breaks are skipped here too. -/
theorem flatMap_glyphs_filter (cs : List Char) :
    (cs.filter fun c => c ≠ '\r' ∧ c ≠ '\n').flatMap (glyphs foreign) =
      cs.flatMap (glyphs foreign) := by
  induction cs with
  | nil => rfl
  | cons c cs ih =>
    rw [List.flatMap_cons, ← ih]
    by_cases hbreak : c ≠ '\r' ∧ c ≠ '\n'
    · rw [List.filter_cons_of_pos (by simpa using hbreak), List.flatMap_cons]
    · have hnone : glyphs foreign c = [] := by
        rcases not_and_or.mp hbreak with hc | hc
        · rw [not_not.mp hc]
          rfl
        · rw [not_not.mp hc]
          rfl
      rw [List.filter_cons_of_neg (by simpa using hbreak), hnone, List.nil_append]

/-- The digits of a text that the strict decoder takes are all found. -/
theorem Padded.digitsIn {s : String} {ds : List Char} {p : Nat}
    (h : Padded (s.toList.filter fun c => c ≠ '\r' ∧ c ≠ '\n') ds p) :
    digitsIn foreign s = ds.filterMap value := by
  unfold Base64.digitsIn
  rw [← flatMap_glyphs_filter, h.split]
  exact sextets_digits h.digits p

/-- **What the strict decoder takes, the lenient decoder reads alike.** -/
theorem lenient_of_decode {s : String} {bs : List UInt8} (h : decode s = some bs) :
    lenient foreign s = bs := by
  obtain ⟨ds, p, hp, rfl⟩ := Padded.of_decode h
  unfold lenient
  rw [hp.digitsIn]

end

end Novamail.Core.Base64

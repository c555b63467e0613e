/-
  JSON texts: values, a reader, and a family of writers.

  The reader takes what RFC 8259 allows, white space and escapes included; a half of a surrogate
  pair that stands alone reads as U+FFFD.  A writer writes no white space and is fixed by the
  characters that it writes as `\u` and four digits; `Style` is that choice, with what makes it a
  correct one.  Whatever the style, the reader gives back the value that was written
  (`parse_write`): that is what lets programs in different languages exchange texts.

  Of JSON Schema there is what schemas of a fixed shape use; `integer` asks for a number without a
  fraction and an exponent, and `format` is a remark that checks nothing.
-/
import Mathlib.Data.List.TakeWhile
import Mathlib.Tactic.Common
import Mathlib.Tactic.SplitIfs

namespace Novamail.Core.Json

/-- The characters of a text. -/
abbrev Text := List Char

/-! ## Numbers -/

/-- One digit or more. -/
def digits (cs : Text) : Bool := !cs.isEmpty && cs.all Char.isDigit

/-- Nothing, or an exponent. -/
def isExponent : Text → Bool
  | [] => true
  | c :: cs =>
    (c = 'e' || c = 'E') &&
      (digits cs || (cs.head? = some '+' || cs.head? = some '-') && digits cs.tail)

/-- Nothing, or a fraction, an exponent, or both. -/
def isFraction (cs : Text) : Bool :=
  if cs.head? = some '.' then
    digits (cs.tail.takeWhile Char.isDigit) && isExponent (cs.tail.dropWhile Char.isDigit)
  else isExponent cs

/-- A number without its sign: no zero in front of another digit. -/
def isUnsigned : Text → Bool
  | [] => false
  | c :: cs =>
    if c = '0' then isFraction cs else c.isDigit && isFraction (cs.dropWhile Char.isDigit)

theorem isUnsigned_cons (c : Char) (cs : Text) : isUnsigned (c :: cs) =
    if c = '0' then isFraction cs else c.isDigit && isFraction (cs.dropWhile Char.isDigit) := rfl

/-- A number of JSON. -/
def isNumber (cs : Text) : Bool :=
  if cs.head? = some '-' then isUnsigned cs.tail else isUnsigned cs

/-- A number, as it is written. -/
structure Literal where
  text : Text
  valid : isNumber text = true
  deriving DecidableEq

/-- The characters of numbers. -/
def numeric (c : Char) : Bool := c.isDigit || c ∈ ['-', '+', '.', 'e', 'E']

theorem numeric_of_digits {cs : Text} (h : digits cs = true) : ∀ c ∈ cs, numeric c = true := by
  intro c hc
  have hall := (Bool.and_eq_true_iff.mp h).2
  have hdigit := List.all_eq_true.mp hall c hc
  simp only [numeric, hdigit, Bool.true_or]

theorem numeric_of_isExponent {cs : Text} (h : isExponent cs = true) :
    ∀ c ∈ cs, numeric c = true := by
  cases cs with
  | nil => exact fun c hc => absurd hc List.not_mem_nil
  | cons e cs =>
    obtain ⟨he, hrest⟩ := Bool.and_eq_true_iff.mp h
    have hhead : numeric e = true := by
      rcases Bool.or_eq_true_iff.mp he with he | he
      · cases of_decide_eq_true he
        rfl
      · cases of_decide_eq_true he
        rfl
    have htail : ∀ c ∈ cs, numeric c = true := by
      rcases Bool.or_eq_true_iff.mp hrest with hrest | hrest
      · exact numeric_of_digits hrest
      · obtain ⟨hsign, hdigits⟩ := Bool.and_eq_true_iff.mp hrest
        cases cs with
        | nil => exact fun c hc => absurd hc List.not_mem_nil
        | cons s cs =>
          have hs : numeric s = true := by
            rcases Bool.or_eq_true_iff.mp hsign with hs | hs
            · cases of_decide_eq_true hs
              rfl
            · cases of_decide_eq_true hs
              rfl
          exact List.forall_mem_cons.mpr ⟨hs, numeric_of_digits hdigits⟩
    exact List.forall_mem_cons.mpr ⟨hhead, htail⟩

/-- Digits in front of numeric characters are numeric. -/
theorem numeric_of_dropWhile {cs : Text}
    (h : ∀ c ∈ cs.dropWhile Char.isDigit, numeric c = true) : ∀ c ∈ cs, numeric c = true := by
  intro c hc
  rw [← List.takeWhile_append_dropWhile (p := Char.isDigit) (l := cs)] at hc
  rcases List.mem_append.mp hc with hc | hc
  · have hdigit : c.isDigit = true := List.mem_takeWhile_imp hc
    simp only [numeric, hdigit, Bool.true_or]
  · exact h c hc

theorem numeric_of_isFraction {cs : Text} (h : isFraction cs = true) :
    ∀ c ∈ cs, numeric c = true := by
  unfold isFraction at h
  split at h
  · rename_i hdot
    cases cs with
    | nil => cases hdot
    | cons d cs =>
      cases hdot
      have hexp := (Bool.and_eq_true_iff.mp h).2
      exact List.forall_mem_cons.mpr
        ⟨rfl, numeric_of_dropWhile (numeric_of_isExponent hexp)⟩
  · exact numeric_of_isExponent h

theorem numeric_of_isUnsigned {cs : Text} (h : isUnsigned cs = true) :
    ∀ c ∈ cs, numeric c = true := by
  cases cs with
  | nil => exact fun c hc => absurd hc List.not_mem_nil
  | cons d cs =>
    rw [isUnsigned_cons] at h
    split at h
    · rename_i hzero
      subst hzero
      exact List.forall_mem_cons.mpr ⟨rfl, numeric_of_isFraction h⟩
    · obtain ⟨hdigit, hrest⟩ := Bool.and_eq_true_iff.mp h
      refine List.forall_mem_cons.mpr
        ⟨?_, numeric_of_dropWhile (numeric_of_isFraction hrest)⟩
      simp only [numeric, hdigit, Bool.true_or]

/-- A digit is no letter. -/
theorem not_alpha_of_digit {c : Char} (h : c.isDigit = true) : ¬c.isAlpha = true := by
  obtain ⟨hlow, hhigh⟩ := Bool.and_eq_true_iff.mp h
  have hhigh' : c.toNat ≤ 57 := UInt32.le_iff_toNat_le.mp (of_decide_eq_true hhigh)
  intro halpha
  delta Char.isAlpha Char.isUpper Char.isLower at halpha
  simp only [Bool.or_eq_true, Bool.and_eq_true, decide_eq_true_eq] at halpha
  rcases halpha with ⟨hle, -⟩ | ⟨hle, -⟩
  · have hle' : 65 ≤ c.toNat := UInt32.le_iff_toNat_le.mp hle
    omega
  · have hle' : 97 ≤ c.toNat := UInt32.le_iff_toNat_le.mp hle
    omega

namespace Literal

theorem numeric (l : Literal) : ∀ c ∈ l.text, Json.numeric c = true := by
  have hvalid := l.valid
  unfold isNumber at hvalid
  split at hvalid
  · rename_i hsign
    cases htext : l.text with
    | nil => exact fun c hc => absurd hc List.not_mem_nil
    | cons s cs =>
      rw [htext] at hsign hvalid
      cases hsign
      exact List.forall_mem_cons.mpr ⟨rfl, numeric_of_isUnsigned hvalid⟩
  · exact numeric_of_isUnsigned hvalid

/-- A number begins with a digit or with a minus sign. -/
theorem head (l : Literal) : ∃ c cs, l.text = c :: cs ∧ (c.isDigit = true ∨ c = '-') := by
  have hvalid := l.valid
  cases htext : l.text with
  | nil =>
    rw [htext] at hvalid
    cases hvalid
  | cons c cs =>
    refine ⟨c, cs, rfl, ?_⟩
    rw [htext] at hvalid
    unfold isNumber at hvalid
    split at hvalid
    · rename_i hsign
      cases hsign
      exact .inr rfl
    · refine .inl ?_
      rw [isUnsigned_cons] at hvalid
      split at hvalid
      · rename_i hzero
        subst hzero
        rfl
      · exact (Bool.and_eq_true_iff.mp hvalid).1

end Literal

/-! ### Whole numbers -/

/-- The decimal digits of a number begin with a zero only if it is zero. -/
theorem toDigits_head (n : Nat) :
    ∃ c cs, Nat.toDigits 10 n = c :: cs ∧ (c = '0' → cs = []) := by
  induction n using Nat.strongRecOn with
  | _ n ih =>
    by_cases hlt : n < 10
    · exact ⟨n.digitChar, [], Nat.toDigits_of_lt_base hlt, fun _ => rfl⟩
    · have hle : 10 ≤ n := Nat.not_lt.mp hlt
      obtain ⟨c, cs, hdigits, hzero⟩ := ih (n / 10) (by omega)
      have hcons : Nat.toDigits 10 n = c :: (cs ++ [(n % 10).digitChar]) := by
        rw [Nat.toDigits_of_base_le (by decide) hle, hdigits]
        rfl
      refine ⟨c, _, hcons, fun hc => ?_⟩
      subst hc
      rw [hzero rfl] at hdigits
      -- then ten fits into the number no time at all
      have hback : Nat.ofDigitChars 10 (Nat.toDigits 10 (n / 10)) 0 = n / 10 :=
        Nat.ofDigitChars_ten_toDigits
      rw [hdigits] at hback
      have hnone : (0 : Nat) = n / 10 := hback
      omega

theorem digits_toDigits (n : Nat) : digits (Nat.toDigits 10 n) = true := by
  have hall : ∀ c ∈ Nat.toDigits 10 n, c.isDigit = true := fun c hc =>
    Nat.isDigit_of_mem_toDigits (by decide) (by decide) hc
  cases h : Nat.toDigits 10 n with
  | nil => exact absurd h Nat.toDigits_ne_nil
  | cons c cs =>
    rw [h] at hall
    exact List.all_eq_true.mpr hall

theorem isUnsigned_toDigits (n : Nat) : isUnsigned (Nat.toDigits 10 n) = true := by
  obtain ⟨c, cs, hcons, hzero⟩ := toDigits_head n
  have hdigits := digits_toDigits n
  rw [hcons] at hdigits ⊢
  have hall := List.all_eq_true.mp hdigits
  rw [isUnsigned_cons]
  split
  · rename_i hc
    rw [hzero hc]
    rfl
  · have hcs : cs.dropWhile Char.isDigit = [] :=
      List.dropWhile_eq_nil_iff.mpr fun d hd => hall d (List.mem_cons_of_mem c hd)
    rw [hall c List.mem_cons_self, hcs]
    rfl

/-- The digits of a number are no sign. -/
theorem toDigits_ne_minus (n : Nat) : (Nat.toDigits 10 n).head? ≠ some '-' := by
  have hall : ∀ c ∈ Nat.toDigits 10 n, c.isDigit = true := fun c hc =>
    Nat.isDigit_of_mem_toDigits (by decide) (by decide) hc
  intro hhead
  exact absurd (hall '-' (List.mem_of_mem_head? hhead)) (by decide)

/-- A whole number in decimal. -/
def decimal (n : Int) : Text :=
  if n < 0 then '-' :: Nat.toDigits 10 n.natAbs else Nat.toDigits 10 n.natAbs

namespace Literal

/-- The literal of a whole number. -/
def ofInt (n : Int) : Literal where
  text := decimal n
  valid := by
    unfold decimal isNumber
    split
    · exact isUnsigned_toDigits _
    · rw [if_neg (toDigits_ne_minus _)]
      exact isUnsigned_toDigits _

end Literal

/-- A whole number, read back; none if there is a fraction or an exponent. -/
def readDecimal (cs : Text) : Option Int :=
  if cs.head? = some '-' then
    if digits cs.tail then some (-(Nat.ofDigitChars 10 cs.tail 0 : Int)) else none
  else if digits cs then some (Nat.ofDigitChars 10 cs 0) else none

theorem readDecimal_decimal (n : Int) : readDecimal (decimal n) = some n := by
  unfold decimal
  by_cases hneg : n < 0
  · rw [if_pos hneg]
    show (if digits (Nat.toDigits 10 n.natAbs) then
      some (-(Nat.ofDigitChars 10 (Nat.toDigits 10 n.natAbs) 0 : Int)) else none) = some n
    rw [if_pos (digits_toDigits _), Nat.ofDigitChars_ten_toDigits]
    exact congrArg some (by omega)
  · rw [if_neg hneg]
    unfold readDecimal
    rw [if_neg (toDigits_ne_minus _), if_pos (digits_toDigits _), Nat.ofDigitChars_ten_toDigits]
    exact congrArg some (by omega)

/-- The whole number that a literal stands for. -/
def Literal.toInt? (l : Literal) : Option Int := readDecimal l.text

theorem Literal.toInt?_ofInt (n : Int) : (Literal.ofInt n).toInt? = some n := readDecimal_decimal n

/-! ## Strings -/

/-- The value of a hexadecimal digit. -/
def hexValue (c : Char) : Option Nat :=
  if c.isDigit then some (c.toNat - 48)
  else if 'a' ≤ c ∧ c ≤ 'f' then some (c.toNat - 87)
  else if 'A' ≤ c ∧ c ≤ 'F' then some (c.toNat - 55)
  else none

theorem hexValue_digitChar : ∀ n < 16, hexValue n.digitChar = some n := by decide

/-- Four hexadecimal digits. -/
def hex4 (n : Nat) : Text :=
  [(n / 4096 % 16).digitChar, (n / 256 % 16).digitChar, (n / 16 % 16).digitChar,
    (n % 16).digitChar]

/-- The number of four hexadecimal digits. -/
def readHex4 : Text → Option (Nat × Text)
  | a :: b :: c :: d :: cs =>
    match hexValue a, hexValue b, hexValue c, hexValue d with
    | some m, some n, some k, some l => some (((m * 16 + n) * 16 + k) * 16 + l, cs)
    | _, _, _, _ => none
  | _ => none

theorem readHex4_hex4 {n : Nat} (h : n < 65536) (cs : Text) :
    readHex4 (hex4 n ++ cs) = some (n, cs) := by
  show (match hexValue (n / 4096 % 16).digitChar, hexValue (n / 256 % 16).digitChar,
      hexValue (n / 16 % 16).digitChar, hexValue (n % 16).digitChar with
    | some m, some n, some k, some l => some (((m * 16 + n) * 16 + k) * 16 + l, cs)
    | _, _, _, _ => none) = _
  rw [hexValue_digitChar _ (by omega), hexValue_digitChar _ (by omega),
    hexValue_digitChar _ (by omega), hexValue_digitChar _ (by omega)]
  show some ((((n / 4096 % 16) * 16 + n / 256 % 16) * 16 + n / 16 % 16) * 16 + n % 16, cs) = _
  rw [show (((n / 4096 % 16) * 16 + n / 256 % 16) * 16 + n / 16 % 16) * 16 + n % 16 = n by omega]

/-- The second half of a surrogate pair. -/
def lowHalf : Text → Option (Nat × Text)
  | a :: b :: cs =>
    if a = '\\' ∧ b = 'u' then (readHex4 cs).filter fun p => 0xDC00 ≤ p.1 ∧ p.1 < 0xE000
    else none
  | _ => none

/-- The character of a `\u` escape, and what is behind it. -/
def codePoint (n : Nat) (cs : Text) : Char × Text :=
  if 0xD800 ≤ n ∧ n < 0xDC00 then
    match lowHalf cs with
    | some (m, rest) => (Char.ofNat (0x10000 + (n - 0xD800) * 1024 + (m - 0xDC00)), rest)
    | none => ('\uFFFD', cs)
  else if 0xDC00 ≤ n ∧ n < 0xE000 then ('\uFFFD', cs)
  else (Char.ofNat n, cs)

/-- The escapes of one letter. -/
def named : List (Char × Char) :=
  [('\"', '\"'), ('\\', '\\'), ('/', '/'), ('b', '\x08'), ('f', '\x0c'), ('n', '\n'),
    ('r', '\r'), ('t', '\t')]

/-- What follows a backslash. -/
def readEscape : Text → Option (Char × Text)
  | [] => none
  | c :: cs =>
    if c = 'u' then (readHex4 cs).map fun p => codePoint p.1 p.2
    else (named.lookup c).map fun d => (d, cs)

/-- The rest of a string, up to its closing quote; the number bounds its length. -/
def readString : Nat → Text → Option (Text × Text)
  | 0, _ => none
  | _ + 1, [] => none
  | n + 1, c :: cs =>
    if c = '\"' then some ([], cs)
    else if c = '\\' then
      (readEscape cs).bind fun p => (readString n p.2).map fun q => (p.1 :: q.1, q.2)
    else if c.toNat < 32 then none
    else (readString n cs).map fun q => (c :: q.1, q.2)

/-- What a writer writes as `\u` and four digits: every control character that has no escape of
    one letter, and what else it likes below the surrogates. -/
structure Style where
  special : Char → Bool
  control : ∀ c, c.toNat < 32 → special c = true
  basic : ∀ c, special c = true → c.toNat < 0xD800

/-- The characters with an escape of one letter. -/
def short : List (Char × Char) :=
  [('\"', '\"'), ('\\', '\\'), ('\x08', 'b'), ('\x0c', 'f'), ('\n', 'n'), ('\r', 'r'),
    ('\t', 't')]

variable (st : Style)

/-- A character between quotes. -/
def escape (c : Char) : Text :=
  match short.lookup c with
  | some e => ['\\', e]
  | none => if st.special c then '\\' :: 'u' :: hex4 c.toNat else [c]

/-- A string behind its opening quote. -/
def quoted (cs : Text) : Text := cs.flatMap (escape st) ++ ['\"']

theorem readEscape_short : ∀ p ∈ short, ∀ cs, readEscape (p.2 :: cs) = some (p.1, cs) := by
  intro p hp cs
  simp only [short, List.mem_cons, List.not_mem_nil, or_false] at hp
  rcases hp with rfl | rfl | rfl | rfl | rfl | rfl | rfl
  all_goals rfl

theorem mem_of_lookup {α β : Type} [BEq α] [LawfulBEq α] {k : α} {v : β} {l : List (α × β)}
    (h : l.lookup k = some v) : (k, v) ∈ l := by
  induction l with
  | nil => cases h
  | cons p l ih =>
    rw [List.lookup_cons] at h
    split at h
    · rename_i hk
      cases h
      rw [eq_of_beq hk]
      exact List.mem_cons_self
    · exact List.mem_cons_of_mem _ (ih h)

/-- A `\u` escape below the surrogates is its character. -/
theorem readEscape_hex4 {c : Char} (h : c.toNat < 0xD800) (cs : Text) :
    readEscape ('u' :: (hex4 c.toNat ++ cs)) = some (c, cs) := by
  show (readHex4 (hex4 c.toNat ++ cs)).map (fun p => codePoint p.1 p.2) = _
  rw [readHex4_hex4 (by omega)]
  show some (codePoint c.toNat cs) = _
  unfold codePoint
  rw [if_neg (by omega), if_neg (by omega), Char.ofNat_toNat]

/-- An escape is not empty. -/
theorem escape_ne_nil (c : Char) : 1 ≤ (escape st c).length := by
  unfold escape
  split
  · exact Nat.le_add_left _ _
  · split
    · exact Nat.le_add_left _ _
    · exact Nat.le_refl _

theorem length_le_quoted (s : Text) : s.length < (quoted st s).length := by
  unfold quoted
  induction s with
  | nil => exact Nat.le_refl _
  | cons c s ih =>
    have hone := escape_ne_nil st c
    simp only [List.flatMap_cons, List.length_append, List.length_cons, List.length_nil] at ih ⊢
    omega

/-- One escaped character is read back. -/
theorem readString_escape (c : Char) (n : Nat) (cs : Text) :
    readString (n + 1) (escape st c ++ cs) = (readString n cs).map fun q => (c :: q.1, q.2) := by
  unfold escape
  cases hshort : short.lookup c with
  | some e =>
    have hread := readEscape_short _ (mem_of_lookup hshort) cs
    show (readEscape (e :: cs)).bind _ = _
    rw [hread]
    rfl
  | none =>
    dsimp only
    split
    · rename_i hspecial
      show (readEscape ('u' :: (hex4 c.toNat ++ cs))).bind _ = _
      rw [readEscape_hex4 (st.basic c hspecial)]
      rfl
    · rename_i hplain
      have hquote : c ≠ '\"' := by
        rintro rfl
        exact absurd hshort (by decide)
      have hslash : c ≠ '\\' := by
        rintro rfl
        exact absurd hshort (by decide)
      have hcontrol : ¬c.toNat < 32 := fun hlt => hplain (st.control c hlt)
      show readString (n + 1) (c :: cs) = _
      rw [readString, if_neg hquote, if_neg hslash, if_neg hcontrol]

/-- **A string is read back.** -/
theorem readString_quoted (s : Text) {n : Nat} (h : s.length < n) (cs : Text) :
    readString n (quoted st s ++ cs) = some (s, cs) := by
  induction s generalizing n with
  | nil =>
    obtain ⟨k, rfl⟩ := Nat.exists_eq_succ_of_ne_zero (Nat.ne_zero_of_lt h)
    rfl
  | cons c s ih =>
    obtain ⟨k, rfl⟩ := Nat.exists_eq_succ_of_ne_zero (Nat.ne_zero_of_lt h)
    have hlen : s.length < k := Nat.lt_of_succ_lt_succ h
    have hsplit : quoted st (c :: s) ++ cs = escape st c ++ (quoted st s ++ cs) := by
      unfold quoted
      rw [List.flatMap_cons, List.append_assoc, List.append_assoc, List.append_assoc]
    rw [hsplit, readString_escape, ih hlen]
    rfl

/-! ## Values -/

/-- A value; the members of an object in the order in which they are written. -/
inductive Value
  | null
  | bool (b : Bool)
  | num (l : Literal)
  | str (s : String)
  | arr (vs : List Value)
  | obj (ms : List (String × Value))

/-- White space. -/
def isSpace (c : Char) : Bool := c ∈ [' ', '\t', '\n', '\r']

/-- Pass over white space. -/
def skip (cs : Text) : Text := cs.dropWhile isSpace

theorem skip_cons {c : Char} (h : isSpace c = false) (cs : Text) : skip (c :: cs) = c :: cs :=
  List.dropWhile_cons_of_neg (by rw [h]; exact Bool.false_ne_true)

/-- One of the three names. -/
def keyword (cs : Text) : Option (Value × Text) :=
  if "null".toList.isPrefixOf cs then some (.null, cs.drop 4)
  else if "true".toList.isPrefixOf cs then some (.bool true, cs.drop 4)
  else if "false".toList.isPrefixOf cs then some (.bool false, cs.drop 5)
  else none

/-- A number, as far as its characters go. -/
def number (cs : Text) : Option (Value × Text) :=
  if h : isNumber (cs.takeWhile numeric) = true then
    some (.num ⟨cs.takeWhile numeric, h⟩, cs.dropWhile numeric)
  else none

mutual

/-- The value that a text begins with, and the rest; the number bounds its size. -/
def value : Nat → Text → Option (Value × Text)
  | 0, _ => none
  | n + 1, cs =>
    match skip cs with
    | [] => none
    | c :: r =>
      if c = '\"' then (readString (r.length + 1) r).map fun p => (.str (String.ofList p.1), p.2)
      else if c = '[' then
        if (skip r).head? = some ']' then some (.arr [], (skip r).tail)
        else (elements n r).map fun p => (.arr p.1, p.2)
      else if c = '\x7b' then
        if (skip r).head? = some '\x7d' then some (.obj [], (skip r).tail)
        else (members n r).map fun p => (.obj p.1, p.2)
      else if c.isAlpha then keyword (c :: r)
      else number (c :: r)

/-- The values of an array, up to its end. -/
def elements : Nat → Text → Option (List Value × Text)
  | 0, _ => none
  | n + 1, cs =>
    (value n cs).bind fun p =>
      if (skip p.2).head? = some ',' then
        (elements n (skip p.2).tail).map fun q => (p.1 :: q.1, q.2)
      else if (skip p.2).head? = some ']' then some ([p.1], (skip p.2).tail)
      else none

/-- The members of an object, up to its end. -/
def members : Nat → Text → Option (List (String × Value) × Text)
  | 0, _ => none
  | n + 1, cs =>
    if (skip cs).head? = some '\"' then
      (readString (skip cs).length (skip cs).tail).bind fun k =>
        if (skip k.2).head? = some ':' then
          (value n (skip k.2).tail).bind fun p =>
            if (skip p.2).head? = some ',' then
              (members n (skip p.2).tail).map fun q => ((String.ofList k.1, p.1) :: q.1, q.2)
            else if (skip p.2).head? = some '\x7d' then
              some ([(String.ofList k.1, p.1)], (skip p.2).tail)
            else none
        else none
    else none

end

/-- The value of a whole text. -/
def parse (s : String) : Option Value :=
  (value (s.length + 1) s.toList).bind fun p => if (skip p.2).isEmpty then some p.1 else none

/-! ### Writing -/

mutual

/-- A value as it is written. -/
def Value.write : Value → Text
  | .null => "null".toList
  | .bool b => if b then "true".toList else "false".toList
  | .num l => l.text
  | .str s => '\"' :: quoted st s.toList
  | .arr vs => '[' :: writeElements vs
  | .obj ms => '\x7b' :: writeMembers ms

/-- The values of an array and its end. -/
def writeElements : List Value → Text
  | [] => [']']
  | v :: vs => v.write ++ writeMoreElements vs

/-- The values of an array behind the first. -/
def writeMoreElements : List Value → Text
  | [] => [']']
  | v :: vs => ',' :: (v.write ++ writeMoreElements vs)

/-- The members of an object and its end. -/
def writeMembers : List (String × Value) → Text
  | [] => ['\x7d']
  | (k, v) :: ms => '\"' :: (quoted st k.toList ++ ':' :: (v.write ++ writeMoreMembers ms))

/-- The members of an object behind the first. -/
def writeMoreMembers : List (String × Value) → Text
  | [] => ['\x7d']
  | (k, v) :: ms => ',' :: '\"' :: (quoted st k.toList ++ ':' :: (v.write ++ writeMoreMembers ms))

end

/-- The text of a value. -/
def Value.text (v : Value) : String := String.ofList (v.write st)

/-! ### Reading what was written -/

mutual

/-- The bound that the reader needs for a value. -/
def Value.size : Value → Nat
  | .null | .bool _ | .num _ | .str _ => 1
  | .arr vs => elementsSize vs + 1
  | .obj ms => membersSize ms + 1

def elementsSize : List Value → Nat
  | [] => 0
  | v :: vs => v.size + elementsSize vs + 1

def membersSize : List (String × Value) → Nat
  | [] => 0
  | (_, v) :: ms => v.size + membersSize ms + 1

end

/-- No number goes on in this text. -/
def Stops (cs : Text) : Prop := ∀ c ∈ cs.head?, numeric c = false

theorem Stops.cons {c : Char} (h : numeric c = false) (cs : Text) : Stops (c :: cs) := by
  rintro d ⟨⟩
  exact h

theorem stops_moreElements (vs : List Value) (cs : Text) :
    Stops (writeMoreElements st vs ++ cs) := by
  cases vs with
  | nil => exact Stops.cons rfl _
  | cons v vs => exact Stops.cons rfl _

theorem stops_moreMembers (ms : List (String × Value)) (cs : Text) :
    Stops (writeMoreMembers st ms ++ cs) := by
  cases ms with
  | nil => exact Stops.cons rfl _
  | cons m ms => exact Stops.cons rfl _

/-- A value begins with no white space, and with no bracket that closes. -/
theorem Value.write_head (v : Value) :
    ∃ c cs, v.write st = c :: cs ∧ isSpace c = false ∧ c ≠ ']' ∧ c ≠ '\x7d' := by
  cases v with
  | null => exact ⟨_, _, rfl, rfl, by decide, by decide⟩
  | bool b =>
    cases b with
    | true => exact ⟨_, _, rfl, rfl, by decide, by decide⟩
    | false => exact ⟨_, _, rfl, rfl, by decide, by decide⟩
  | num l =>
    obtain ⟨c, cs, htext, hc⟩ := l.head
    have hplain : isSpace c = false ∧ c ≠ ']' ∧ c ≠ '\x7d' := by
      refine ⟨?_, ?_, ?_⟩
      · rw [isSpace, decide_eq_false_iff_not]
        intro hspace
        simp only [List.mem_cons, List.not_mem_nil, or_false] at hspace
        rcases hspace with rfl | rfl | rfl | rfl
        all_goals exact absurd hc (by decide)
      · rintro rfl
        exact absurd hc (by decide)
      · rintro rfl
        exact absurd hc (by decide)
    exact ⟨c, cs, htext, hplain⟩
  | str s => exact ⟨_, _, rfl, rfl, by decide, by decide⟩
  | arr vs => exact ⟨_, _, rfl, rfl, by decide, by decide⟩
  | obj ms => exact ⟨_, _, rfl, rfl, by decide, by decide⟩

theorem number_write (l : Literal) {cs : Text} (h : Stops cs) :
    number (l.text ++ cs) = some (.num l, cs) := by
  have htake : (l.text ++ cs).takeWhile numeric = l.text := by
    rw [List.takeWhile_append_of_pos l.numeric]
    cases cs with
    | nil => exact List.append_nil _
    | cons c cs =>
      rw [List.takeWhile_cons_of_neg (by simp [h c rfl])]
      exact List.append_nil _
  have hdrop : (l.text ++ cs).dropWhile numeric = cs := by
    rw [List.dropWhile_append_of_pos l.numeric]
    cases cs with
    | nil => rfl
    | cons c cs => exact List.dropWhile_cons_of_neg (by simp [h c rfl])
  unfold number
  simp only [htake, hdrop, l.valid, dite_true]

/-- The bounds of the three readers are enough. -/
theorem read_write (n : Nat) :
    (∀ (v : Value) cs, v.size ≤ n → Stops cs → value n (v.write st ++ cs) = some (v, cs)) ∧
      (∀ v vs cs, elementsSize (v :: vs) ≤ n →
        elements n (v.write st ++ writeMoreElements st vs ++ cs) = some (v :: vs, cs)) ∧
      ∀ k v ms cs, membersSize ((k, v) :: ms) ≤ n →
        members n ('\"' :: (quoted st k.toList ++ ':' :: (v.write st ++ writeMoreMembers st ms)) ++
          cs) = some ((k, v) :: ms, cs) := by
  induction n with
  | zero =>
    refine ⟨fun v cs h => ?_, fun v vs cs h => absurd h (Nat.not_succ_le_zero _),
      fun k v ms cs h => absurd h (Nat.not_succ_le_zero _)⟩
    cases v <;> exact absurd h (Nat.not_succ_le_zero _)
  | succ n ih =>
    obtain ⟨hvalue, helements, hmembers⟩ := ih
    refine ⟨fun v cs h hstop => ?_, fun v vs cs h => ?_, fun k v ms cs h => ?_⟩
    · cases v with
      | null => rfl
      | bool b => cases b <;> rfl
      | num l =>
        obtain ⟨c, t, htext, hc⟩ := l.head
        have hread := number_write l hstop
        show value (n + 1) (l.text ++ cs) = _
        rw [htext] at hread ⊢
        have hspace : isSpace c = false := by
          obtain ⟨c', t', hw, hsp, -⟩ := Value.write_head st (.num l)
          rw [show (Value.num l).write st = l.text from rfl, htext] at hw
          cases hw
          exact hsp
        have hplain : c ≠ '\"' ∧ c ≠ '[' ∧ c ≠ '\x7b' ∧ ¬c.isAlpha = true := by
          refine ⟨?_, ?_, ?_, fun halpha => ?_⟩
          · rintro rfl
            exact absurd hc (by decide)
          · rintro rfl
            exact absurd hc (by decide)
          · rintro rfl
            exact absurd hc (by decide)
          · rcases hc with hc | rfl
            · exact not_alpha_of_digit hc halpha
            · exact absurd halpha (by decide)
        rw [List.cons_append, value, skip_cons hspace]
        dsimp only
        rw [if_neg hplain.1, if_neg hplain.2.1, if_neg hplain.2.2.1, if_neg hplain.2.2.2]
        exact hread
      | str s =>
        show (readString ((quoted st s.toList ++ cs).length + 1) (quoted st s.toList ++ cs)).map _ = _
        have hlen : s.toList.length < (quoted st s.toList ++ cs).length + 1 := by
          have hle := length_le_quoted st s.toList
          rw [List.length_append]
          omega
        rw [readString_quoted st _ hlen]
        show some (Value.str (String.ofList s.toList), cs) = _
        rw [String.ofList_toList]
      | arr vs =>
        show value (n + 1) ('[' :: (writeElements st vs ++ cs)) = _
        cases vs with
        | nil => rfl
        | cons v vs =>
          obtain ⟨c, t, hw, hsp, hclose, -⟩ := v.write_head st
          have hnot : ¬(skip (writeElements st (v :: vs) ++ cs)).head? = some ']' := by
            rw [writeElements, hw, List.cons_append, List.cons_append, skip_cons hsp]
            exact fun hc => hclose (Option.some.inj hc)
          have hsize : elementsSize (v :: vs) ≤ n := Nat.le_of_succ_le_succ h
          show (if (skip (writeElements st (v :: vs) ++ cs)).head? = some ']' then _ else _) = _
          rw [if_neg hnot, writeElements, helements v vs cs hsize]
          rfl
      | obj ms =>
        show value (n + 1) ('\x7b' :: (writeMembers st ms ++ cs)) = _
        cases ms with
        | nil => rfl
        | cons m ms =>
          obtain ⟨k, v⟩ := m
          have hsize : membersSize ((k, v) :: ms) ≤ n := Nat.le_of_succ_le_succ h
          show (members n (writeMembers st ((k, v) :: ms) ++ cs)).map _ = _
          rw [writeMembers, hmembers k v ms cs hsize]
          rfl
    · have hsize : v.size ≤ n ∧ elementsSize vs ≤ n := by
        unfold elementsSize at h
        omega
      rw [elements, List.append_assoc, hvalue v _ hsize.1 (stops_moreElements st vs cs)]
      cases vs with
      | nil => rfl
      | cons w vs =>
        have hrest := helements w vs cs hsize.2
        show (elements n (w.write st ++ writeMoreElements st vs ++ cs)).map _ = _
        rw [hrest]
        rfl
    · have hsize : v.size ≤ n ∧ membersSize ms ≤ n := by
        unfold membersSize at h
        omega
      have hlen : k.toList.length < ('\"' :: (quoted st k.toList ++ ':' ::
          (v.write st ++ writeMoreMembers st ms) ++ cs)).length := by
        have hle := length_le_quoted st k.toList
        simp only [List.length_cons, List.length_append]
        omega
      show (readString ('\"' :: (quoted st k.toList ++ ':' ::
          (v.write st ++ writeMoreMembers st ms) ++ cs)).length
            (quoted st k.toList ++ ':' :: (v.write st ++ writeMoreMembers st ms) ++ cs)).bind _ = _
      rw [List.append_assoc] at hlen ⊢
      rw [readString_quoted st _ hlen]
      show (value n (v.write st ++ writeMoreMembers st ms ++ cs)).bind _ = _
      rw [List.append_assoc, hvalue v _ hsize.1 (stops_moreMembers st ms cs)]
      show (if (skip (writeMoreMembers st ms ++ cs)).head? = some ',' then _ else _) = _
      cases ms with
      | nil =>
        show some ([(String.ofList k.toList, v)], cs) = _
        rw [String.ofList_toList]
      | cons m ms =>
        obtain ⟨k', v'⟩ := m
        have hrest := hmembers k' v' ms cs hsize.2
        show (members n ('\"' :: (quoted st k'.toList ++ ':' ::
          (v'.write st ++ writeMoreMembers st ms)) ++ cs)).map _ = _
        rw [hrest]
        show some ((String.ofList k.toList, v) :: (k', v') :: ms, cs) = _
        rw [String.ofList_toList]

mutual

theorem Value.size_le : ∀ v : Value, v.size ≤ (v.write st).length
  | .null => by
    show 1 ≤ "null".toList.length
    decide
  | .bool true => by
    show 1 ≤ "true".toList.length
    decide
  | .bool false => by
    show 1 ≤ "false".toList.length
    decide
  | .num l => by
    obtain ⟨c, cs, htext, -⟩ := l.head
    show 1 ≤ l.text.length
    rw [htext]
    exact Nat.le_add_left _ _
  | .str s => Nat.le_add_left _ _
  | .arr [] => Nat.le_add_left 1 1
  | .arr (v :: vs) => by
    have hv := Value.size_le v
    have hvs := elementsSize_le vs
    show v.size + elementsSize vs + 1 + 1 ≤ (v.write st ++ writeMoreElements st vs).length + 1
    rw [List.length_append]
    omega
  | .obj [] => Nat.le_add_left 1 1
  | .obj ((k, v) :: ms) => by
    have hv := Value.size_le v
    have hms := membersSize_le ms
    show v.size + membersSize ms + 1 + 1 ≤
      (quoted st k.toList ++ ':' :: (v.write st ++ writeMoreMembers st ms)).length + 1 + 1
    rw [List.length_append, List.length_cons, List.length_append]
    omega

theorem elementsSize_le : ∀ vs : List Value,
    elementsSize vs + 1 ≤ (writeMoreElements st vs).length
  | [] => Nat.le_refl _
  | v :: vs => by
    have hv := Value.size_le v
    have hvs := elementsSize_le vs
    show v.size + elementsSize vs + 1 + 1 ≤ (v.write st ++ writeMoreElements st vs).length + 1
    rw [List.length_append]
    omega

theorem membersSize_le : ∀ ms : List (String × Value),
    membersSize ms + 1 ≤ (writeMoreMembers st ms).length
  | [] => Nat.le_refl _
  | (k, v) :: ms => by
    have hv := Value.size_le v
    have hms := membersSize_le ms
    show v.size + membersSize ms + 1 + 1 ≤
      (quoted st k.toList ++ ':' :: (v.write st ++ writeMoreMembers st ms)).length + 1 + 1
    rw [List.length_append, List.length_cons, List.length_append]
    omega

end

/-- **What was written is read back**, in whatever style. -/
theorem parse_write (v : Value) : parse (v.text st) = some v := by
  have hsize : v.size ≤ (v.text st).length + 1 := by
    have hle := v.size_le st
    unfold Value.text
    rw [String.length_ofList]
    omega
  have hread := (read_write st ((v.text st).length + 1)).1 v [] hsize (fun c hc => by cases hc)
  rw [List.append_nil] at hread
  unfold parse
  rw [show (v.text st).toList = v.write st from String.toList_ofList, hread]
  rfl

/-- Only the characters that JSON requires. -/
def plainStyle : Style where
  special c := c.toNat < 32
  control _ h := decide_eq_true h
  basic c h := by
    have hlt : c.toNat < 32 := of_decide_eq_true h
    omega

/-! ## Schemas -/

/-- A schema. -/
inductive Schema where
  /-- `"type": "string"`. -/
  | string
  /-- The same with an `enum`. -/
  | oneOf (ss : List String)
  /-- `"type": "boolean"`. -/
  | boolean
  /-- `"type": "integer"` with a `const`. -/
  | const (n : Int)
  /-- `"type": "integer"` with a `minimum`. -/
  | atLeast (n : Int)
  /-- `"type": "array"` with `minItems`. -/
  | array (minItems : Nat) (items : Schema)
  /-- `"type": "object"` with `"additionalProperties": false`. -/
  | object (required : List String) (properties : List (String × Schema))

namespace Schema

mutual

/-- The value conforms to the schema. -/
def accepts : Value → Schema → Bool
  | .str _, .string => true
  | .str s, .oneOf ss => s ∈ ss
  | .bool _, .boolean => true
  | .num l, .const n => l.toInt?.any (· = n)
  | .num l, .atLeast n => l.toInt?.any (n ≤ ·)
  | .arr vs, .array minItems items => decide (minItems ≤ vs.length) && acceptsAll vs items
  | .obj ms, .object required properties =>
    (required.all fun k => ms.any fun m => m.1 = k) && acceptsMembers ms properties
  | _, _ => false

def acceptsAll : List Value → Schema → Bool
  | [], _ => true
  | v :: vs, items => accepts v items && acceptsAll vs items

def acceptsMembers : List (String × Value) → List (String × Schema) → Bool
  | [], _ => true
  | (k, v) :: ms, properties =>
    (match properties.lookup k with
      | some s => accepts v s
      | none => false) && acceptsMembers ms properties

end

theorem accepts_obj (ms : List (String × Value)) (required : List String)
    (ps : List (String × Schema)) : accepts (.obj ms) (.object required ps) =
      ((required.all fun k => ms.any fun m => m.1 = k) && acceptsMembers ms ps) := by
  rw [accepts]

theorem acceptsMembers_append (ms ns : List (String × Value)) (ps : List (String × Schema)) :
    acceptsMembers (ms ++ ns) ps = (acceptsMembers ms ps && acceptsMembers ns ps) := by
  induction ms with
  | nil => rfl
  | cons m ms ih =>
    obtain ⟨k, v⟩ := m
    simp only [List.cons_append, acceptsMembers, ih, Bool.and_assoc]

theorem acceptsAll_strings (ss : List String) : acceptsAll (ss.map .str) .string = true := by
  induction ss with
  | nil => rfl
  | cons s ss ih =>
    show (accepts (.str s) .string && acceptsAll (ss.map .str) .string) = true
    rw [ih]
    rfl

end Schema

end Novamail.Core.Json

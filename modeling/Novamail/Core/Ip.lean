/-
  IPv4 and IPv6 addresses as text, and the numbers they stand for.

  An IPv4 address is four decimal octets without leading zeros.  An IPv6 address is eight groups of
  one to four hexadecimal digits in either case; a `::` stands for one run of zero groups or more,
  the last two groups may be written as an IPv4 address, and a zone may follow behind a `%`.  One
  address has many spellings, and `Spells6` relates each of them to its eight groups.
-/
import Mathlib.Algebra.Ring.Nat
import Novamail.Core.Words

namespace Novamail.Core.Ip

/-- A text, by characters. -/
abbrev Text := List Char

/-! ## IPv4 -/

/-- The number that decimal digits stand for. -/
def decimal (w : Text) : Nat := w.foldl (fun n c => 10 * n + (c.toNat - 48)) 0

/-- A decimal octet: up to 255, and without leading zeros. -/
def isOctet (w : Text) : Bool :=
  w ≠ [] && w.length ≤ 3 && w.all Char.isDigit && decimal w ≤ 255 &&
    (w.length = 1 || w.head? ≠ some '0')

/-- The octets of an IPv4 address; none is a text that is not one. -/
def octets (s : Text) : Option (List Nat) :=
  if (s.splitOn '.').length = 4 && (s.splitOn '.').all isOctet then
    some ((s.splitOn '.').map decimal)
  else none

/-- The number of an IPv4 address, by its octets. -/
def number4 : List Nat → Nat
  | [a, b, c, d] => ((a * 256 + b) * 256 + c) * 256 + d
  | _ => 0

/-! ## IPv6 -/

def isHex (c : Char) : Bool := c.isDigit || ('a' ≤ c && c ≤ 'f') || ('A' ≤ c && c ≤ 'F')

/-- The value of a hexadecimal digit. -/
def hexDigit (c : Char) : Nat :=
  if c.isDigit then c.toNat - 48 else if c ≤ 'F' then c.toNat - 55 else c.toNat - 87

/-- The number that hexadecimal digits stand for. -/
def hexadecimal (w : Text) : Nat := w.foldl (fun n c => 16 * n + hexDigit c) 0

/-- One to four hexadecimal digits. -/
def IsGroup (w : Text) : Prop := w ≠ [] ∧ w.length ≤ 4 ∧ ∀ c ∈ w, isHex c = true

instance : DecidablePred IsGroup := fun w =>
  decidable_of_iff (w ≠ [] ∧ w.length ≤ 4 ∧ w.all isHex = true)
    (and_congr_right' (and_congr_right' List.all_eq_true))

/-- What stands on one side of a `::`: groups, and an IPv4 address behind them or none. -/
structure Pieces where
  groups : List Text
  quad : Option Text

namespace Pieces

structure Good (p : Pieces) : Prop where
  groups : ∀ w ∈ p.groups, IsGroup w
  quad : ∀ q ∈ p.quad, (octets q).isSome = true

def text (p : Pieces) : Text := [':'].intercalate (p.groups ++ p.quad.toList)

/-- The two groups of an IPv4 address. -/
def quadValues (q : Text) : List Nat :=
  match octets q with
  | some [a, b, c, d] => [a * 256 + b, c * 256 + d]
  | _ => []

def values (p : Pieces) : List Nat :=
  p.groups.map hexadecimal ++ (p.quad.map quadValues).getD []

end Pieces

/-- The spellings of eight groups, without a zone. -/
inductive Body : Text → List Nat → Prop where
  /-- All eight are written. -/
  | full {p : Pieces} (hp : p.Good) (hlen : p.values.length = 8) : Body p.text p.values
  /-- A run of zero groups is left out. -/
  | short {left right : Pieces} (hl : left.Good) (hq : left.quad = none) (hr : right.Good)
      (hlen : left.values.length + right.values.length ≤ 7) :
      Body (left.text ++ ':' :: ':' :: right.text)
        (left.values ++ List.replicate (8 - (left.values.length + right.values.length)) 0 ++
          right.values)

/-- A zone, or none. -/
def IsZone (z : Text) : Prop :=
  z = [] ∨ ∃ cs, z = '%' :: cs ∧ cs ≠ [] ∧
    ∀ c ∈ cs, (c.isAlphanum || c ∈ ['-', '.', ':']) = true

/-- The text is a spelling of the IPv6 address with these groups. -/
def Spells6 (s : Text) (gs : List Nat) : Prop :=
  ∃ body zone, s = body ++ zone ∧ Body body gs ∧ IsZone zone

/-! ## Blocks -/

/-- The number is in 0/8, 10/8, 127/8, 172.16/12, 192.168/16 or 169.254/16. -/
def Private4 (n : Nat) : Prop :=
  n / 2 ^ 24 = 0 ∨ n / 2 ^ 24 = 10 ∨ n / 2 ^ 24 = 127 ∨ n / 2 ^ 20 = 172 * 2 ^ 4 + 1 ∨
    n / 2 ^ 16 = 192 * 2 ^ 8 + 168 ∨ n / 2 ^ 16 = 169 * 2 ^ 8 + 254

/-- The groups are those of an IPv4-mapped address, of an IPv4 address in one of these blocks. -/
def MapsPrivate (gs : List Nat) : Prop :=
  ∃ hi lo, gs = [0, 0, 0, 0, 0, 0xffff, hi, lo] ∧ Private4 (hi * 2 ^ 16 + lo)

/-- The groups are those of `::` or of `::1`. -/
def Local (gs : List Nat) : Prop :=
  gs = [0, 0, 0, 0, 0, 0, 0, 0] ∨ gs = [0, 0, 0, 0, 0, 0, 0, 1]

/-- The first group is that of an address in fe80::/10 or fc00::/7. -/
def Internal (g : Nat) : Prop := g / 2 ^ 6 = 0xfe80 / 2 ^ 6 ∨ g / 2 ^ 9 = 0xfc00 / 2 ^ 9

/-- The groups are those of `::` or `::1`, of an address in fe80::/10 or fc00::/7, or of one that
    is mapped from a private IPv4 address. -/
def Private6 (gs : List Nat) : Prop :=
  Local gs ∨ (∃ g ∈ gs.head?, Internal g) ∨ MapsPrivate gs

/-- An address by its number: the octets, or the groups. -/
inductive Address where
  | v4 (os : List Nat)
  | v6 (gs : List Nat)

/-- The text is a spelling of the address. -/
def Spells (s : Text) : Address → Prop
  | .v4 os => octets s = some os
  | .v6 gs => Spells6 s gs

def Address.Private : Address → Prop
  | .v4 os => Private4 (number4 os)
  | .v6 gs => Private6 gs

/-- Groups on both sides of a `::`, without an IPv4 address and without a zone. -/
theorem spells_short {us vs : List Text} (hus : ∀ w ∈ us, IsGroup w) (hvs : ∀ w ∈ vs, IsGroup w)
    (hlen : us.length + vs.length ≤ 7) :
    Spells6 ([':'].intercalate us ++ ':' :: ':' :: [':'].intercalate vs)
      (us.map hexadecimal ++ List.replicate (8 - (us.length + vs.length)) 0 ++
        vs.map hexadecimal) := by
  have hgood : ∀ ws : List Text, (∀ w ∈ ws, IsGroup w) → (Pieces.mk ws none).Good :=
    fun ws h => ⟨h, fun q hq => (Option.not_mem_none q hq).elim⟩
  have hcount : ∀ ws : List Text, (Pieces.mk ws none).values = ws.map hexadecimal :=
    fun ws => List.append_nil _
  have htext : ∀ ws : List Text, (Pieces.mk ws none).text = [':'].intercalate ws := by
    intro ws
    show [':'].intercalate (ws ++ []) = _
    rw [List.append_nil]
  have hbody := Body.short (hgood us hus) rfl (hgood vs hvs)
    (by rw [hcount, hcount, List.length_map, List.length_map]; exact hlen)
  rw [hcount, hcount, htext, htext, List.length_map, List.length_map] at hbody
  exact ⟨_, [], (List.append_nil _).symm, hbody, .inl rfl⟩

/-! ## Characters -/

theorem octets_spec {q : Text} (h : (octets q).isSome = true) :
    (q.splitOn '.').length = 4 ∧ (∀ w ∈ q.splitOn '.', isOctet w = true) ∧
      octets q = some ((q.splitOn '.').map decimal) := by
  unfold octets at h ⊢
  split at h
  · rename_i hgood
    obtain ⟨hlen, hall⟩ := Bool.and_eq_true_iff.mp hgood
    rw [if_pos hgood]
    exact ⟨of_decide_eq_true hlen, List.all_eq_true.mp hall, rfl⟩
  · cases h

theorem isOctet_spec {w : Text} (h : isOctet w = true) :
    w ≠ [] ∧ (∀ c ∈ w, c.isDigit = true) ∧ decimal w ≤ 255 := by
  simp only [isOctet, Bool.and_eq_true, decide_eq_true_eq, List.all_eq_true] at h
  exact ⟨h.1.1.1.1, h.1.1.2, h.1.2⟩

/-- An IPv4 address is made of digits and dots. -/
theorem mem_quad {q : Text} (h : (octets q).isSome = true) {c : Char} (hc : c ∈ q) :
    c.isDigit = true ∨ c = '.' := by
  obtain ⟨-, hall, -⟩ := octets_spec h
  have hjoin : ['.'].intercalate (q.splitOn '.') = q := List.intercalate_splitOn '.'
  rw [← hjoin] at hc
  rcases mem_intercalate hc with hdot | ⟨w, hw, hin⟩
  · exact .inr hdot
  · exact .inl ((isOctet_spec (hall w hw)).2.1 c hin)

/-- And has a dot in it. -/
theorem dot_mem_quad {q : Text} (h : (octets q).isSome = true) : '.' ∈ q := by
  by_contra hdot
  obtain ⟨hlen, -, -⟩ := octets_spec h
  rw [List.splitOn_eq_singleton hdot] at hlen
  cases hlen

theorem quad_ne_nil {q : Text} (h : (octets q).isSome = true) : q ≠ [] :=
  List.ne_nil_of_mem (dot_mem_quad h)

/-- The four octets of an address. -/
theorem exists_octets {q : Text} (h : (octets q).isSome = true) :
    ∃ a b c d, octets q = some [a, b, c, d] ∧ a ≤ 255 ∧ b ≤ 255 ∧ c ≤ 255 ∧ d ≤ 255 := by
  obtain ⟨hlen, hall, hvalue⟩ := octets_spec h
  match hws : q.splitOn '.' with
  | [w₁, w₂, w₃, w₄] =>
    rw [hws] at hall hvalue
    have hle : ∀ w ∈ [w₁, w₂, w₃, w₄], decimal w ≤ 255 := fun w hw => (isOctet_spec (hall w hw)).2.2
    exact ⟨_, _, _, _, hvalue, hle w₁ (by simp), hle w₂ (by simp), hle w₃ (by simp),
      hle w₄ (by simp)⟩
  | [] | [_] | [_, _] | [_, _, _] | _ :: _ :: _ :: _ :: _ :: _ =>
    rw [hws] at hlen
    simp at hlen

theorem quadValues_eq {q : Text} {a b c d : Nat} (h : octets q = some [a, b, c, d]) :
    Pieces.quadValues q = [a * 256 + b, c * 256 + d] := by
  unfold Pieces.quadValues
  rw [h]

/-! ## Case -/

/-- What holds of every ASCII character. -/
theorem of_ascii {p : Char → Prop} (h : ∀ n < 128, p (Char.ofNat n)) {c : Char}
    (hc : c.toNat < 128) : p c := by
  have hp := h c.toNat hc
  rwa [Char.ofNat_toNat] at hp

theorem toNat_le {c d : Char} (h : c ≤ d) : c.toNat ≤ d.toNat :=
  UInt32.le_iff_toNat_le.mp h

theorem isDigit_ascii {c : Char} (h : c.isDigit = true) : c.toNat < 128 := by
  obtain ⟨-, hle⟩ := Bool.and_eq_true_iff.mp h
  have hle' : c.toNat ≤ 57 := UInt32.le_iff_toNat_le.mp (of_decide_eq_true hle)
  omega

theorem isHex_ascii {c : Char} (h : isHex c = true) : c.toNat < 128 := by
  simp only [isHex, Bool.or_eq_true, Bool.and_eq_true, decide_eq_true_eq] at h
  rcases h with (hdigit | ⟨-, hle⟩) | ⟨-, hle⟩
  · exact isDigit_ascii hdigit
  · have hle' : c.toNat ≤ 102 := toNat_le hle
    omega
  · have hle' : c.toNat ≤ 70 := toNat_le hle
    omega

theorem isAlphanum_ascii {c : Char} (h : c.isAlphanum = true) : c.toNat < 128 := by
  delta Char.isAlphanum Char.isAlpha Char.isUpper Char.isLower at h
  simp only [Bool.or_eq_true, Bool.and_eq_true, decide_eq_true_eq] at h
  rcases h with (⟨-, hle⟩ | ⟨-, hle⟩) | hdigit
  · have hle' : c.toNat ≤ 90 := UInt32.le_iff_toNat_le.mp hle
    omega
  · have hle' : c.toNat ≤ 122 := UInt32.le_iff_toNat_le.mp hle
    omega
  · exact isDigit_ascii hdigit

theorem hex_toLower {c : Char} (h : isHex c = true) :
    isHex c.toLower = true ∧ hexDigit c.toLower = hexDigit c :=
  of_ascii (p := fun c => isHex c = true → isHex c.toLower = true ∧ hexDigit c.toLower = hexDigit c)
    (by decide) (isHex_ascii h) h

theorem hexDigit_lt {c : Char} (h : isHex c = true) : hexDigit c < 16 :=
  of_ascii (p := fun c => isHex c = true → hexDigit c < 16) (by decide) (isHex_ascii h) h

theorem quad_toLower {c : Char} (h : c.isDigit = true ∨ c = '.') : c.toLower = c := by
  rcases h with h | rfl
  · exact of_ascii (p := fun c => c.isDigit = true → c.toLower = c) (by decide)
      (isDigit_ascii h) h
  · rfl

theorem zone_toLower {c : Char} (h : (c.isAlphanum || c ∈ ['-', '.', ':']) = true) :
    (c.toLower.isAlphanum || c.toLower ∈ ['-', '.', ':']) = true := by
  rcases Bool.or_eq_true_iff.mp h with h | h
  · rw [of_ascii (p := fun c => c.isAlphanum = true → c.toLower.isAlphanum = true)
      (by decide) (isAlphanum_ascii h) h]
    rfl
  · have hall : ∀ c ∈ ['-', '.', ':'],
        (c.toLower.isAlphanum || decide (c.toLower ∈ ['-', '.', ':'])) = true :=
      forall_mem_of_all (by simp)
    exact hall c (of_decide_eq_true h)

/-- A text in lower case. -/
def lowered (s : Text) : Text := s.map Char.toLower

theorem lowered_append (s t : Text) : lowered (s ++ t) = lowered s ++ lowered t :=
  List.map_append

theorem hexadecimal_lowered {w : Text} (h : ∀ c ∈ w, isHex c = true) :
    hexadecimal (lowered w) = hexadecimal w := by
  have hfold : ∀ n, (lowered w).foldl (fun n c => 16 * n + hexDigit c) n =
      w.foldl (fun n c => 16 * n + hexDigit c) n := by
    induction w with
    | nil => intro n; rfl
    | cons c w ih =>
      intro n
      show (lowered w).foldl _ (16 * n + hexDigit c.toLower) = w.foldl _ (16 * n + hexDigit c)
      rw [(hex_toLower (h c List.mem_cons_self)).2]
      exact ih (fun d hd => h d (List.mem_cons_of_mem _ hd)) _
  exact hfold 0

theorem IsGroup.lowered {w : Text} (h : IsGroup w) : IsGroup (lowered w) := by
  obtain ⟨hne, hlen, hhex⟩ := h
  refine ⟨fun hnil => hne (List.map_eq_nil_iff.mp hnil), ?_, ?_⟩
  · unfold Ip.lowered
    rwa [List.length_map]
  · intro c hc
    obtain ⟨d, hd, rfl⟩ := List.mem_map.mp hc
    exact (hex_toLower (hhex d hd)).1

theorem lowered_quad {q : Text} (h : (octets q).isSome = true) : lowered q = q := by
  unfold lowered
  conv => rhs; rw [← List.map_id q]
  exact List.map_congr_left fun c hc => quad_toLower (mem_quad h hc)

namespace Pieces

/-- The pieces with their groups in lower case. -/
def lowered (p : Pieces) : Pieces := { p with groups := p.groups.map Ip.lowered }

theorem Good.lowered {p : Pieces} (h : p.Good) : p.lowered.Good := by
  refine ⟨?_, h.quad⟩
  intro w hw
  obtain ⟨v, hv, rfl⟩ := List.mem_map.mp hw
  exact (h.groups v hv).lowered

theorem lowered_values {p : Pieces} (h : p.Good) : p.lowered.values = p.values := by
  have hgroups : (p.groups.map Ip.lowered).map hexadecimal = p.groups.map hexadecimal := by
    rw [List.map_map]
    exact List.map_congr_left fun w hw => hexadecimal_lowered (h.groups w hw).2.2
  show (p.groups.map Ip.lowered).map hexadecimal ++ _ = _
  rw [hgroups]
  rfl

theorem lowered_text {p : Pieces} (h : p.Good) : p.lowered.text = Ip.lowered p.text := by
  have hquad : p.quad.toList.map Ip.lowered = p.quad.toList := by
    match hq : p.quad with
    | none => rfl
    | some q => exact congrArg (fun q => [q]) (lowered_quad (h.quad q hq))
  have hall : p.groups.map Ip.lowered ++ p.quad.toList =
      (p.groups ++ p.quad.toList).map Ip.lowered := by
    rw [List.map_append, hquad]
  show [':'].intercalate (p.groups.map Ip.lowered ++ p.quad.toList) = _
  rw [hall]
  exact (map_intercalate Char.toLower ':' _).symm

end Pieces

theorem Body.lowered {s : Text} {gs : List Nat} (h : Body s gs) : Body (lowered s) gs := by
  cases h with
  | @full p hp hlen =>
    rw [← Pieces.lowered_text hp, ← Pieces.lowered_values hp]
    refine .full hp.lowered ?_
    rwa [Pieces.lowered_values hp]
  | @short left right hl hq hr hlen =>
    have htext : Ip.lowered (left.text ++ ':' :: ':' :: right.text) =
        left.lowered.text ++ ':' :: ':' :: right.lowered.text := by
      rw [Pieces.lowered_text hl, Pieces.lowered_text hr]
      exact lowered_append _ _
    rw [htext, ← Pieces.lowered_values hl, ← Pieces.lowered_values hr]
    refine .short hl.lowered hq hr.lowered ?_
    rwa [Pieces.lowered_values hl, Pieces.lowered_values hr]

theorem IsZone.lowered {z : Text} (h : IsZone z) : IsZone (lowered z) := by
  rcases h with rfl | ⟨cs, rfl, hne, hall⟩
  · exact .inl rfl
  · refine .inr ⟨Ip.lowered cs, rfl, fun hnil => hne (List.map_eq_nil_iff.mp hnil), ?_⟩
    intro c hc
    obtain ⟨d, hd, rfl⟩ := List.mem_map.mp hc
    exact zone_toLower (hall d hd)

/-- The case of its letters is nothing to an IPv6 address. -/
theorem Spells6.lowered {s : Text} {gs : List Nat} (h : Spells6 s gs) :
    Spells6 (lowered s) gs := by
  obtain ⟨body, zone, rfl, hbody, hzone⟩ := h
  exact ⟨Ip.lowered body, Ip.lowered zone, lowered_append _ _, hbody.lowered, hzone.lowered⟩

/-! ## How a spelling begins -/

theorem Pieces.text_cons {w : Text} {ws : List Text} {quad : Option Text}
    (hmore : ws ++ quad.toList ≠ []) :
    Pieces.text ⟨w :: ws, quad⟩ = w ++ ':' :: Pieces.text ⟨ws, quad⟩ := by
  show [':'].intercalate (w :: (ws ++ quad.toList)) =
    w ++ ':' :: [':'].intercalate (ws ++ quad.toList)
  match hxs : ws ++ quad.toList with
  | [] => exact absurd hxs hmore
  | x :: xs => exact intercalate_more ':' w x xs

theorem Pieces.text_group (w : Text) : Pieces.text ⟨[w], none⟩ = w :=
  intercalate_one ':' w

theorem Pieces.text_quad (q : Text) : Pieces.text ⟨[], some q⟩ = q :=
  intercalate_one ':' q

theorem quadValues_length {q : Text} (h : (octets q).isSome = true) :
    (Pieces.quadValues q).length = 2 := by
  obtain ⟨a, b, c, d, heq, -⟩ := exists_octets h
  rw [quadValues_eq heq]
  rfl

/-- **A spelling begins with the digits of the first group, or with `::`**, and all that the `::`
    stands for is then zero. -/
theorem Body.begins {s : Text} {gs : List Nat} (h : Body s gs) :
    (∃ w rest, s = w ++ ':' :: rest ∧ IsGroup w ∧ gs.head? = some (hexadecimal w)) ∨
      ∃ right : Pieces, right.Good ∧ right.values.length ≤ 7 ∧ s = ':' :: ':' :: right.text ∧
        gs = List.replicate (8 - right.values.length) 0 ++ right.values := by
  cases h with
  | @full p hp hlen =>
    obtain ⟨groups, quad⟩ := p
    cases groups with
    | nil =>
      -- An IPv4 address alone is no eight groups.
      exfalso
      cases quad with
      | none => cases hlen
      | some q =>
        have htwo : (Pieces.values ⟨[], some q⟩).length = 2 := quadValues_length (hp.quad q rfl)
        omega
    | cons w ws =>
      have hmore : ws ++ quad.toList ≠ [] := by
        intro hnil
        obtain ⟨rfl, hquad⟩ := List.append_eq_nil_iff.mp hnil
        obtain rfl : quad = none := Option.toList_eq_nil_iff.mp hquad
        cases hlen
      exact .inl ⟨w, _, Pieces.text_cons hmore, hp.groups w List.mem_cons_self, rfl⟩
  | @short left right hl hq hr hlen =>
    obtain ⟨groups, quad⟩ := left
    obtain rfl : quad = none := hq
    cases groups with
    | nil =>
      refine .inr ⟨right, hr, ?_, rfl, ?_⟩
      · have hzero : (Pieces.values ⟨[], none⟩).length = 0 := rfl
        omega
      · have hzero : (Pieces.values ⟨[], none⟩).length = 0 := rfl
        rw [hzero, Nat.zero_add]
        rfl
    | cons w ws =>
      refine .inl ⟨w, ?_⟩
      by_cases hmore : ws = []
      · subst hmore
        refine ⟨':' :: right.text, ?_, hl.groups w List.mem_cons_self, rfl⟩
        rw [Pieces.text_group]
      · refine ⟨Pieces.text ⟨ws, none⟩ ++ ':' :: ':' :: right.text, ?_,
          hl.groups w List.mem_cons_self, rfl⟩
        rw [Pieces.text_cons (by simpa using hmore)]
        simp

/-- An IPv4 address begins with a digit. -/
theorem quad_head {c : Char} {q : Text} (h : (octets (c :: q)).isSome = true) :
    c.isDigit = true := by
  rcases mem_quad h List.mem_cons_self with hdigit | rfl
  · exact hdigit
  · obtain ⟨-, hall, -⟩ := octets_spec h
    have hsplit : ('.' :: q).splitOn '.' = [].splitOn '.' ++ q.splitOn '.' :=
      List.splitOn_append_cons_self [] q
    have hempty : isOctet [] = true := hall [] (by simp [hsplit])
    cases hempty

/-- A zone begins with a percent sign. -/
theorem IsZone.head {z : Text} (h : IsZone z) {c : Char} (hc : c ∈ z.head?) : c = '%' := by
  rcases h with rfl | ⟨cs, rfl, -⟩
  · cases hc
  · exact (Option.some.inj hc).symm

/-- Pieces begin with a digit. -/
theorem Pieces.Good.head {p : Pieces} (hp : p.Good) (hne : p.groups ++ p.quad.toList ≠ []) :
    ∃ c s, p.text = c :: s ∧ isHex c = true := by
  obtain ⟨groups, quad⟩ := p
  match groups, quad, hne with
  | w :: ws, quad, _ =>
    have hw := hp.groups w List.mem_cons_self
    obtain ⟨c, w', hcons⟩ := List.exists_cons_of_ne_nil hw.1
    have hc : isHex c = true := hw.2.2 c (by rw [hcons]; exact List.mem_cons_self)
    by_cases hmore : ws ++ quad.toList = []
    · obtain ⟨rfl, hquad⟩ := List.append_eq_nil_iff.mp hmore
      obtain rfl : quad = none := Option.toList_eq_nil_iff.mp hquad
      exact ⟨c, w', by rw [Pieces.text_group, hcons], hc⟩
    · exact ⟨c, _, by rw [Pieces.text_cons hmore, hcons]; rfl, hc⟩
  | [], some q, _ =>
    have hq := hp.quad q rfl
    obtain ⟨c, q', hcons⟩ := List.exists_cons_of_ne_nil (quad_ne_nil hq)
    refine ⟨c, q', by rw [Pieces.text_quad, hcons], ?_⟩
    have hdigit : c.isDigit = true := quad_head (by rwa [hcons] at hq)
    unfold isHex
    rw [hdigit]
    rfl

/-- Digits are read up to where there is no digit. -/
theorem digits_eq {w v u r : Text} {c : Char} (h : w ++ u = v ++ c :: r)
    (hw : ∀ c ∈ w, isHex c = true) (hv : ∀ c ∈ v, isHex c = true) (hc : isHex c = false)
    (hu : ∀ c ∈ u.head?, isHex c = false) : w = v ∧ u = c :: r := by
  rcases List.append_eq_append_iff.mp h with ⟨as, hvs, hus⟩ | ⟨bs, hws, hrs⟩
  · cases as with
    | nil => exact ⟨by rw [hvs, List.append_nil], hus⟩
    | cons d as =>
      have hyes : isHex d = true := hv d (by rw [hvs]; simp)
      have hno : isHex d = false := hu d (by rw [hus]; rfl)
      rw [hyes] at hno
      cases hno
  · cases bs with
    | nil => exact ⟨by rw [hws, List.append_nil], hrs.symm⟩
    | cons d bs =>
      obtain rfl : c = d := (List.cons.inj hrs).1
      have hyes : isHex c = true := hw c (by rw [hws]; simp)
      rw [hyes] at hc
      cases hc

/-- **A group and a colon are read off**: pieces that begin so have that group first, and more
    behind it. -/
theorem Pieces.Good.of_text {p : Pieces} (hp : p.Good) {v r zone : Text} (hzone : IsZone zone)
    (hv : ∀ c ∈ v, isHex c = true) (hletter : ∃ c ∈ v.head?, c.isDigit = false)
    (h : p.text ++ zone = v ++ ':' :: r) :
    ∃ rest : Pieces, rest.Good ∧ rest.groups ++ rest.quad.toList ≠ [] ∧
      p = ⟨v :: rest.groups, rest.quad⟩ ∧ r = rest.text ++ zone := by
  have hz : ∀ c ∈ zone.head?, isHex c = false := by
    intro c hc
    rw [hzone.head hc]
    rfl
  obtain ⟨groups, quad⟩ := p
  match groups, quad with
  | [], none =>
    -- Only the zone is left, and it has no digit to begin with.
    obtain ⟨c, hc, -⟩ := hletter
    have hhead : zone.head? = some c := by
      have htext : zone = v ++ ':' :: r := h
      rw [htext, List.head?_append, hc]
      rfl
    have hno := hz c hhead
    rw [hv c (List.mem_of_mem_head? hc)] at hno
    cases hno
  | [], some q =>
    obtain ⟨c, hc, hletter⟩ := hletter
    have hq := hp.quad q rfl
    rw [Pieces.text_quad] at h
    obtain ⟨d, q', rfl⟩ := List.exists_cons_of_ne_nil (quad_ne_nil hq)
    have hd : d = c := by
      obtain ⟨c', v', rfl⟩ := List.exists_cons_of_ne_nil (List.ne_nil_of_mem (List.mem_of_mem_head? hc))
      obtain rfl : c' = c := Option.some.inj hc
      exact (List.cons.inj h).1
    rw [← hd, quad_head hq] at hletter
    cases hletter
  | w :: ws, quad =>
    have hw := hp.groups w List.mem_cons_self
    by_cases hmore : ws ++ quad.toList = []
    · exfalso
      obtain ⟨rfl, hquad⟩ := List.append_eq_nil_iff.mp hmore
      obtain rfl : quad = none := Option.toList_eq_nil_iff.mp hquad
      rw [Pieces.text_group] at h
      obtain ⟨-, hzr⟩ := digits_eq h hw.2.2 hv rfl hz
      have hpercent := hzone.head (c := ':') (by rw [hzr]; rfl)
      exact absurd hpercent (by decide)
    · rw [Pieces.text_cons hmore, List.append_assoc, List.cons_append] at h
      obtain ⟨rfl, hr⟩ := digits_eq h hw.2.2 hv rfl (by rintro c ⟨⟩; rfl)
      refine ⟨⟨ws, quad⟩, ⟨fun w' hw' => hp.groups w' (List.mem_cons_of_mem _ hw'), hp.quad⟩, hmore,
        rfl, ?_⟩
      exact (List.cons.inj hr).2.symm

/-! ## The first group -/

theorem hexadecimal_cons (c : Char) (w : Text) :
    hexadecimal (c :: w) = w.foldl (fun n c => 16 * n + hexDigit c) (hexDigit c) := by
  show w.foldl _ (16 * 0 + hexDigit c) = _
  rw [Nat.mul_zero, Nat.zero_add]

theorem le_fold (w : Text) (n : Nat) : n ≤ w.foldl (fun n c => 16 * n + hexDigit c) n := by
  induction w generalizing n with
  | nil => exact le_rfl
  | cons c w ih =>
    show n ≤ w.foldl _ (16 * n + hexDigit c)
    have hle := ih (16 * n + hexDigit c)
    omega

theorem hexDigit_le_hexadecimal (c : Char) (w : Text) : hexDigit c ≤ hexadecimal (c :: w) := by
  rw [hexadecimal_cons]
  exact le_fold w _

theorem hexadecimal_lt {w : Text} (h : ∀ c ∈ w, isHex c = true) :
    hexadecimal w < 16 ^ w.length := by
  have hfold : ∀ n, w.foldl (fun n c => 16 * n + hexDigit c) n < (n + 1) * 16 ^ w.length := by
    induction w with
    | nil => intro n; simp
    | cons c w ih =>
      intro n
      have hdigit := hexDigit_lt (h c List.mem_cons_self)
      have hlt := ih (fun d hd => h d (List.mem_cons_of_mem _ hd)) (16 * n + hexDigit c)
      have hle : (16 * n + hexDigit c + 1) * 16 ^ w.length ≤ (n + 1) * 16 * 16 ^ w.length := by
        apply Nat.mul_le_mul_right
        omega
      show w.foldl _ (16 * n + hexDigit c) < (n + 1) * 16 ^ (w.length + 1)
      rw [Nat.pow_succ, Nat.mul_comm (16 ^ w.length) 16, ← Nat.mul_assoc]
      exact hlt.trans_le hle
  have hlt := hfold 0
  rwa [Nat.zero_add, Nat.one_mul] at hlt

/-- A digit in lower case is the one with its value. -/
theorem digitChar_hexDigit {c : Char} (h : isHex c = true) (hlower : c.toLower = c) :
    Nat.digitChar (hexDigit c) = c :=
  of_ascii (p := fun c => isHex c = true → c.toLower = c → Nat.digitChar (hexDigit c) = c)
    (by decide) (isHex_ascii h) h hlower

theorem not_internal_of_lt {g : Nat} (h : g < 4096) : ¬ Internal g := by
  unfold Internal
  omega

/-- **Addresses in fe80::/10 and fc00::/7 are those that begin so**, with four digits. -/
theorem internal_iff {w : Text} (hw : IsGroup w) (hlower : lowered w = w) :
    Internal (hexadecimal w) ↔ ∃ b c d, w = ['f', b, c, d] ∧
      (b = 'c' ∨ b = 'd' ∨ b = 'e' ∧ c ∈ ['8', '9', 'a', 'b']) := by
  obtain ⟨-, hlen, hhex⟩ := hw
  have hsmall : ∀ k, w.length ≤ k → k ≤ 3 → ¬ Internal (hexadecimal w) := by
    intro k hk hle
    apply not_internal_of_lt
    have hpow : 16 ^ w.length ≤ 16 ^ 3 := Nat.pow_le_pow_right (by omega) (by omega)
    have hlt := hexadecimal_lt hhex
    omega
  constructor
  · intro h
    match w with
    | [] => exact absurd h (hsmall 0 (by simp) (by omega))
    | [_] => exact absurd h (hsmall 1 (by simp) (by omega))
    | [_, _] => exact absurd h (hsmall 2 (by simp) (by omega))
    | [_, _, _] => exact absurd h (hsmall 3 (by simp) (by omega))
    | [a, b, c, d] =>
      have hlow : ∀ e ∈ [a, b, c, d], e.toLower = e := by
        intro e he
        have hmap : [a.toLower, b.toLower, c.toLower, d.toLower] = [a, b, c, d] := hlower
        simp only [List.cons.injEq] at hmap
        simp only [List.mem_cons, List.not_mem_nil, or_false] at he
        rcases he with rfl | rfl | rfl | rfl
        · exact hmap.1
        · exact hmap.2.1
        · exact hmap.2.2.1
        · exact hmap.2.2.2.1
      have hdigit : ∀ e ∈ [a, b, c, d], hexDigit e < 16 := fun e he => hexDigit_lt (hhex e he)
      have hchar : ∀ e ∈ [a, b, c, d], Nat.digitChar (hexDigit e) = e :=
        fun e he => digitChar_hexDigit (hhex e he) (hlow e he)
      have ha := hdigit a (by simp)
      have hb := hdigit b (by simp)
      have hc := hdigit c (by simp)
      have hd := hdigit d (by simp)
      have hvalue : hexadecimal [a, b, c, d] =
          16 * (16 * (16 * hexDigit a + hexDigit b) + hexDigit c) + hexDigit d :=
        hexadecimal_cons a [b, c, d]
      rw [hvalue] at h
      have hfirst : hexDigit a = 15 := by
        unfold Internal at h
        omega
      have hsecond : hexDigit b = 12 ∨ hexDigit b = 13 ∨ hexDigit b = 14 ∧
          (hexDigit c = 8 ∨ hexDigit c = 9 ∨ hexDigit c = 10 ∨ hexDigit c = 11) := by
        unfold Internal at h
        omega
      rw [← hchar a (by simp), ← hchar b (by simp), ← hchar c (by simp), hfirst]
      refine ⟨_, _, d, rfl, ?_⟩
      rcases hsecond with hb' | hb' | ⟨hb', hc'⟩
      · exact .inl (by rw [hb']; rfl)
      · exact .inr (.inl (by rw [hb']; rfl))
      · refine .inr (.inr ⟨by rw [hb']; rfl, ?_⟩)
        rcases hc' with hc' | hc' | hc' | hc' <;> rw [hc'] <;> decide
    | _ :: _ :: _ :: _ :: _ :: _ =>
      simp only [List.length_cons] at hlen
      omega
  · rintro ⟨b, c, d, rfl, hbc⟩
    have hd := hexDigit_lt (hhex d (by simp))
    have hc := hexDigit_lt (hhex c (by simp))
    have hvalue : hexadecimal ['f', b, c, d] =
        16 * (16 * (16 * 15 + hexDigit b) + hexDigit c) + hexDigit d :=
      hexadecimal_cons 'f' [b, c, d]
    rw [hvalue]
    unfold Internal
    rcases hbc with rfl | rfl | ⟨rfl, hin⟩
    · have hb : hexDigit 'c' = 12 := rfl
      omega
    · have hb : hexDigit 'd' = 13 := rfl
      omega
    · have hb : hexDigit 'e' = 14 := rfl
      have hc' : 8 ≤ hexDigit c ∧ hexDigit c ≤ 11 := by
        have hall : ∀ c ∈ ['8', '9', 'a', 'b'], 8 ≤ hexDigit c ∧ hexDigit c ≤ 11 :=
          forall_mem_of_all (by decide)
        exact hall c hin
      omega

end Novamail.Core.Ip

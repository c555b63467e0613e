/-
  The guard against requests to internal hosts: `isPrivateAddr`, which decides by the spelling of an
  address.

  An IPv4 address has one spelling, and there the guard is right (`isPrivateAddr_v4`).  An IPv6
  address has many, and the guard knows `::` and `::1` in their shortest form only, mapped
  addresses only with the IPv4 address dotted, and takes a first group for a long one by how it
  begins.  `decides_iff` says for which spellings its answer is the right one.
-/
import Novamail.Core.Ip
import Novamail.Model.Message

namespace Novamail.Deliverability

open Novamail.Core Novamail.Core.Ip

/-! ## The guard -/

/-- The ranges of an IPv4 address, by its octets. -/
def privateOctets : List Nat → Bool
  | [a, b, _, _] =>
    if a = 0 ∨ a = 10 ∨ a = 127 then true
    else if a = 172 ∧ b ≥ 16 ∧ b ≤ 31 then true
    else if a = 192 ∧ b = 168 then true
    else decide (a = 169 ∧ b = 254)
  | _ => false

/-- The pattern for fe80::/10. -/
def linkLocal : Text → Bool
  | f :: e :: c :: _ => f = 'f' && e = 'e' && c ∈ ['8', '9', 'a', 'b']
  | _ => false

/-- The pattern for fc00::/7. -/
def uniqueLocal : Text → Bool
  | f :: c :: _ => f = 'f' && c ∈ ['c', 'd']
  | _ => false

def isPrivateAddr (ip : Text) : Bool :=
  match octets ip with
  | some o => privateOctets o
  | none =>
    if lowered ip = "::1".toList ∨ lowered ip = "::".toList then true
    else if linkLocal (lowered ip) then true
    else if uniqueLocal (lowered ip) then true
    else if (lowered ip).take 7 = "::ffff:".toList then isPrivateAddr ((lowered ip).drop 7)
    else false
termination_by ip.length
decreasing_by
  rename_i h
  have hlen := congrArg List.length h
  have hlow : (lowered ip).length = ip.length := List.length_map _
  rw [List.length_take] at hlen
  rw [List.length_drop]
  have hseven : "::ffff:".toList.length = 7 := rfl
  omega

/-- Either of the two patterns. -/
def internalPattern (a : Text) : Bool := linkLocal a || uniqueLocal a

/-- What the guard takes a mapped address by. -/
def mappedMark : Text := "::ffff:".toList

/-! ## IPv4 -/

theorem privateOctets_iff {a b c d : Nat} (hb : b ≤ 255) (hc : c ≤ 255) (hd : d ≤ 255) :
    privateOctets [a, b, c, d] = true ↔ Private4 (number4 [a, b, c, d]) := by
  have hsimp : privateOctets [a, b, c, d] = true ↔
      (a = 0 ∨ a = 10 ∨ a = 127) ∨ (a = 172 ∧ b ≥ 16 ∧ b ≤ 31) ∨ (a = 192 ∧ b = 168) ∨
        (a = 169 ∧ b = 254) := by
    show (if a = 0 ∨ a = 10 ∨ a = 127 then true
      else if a = 172 ∧ b ≥ 16 ∧ b ≤ 31 then true
      else if a = 192 ∧ b = 168 then true
      else decide (a = 169 ∧ b = 254)) = true ↔ _
    split_ifs with h₁ h₂ h₃
    · simp only [h₁, true_or]
    · simp [h₂]
    · simp [h₃]
    · simp only [decide_eq_true_eq, h₁, h₂, h₃, false_or]
  rw [hsimp]
  show _ ↔ Private4 (((a * 256 + b) * 256 + c) * 256 + d)
  unfold Private4
  omega

/-- **An IPv4 address is decided by its number.** -/
theorem isPrivateAddr_v4 {ip : Text} {os : List Nat} (h : octets ip = some os) :
    isPrivateAddr ip = true ↔ Private4 (number4 os) := by
  have hsome : (octets ip).isSome = true := by
    rw [h]
    rfl
  obtain ⟨a, b, c, d, heq, -, hb, hc, hd⟩ := exists_octets hsome
  obtain rfl : [a, b, c, d] = os := Option.some.inj (heq.symm.trans h)
  have hguard : isPrivateAddr ip = privateOctets [a, b, c, d] := by
    rw [isPrivateAddr, h]
  rw [hguard]
  exact privateOctets_iff hb hc hd

/-! ## IPv6 -/

theorem octets_none {ip : Text} (h : ':' ∈ ip) : octets ip = none := by
  match ho : octets ip with
  | none => rfl
  | some os =>
    exfalso
    have hsome : (octets ip).isSome = true := by
      rw [ho]
      rfl
    rcases mem_quad hsome h with hdigit | hdot
    · exact absurd hdigit (by decide)
    · exact absurd hdot (by decide)

/-- What the guard says of a text that is no IPv4 address. -/
theorem isPrivateAddr_eq {ip : Text} (h : octets ip = none) :
    isPrivateAddr ip = true ↔ lowered ip = "::1".toList ∨ lowered ip = "::".toList ∨
      internalPattern (lowered ip) = true ∨
        ((lowered ip).take 7 = mappedMark ∧ isPrivateAddr ((lowered ip).drop 7) = true) := by
  rw [isPrivateAddr, h]
  unfold internalPattern mappedMark
  generalize lowered ip = a
  generalize "::1".toList = one, "::".toList = zero, "::ffff:".toList = mark
  rw [Bool.or_eq_true]
  split_ifs <;> tauto

theorem internalPattern_append {w : Text} (hw : w ≠ []) (rest : Text) :
    internalPattern (w ++ ':' :: rest) = internalPattern w := by
  match w with
  | [a] => cases rest <;> simp [internalPattern, linkLocal, uniqueLocal]
  | [a, b] => simp [internalPattern, linkLocal, uniqueLocal]
  | a :: b :: c :: w => rfl

/-- What begins with a colon is no match. -/
theorem internalPattern_colon (rest : Text) : internalPattern (':' :: rest) = false := by
  match rest with
  | [] => rfl
  | [_] => rfl
  | _ :: _ :: _ => rfl

theorem internalPattern_iff {w : Text} (hlen : w.length = 4) :
    internalPattern w = true ↔ ∃ b c d, w = ['f', b, c, d] ∧
      (b = 'c' ∨ b = 'd' ∨ b = 'e' ∧ c ∈ ['8', '9', 'a', 'b']) := by
  match w, hlen with
  | [a, b, c, d], _ =>
    show ((decide (a = 'f') && decide (b = 'e') && decide (c ∈ ['8', '9', 'a', 'b'])) ||
      (decide (a = 'f') && decide (b ∈ ['c', 'd']))) = true ↔ _
    simp only [Bool.or_eq_true, Bool.and_eq_true, decide_eq_true_eq]
    constructor
    · rintro (⟨⟨rfl, rfl⟩, hin⟩ | ⟨rfl, hin⟩)
      · exact ⟨'e', c, d, rfl, .inr (.inr ⟨rfl, hin⟩)⟩
      · refine ⟨b, c, d, rfl, ?_⟩
        rcases List.mem_cons.mp hin with rfl | hin
        · exact .inl rfl
        · exact .inr (.inl (List.mem_singleton.mp hin))
    · rintro ⟨b', c', d', heq, h⟩
      cases heq
      rcases h with rfl | rfl | ⟨rfl, hin⟩
      · exact .inr ⟨rfl, by decide⟩
      · exact .inr ⟨rfl, by decide⟩
      · exact .inl ⟨⟨rfl, rfl⟩, hin⟩

/-- **The spellings of which the guard is right**: by the letters of the text in lower case and the
    groups it stands for. -/
structure PlainlySpelled (a : Text) (gs : List Nat) : Prop where
  /-- `::` and `::1` are in their shortest form. -/
  loopback : Local gs → a = "::".toList ∨ a = "::1".toList
  /-- A private mapped address has its IPv4 address dotted, or its high group is by chance what the
      patterns look for. -/
  mapped : MapsPrivate gs →
    ∃ r, a = mappedMark ++ r ∧ ((octets r).isSome = true ∨ internalPattern r = true)
  /-- A first group that begins like one of four digits has four digits. -/
  short : internalPattern a = true → (a.takeWhile (· ≠ ':')).length = 4
  /-- And so with what stands behind `::ffff:`. -/
  hidden : ∀ r, a = mappedMark ++ r → internalPattern r = true → MapsPrivate gs

theorem not_local_of_pos {g : Nat} {gs : List Nat} (h : gs.head? = some g) (hpos : 0 < g) :
    ¬ Local gs ∧ ¬ MapsPrivate gs := by
  constructor
  · rintro (rfl | rfl)
    · obtain rfl : 0 = g := Option.some.inj h
      omega
    · obtain rfl : 0 = g := Option.some.inj h
      omega
  · rintro ⟨hi, lo, rfl, -⟩
    obtain rfl : 0 = g := Option.some.inj h
    omega

/-- Both patterns begin with the same letter. -/
theorem internalPattern_head {c : Char} {s : Text} (h : internalPattern (c :: s) = true) :
    c = 'f' := by
  match s with
  | [] => cases h
  | [d] =>
    have h' : (decide (c = 'f') && decide (d ∈ ['c', 'd'])) = true := h
    exact of_decide_eq_true (Bool.and_eq_true_iff.mp h').1
  | d :: e :: s =>
    rcases Bool.or_eq_true_iff.mp h with h | h
    · exact of_decide_eq_true (Bool.and_eq_true_iff.mp (Bool.and_eq_true_iff.mp h).1).1
    · exact of_decide_eq_true (Bool.and_eq_true_iff.mp h).1

/-- A group that the patterns match is not zero. -/
theorem pos_of_internalPattern {w : Text} (h : internalPattern w = true) : 0 < hexadecimal w := by
  match w with
  | [] => cases h
  | c :: w =>
    obtain rfl : c = 'f' := internalPattern_head h
    have hle := hexDigit_le_hexadecimal 'f' w
    have hf : hexDigit 'f' = 15 := rfl
    omega

/-- A text that begins with a group does not begin with a colon. -/
theorem group_ne_colon {w rest s : Text} (hw : IsGroup w) : w ++ rest ≠ ':' :: s := by
  intro hs
  obtain ⟨c, w', rfl⟩ := List.exists_cons_of_ne_nil hw.1
  have hc : c = ':' := (List.cons.inj hs).1
  exact absurd (hw.2.2 c List.mem_cons_self) (by rw [hc]; decide)

/-- The guard of a text that begins with a digit goes by the patterns. -/
theorem guard_hex {ip s : Text} {c : Char} (hnone : octets ip = none)
    (heq : lowered ip = c :: s) (hc : isHex c = true) :
    isPrivateAddr ip = internalPattern (lowered ip) := by
  have hhead : ∀ t, lowered ip ≠ ':' :: t := by
    intro t ht
    obtain rfl : c = ':' := (List.cons.inj (heq.symm.trans ht)).1
    cases hc
  have hmark : (lowered ip).take 7 ≠ mappedMark := by
    intro htake
    rw [heq] at htake
    obtain rfl : c = ':' := (List.cons.inj htake).1
    cases hc
  rw [Bool.eq_iff_iff, isPrivateAddr_eq hnone]
  constructor
  · rintro (h | h | h | h)
    · exact absurd h (hhead _)
    · exact absurd h (hhead _)
    · exact h
    · exact absurd h.1 hmark
  · exact fun h => .inr (.inr (.inl h))

/-- **A spelling that begins with a group**: it is decided rightly if what matches the patterns has
    four digits, and a local or mapped address is none that is written so. -/
theorem decides_group {ip w rest : Text} {gs : List Nat} (hnone : octets ip = none)
    (heq : lowered ip = w ++ ':' :: rest) (hw : IsGroup w) (hlower : lowered w = w)
    (hgs : gs.head? = some (hexadecimal w)) :
    (isPrivateAddr ip = true ↔ Private6 gs) ↔ PlainlySpelled (lowered ip) gs := by
  have hpattern : internalPattern (lowered ip) = internalPattern w := by
    rw [heq, internalPattern_append hw.1]
  have hwidth : ((lowered ip).takeWhile (· ≠ ':')).length = w.length := by
    have hin : ∀ c ∈ w, decide (c ≠ ':') = true := by
      intro c hc
      refine decide_eq_true ?_
      rintro rfl
      exact absurd (hw.2.2 _ hc) (by decide)
    rw [heq, List.takeWhile_append_of_pos hin]
    simp
  have hcolon : ∀ s, lowered ip ≠ ':' :: s := by
    intro s hs
    exact group_ne_colon hw (heq.symm.trans hs)
  have hfour : internalPattern w = true → w.length = 4 → Internal (hexadecimal w) := by
    intro hp hlen
    exact (internal_iff hw hlower).mpr ((internalPattern_iff hlen).mp hp)
  have hinternal : Internal (hexadecimal w) → internalPattern w = true ∧ w.length = 4 := by
    intro hi
    obtain ⟨b, c, d, hwq, hbc⟩ := (internal_iff hw hlower).mp hi
    have hlen : w.length = 4 := by
      rw [hwq]
      rfl
    exact ⟨(internalPattern_iff hlen).mpr ⟨b, c, d, hwq, hbc⟩, hlen⟩
  have hprivate : Private6 gs ↔ Local gs ∨ Internal (hexadecimal w) ∨ MapsPrivate gs := by
    unfold Private6
    rw [hgs]
    simp
  have hguard : isPrivateAddr ip = internalPattern w := by
    obtain ⟨c, w', hcons⟩ := List.exists_cons_of_ne_nil hw.1
    have hc : isHex c = true := hw.2.2 c (by rw [hcons]; exact List.mem_cons_self)
    rw [guard_hex hnone (c := c) (by rw [heq, hcons]; rfl) hc, hpattern]
  rw [hguard, hprivate]
  constructor
  · intro h
    constructor
    · intro hlocal
      have hp := h.mpr (.inl hlocal)
      exact absurd hlocal (not_local_of_pos hgs (pos_of_internalPattern hp)).1
    · intro hmaps
      have hp := h.mpr (.inr (.inr hmaps))
      exact absurd hmaps (not_local_of_pos hgs (pos_of_internalPattern hp)).2
    · intro hp
      rw [hpattern] at hp
      rw [hwidth]
      obtain ⟨hlocal, hmaps⟩ := not_local_of_pos hgs (pos_of_internalPattern hp)
      rcases h.mp hp with h | h | h
      · exact absurd h hlocal
      · exact (hinternal h).2
      · exact absurd h hmaps
    · intro r hr
      exact absurd hr (hcolon _)
  · intro h
    constructor
    · intro hp
      exact .inr (.inl (hfour hp (hwidth ▸ h.short (hpattern.trans hp))))
    · rintro (hlocal | hi | hmaps)
      · rcases h.loopback hlocal with hs | hs
        · exact absurd hs (hcolon _)
        · exact absurd hs (hcolon _)
      · exact (hinternal hi).1
      · obtain ⟨r, hr, -⟩ := h.mapped hmaps
        exact absurd hr (hcolon _)

/-! ## Spellings that begin with a run of zeros -/

theorem not_maps_of_local {gs : List Nat} (h : Local gs) : ¬ MapsPrivate gs := by
  rintro ⟨hi, lo, rfl, -⟩
  rcases h with h | h
  · cases h
  · cases h

/-- The guard behind `::` looks for nothing, for a one, or for the mark of a mapped address. -/
theorem guard_run {ip t : Text} (hnone : octets ip = none) (heq : lowered ip = ':' :: ':' :: t) :
    isPrivateAddr ip = true ↔ t = [] ∨ t = ['1'] ∨
      ∃ r, t = "ffff:".toList ++ r ∧ isPrivateAddr r = true := by
  have hmark : (lowered ip).take 7 = mappedMark ↔ t.take 5 = "ffff:".toList := by
    rw [heq]
    show ':' :: ':' :: t.take 5 = ':' :: ':' :: "ffff:".toList ↔ _
    simp only [List.cons.injEq, true_and]
  have hdrop : (lowered ip).drop 7 = t.drop 5 := by
    rw [heq]
    rfl
  have hone : lowered ip = "::1".toList ↔ t = ['1'] := by
    rw [heq]
    show ':' :: ':' :: t = ':' :: ':' :: ['1'] ↔ _
    simp only [List.cons.injEq, true_and]
  have hzero : lowered ip = "::".toList ↔ t = [] := by
    rw [heq]
    show ':' :: ':' :: t = ':' :: ':' :: [] ↔ _
    simp only [List.cons.injEq, true_and]
  have hpattern : internalPattern (lowered ip) = false := by
    rw [heq]
    exact internalPattern_colon _
  rw [isPrivateAddr_eq hnone, hone, hzero, hpattern, hmark, hdrop]
  constructor
  · rintro (h | h | h | ⟨htake, h⟩)
    · exact .inr (.inl h)
    · exact .inl h
    · cases h
    · refine .inr (.inr ⟨t.drop 5, ?_, h⟩)
      rw [← htake, List.take_append_drop]
  · rintro (h | h | ⟨r, rfl, h⟩)
    · exact .inr (.inl h)
    · exact .inl h
    · exact .inr (.inr (.inr ⟨rfl, h⟩))

/-- Nothing, or a one, behind `::` is a local address. -/
theorem local_of_run {right : Pieces} {zone : Text} (hr : right.Good)
    (h : right.text ++ zone = [] ∨ right.text ++ zone = ['1']) :
    Local (List.replicate (8 - right.values.length) 0 ++ right.values) := by
  obtain ⟨groups, quad⟩ := right
  have hchars : ∀ c ∈ Pieces.text ⟨groups, quad⟩, c = '1' := by
    intro c hc
    have hin : c ∈ Pieces.text ⟨groups, quad⟩ ++ zone := List.mem_append_left _ hc
    rcases h with h | h
    · rw [h] at hin
      cases hin
    · rw [h] at hin
      exact List.mem_singleton.mp hin
  match groups, quad with
  | [], none => exact .inl rfl
  | [], some q =>
    rw [Pieces.text_quad] at hchars
    exact absurd (hchars '.' (dot_mem_quad (hr.quad q rfl))) (by decide)
  | w :: ws, quad =>
    have hw := hr.groups w List.mem_cons_self
    by_cases hmore : ws ++ quad.toList = []
    · obtain ⟨rfl, hquad⟩ := List.append_eq_nil_iff.mp hmore
      obtain rfl : quad = none := Option.toList_eq_nil_iff.mp hquad
      rw [Pieces.text_group] at h
      obtain ⟨c, w', rfl⟩ := List.exists_cons_of_ne_nil hw.1
      rcases h with h | h
      · cases h
      · obtain ⟨hc, hnil⟩ := List.cons.inj h
        obtain ⟨hw', -⟩ := List.append_eq_nil_iff.mp hnil
        rw [hc, hw']
        exact .inr rfl
    · rw [Pieces.text_cons hmore] at hchars
      exact absurd (hchars ':' (by simp)) (by decide)

/-- Groups behind zeros are those of a mapped address or of a local one, if the address is
    private. -/
theorem private_run {gs : List Nat} (h : gs.head? = some 0) :
    Private6 gs ↔ Local gs ∨ MapsPrivate gs := by
  have hzero : ¬ Internal 0 := not_internal_of_lt (by omega)
  unfold Private6
  rw [h]
  simp [hzero]

/-- The groups of a mapped address. -/
theorem maps_quad {r : Text} {os : List Nat} (h : octets r = some os) :
    MapsPrivate (List.replicate 5 0 ++ 0xffff :: Pieces.quadValues r) ↔ Private4 (number4 os) := by
  have hsome : (octets r).isSome = true := by
    rw [h]
    rfl
  obtain ⟨a, b, c, d, heq, -, -, -, -⟩ := exists_octets hsome
  obtain rfl : [a, b, c, d] = os := Option.some.inj (heq.symm.trans h)
  have hnumber : (a * 256 + b) * 2 ^ 16 + (c * 256 + d) = number4 [a, b, c, d] := by
    show _ = ((a * 256 + b) * 256 + c) * 256 + d
    omega
  rw [quadValues_eq heq, ← hnumber]
  constructor
  · rintro ⟨hi, lo, hgs, hp⟩
    cases hgs
    exact hp
  · exact fun hp => ⟨_, _, rfl, hp⟩

/-- **Behind the mark the guard is asked again**, and is right of an IPv4 address; other groups are
    decided by how the first of them begins. -/
theorem decides_mapped {r zone : Text} {rest : Pieces} {gs : List Nat} (hrest : rest.Good)
    (hne : rest.groups ++ rest.quad.toList ≠ []) (hzone : IsZone zone) (hr : r = rest.text ++ zone)
    (hlower : lowered r = r) (hlen : rest.values.length ≤ 6)
    (hgs : gs = List.replicate (7 - rest.values.length) 0 ++ 0xffff :: rest.values) :
    (isPrivateAddr r = true ↔ MapsPrivate gs) ↔
      ((MapsPrivate gs → (octets r).isSome = true ∨ internalPattern r = true) ∧
        (internalPattern r = true → MapsPrivate gs)) := by
  obtain ⟨c, s, hcons, hc⟩ := hrest.head hne
  have hfirst : r = c :: (s ++ zone) := by
    rw [hr, hcons]
    rfl
  by_cases hv4 : (octets r).isSome = true
  · -- The IPv4 address is all there is: no zone, and no group before it.
    obtain ⟨os, hos⟩ := Option.isSome_iff_exists.mp hv4
    have hmem : ∀ c ∈ r, c.isDigit = true ∨ c = '.' := fun c hc => mem_quad hv4 hc
    have hnil : zone = [] := by
      rcases hzone with hnil | ⟨cs, rfl, -⟩
      · exact hnil
      · rcases hmem '%' (by rw [hr]; simp) with h | h
        · cases h
        · exact absurd h (by decide)
    subst hnil
    rw [List.append_nil] at hr
    have hquad : rest = ⟨[], some r⟩ := by
      obtain ⟨groups, quad⟩ := rest
      match groups, quad, hne with
      | [], some q, _ =>
        rw [hr, Pieces.text_quad]
      | w :: ws, quad, _ =>
        exfalso
        by_cases hmore : ws ++ quad.toList = []
        · obtain ⟨rfl, hnone⟩ := List.append_eq_nil_iff.mp hmore
          obtain rfl : quad = none := Option.toList_eq_nil_iff.mp hnone
          rw [Pieces.text_group] at hr
          have hdot : isHex '.' = true :=
            (hrest.groups w List.mem_cons_self).2.2 '.' (hr ▸ dot_mem_quad hv4)
          cases hdot
        · rw [Pieces.text_cons hmore] at hr
          rcases hmem ':' (by rw [hr]; simp) with h | h
          · cases h
          · exact absurd h (by decide)
    have hvalues : rest.values = Pieces.quadValues r := by
      rw [hquad]
      rfl
    rw [hvalues, quadValues_length hv4] at hgs
    have hpattern : internalPattern r = false := by
      have hdigit := quad_head (hfirst ▸ hv4)
      rw [Bool.eq_false_iff]
      intro h
      rw [hfirst] at h
      rw [internalPattern_head h] at hdigit
      cases hdigit
    have hright : isPrivateAddr r = true ↔ MapsPrivate gs := by
      rw [isPrivateAddr_v4 hos, hgs]
      exact (maps_quad hos).symm
    refine iff_of_true hright ⟨fun _ => .inl hv4, ?_⟩
    intro h
    rw [hpattern] at h
    cases h
  · have hnone : octets r = none := Option.not_isSome_iff_eq_none.mp hv4
    have hguard : isPrivateAddr r = internalPattern r := by
      rw [guard_hex hnone (hlower.trans hfirst) hc, hlower]
    rw [hguard]
    constructor
    · exact fun h => ⟨fun hm => .inr (h.mpr hm), h.mp⟩
    · rintro ⟨hmaps, hhidden⟩
      exact ⟨hhidden, fun hm => (hmaps hm).resolve_left hv4⟩

/-- **A spelling that begins with `::`.** -/
theorem decides_run {ip zone : Text} {right : Pieces} (hnone : octets ip = none)
    (heq : lowered ip = ':' :: ':' :: (right.text ++ zone)) (hr : right.Good)
    (hlen : right.values.length ≤ 7) (hzone : IsZone zone) (hlower : lowered (lowered ip) = lowered ip)
    {gs : List Nat} (hgs : gs = List.replicate (8 - right.values.length) 0 ++ right.values) :
    (isPrivateAddr ip = true ↔ Private6 gs) ↔ PlainlySpelled (lowered ip) gs := by
  have hhead : gs.head? = some 0 := by
    have hpos : 8 - right.values.length = (7 - right.values.length) + 1 := by omega
    rw [hgs, hpos, List.replicate_succ]
    rfl
  have hpattern : internalPattern (lowered ip) = false := by
    rw [heq]
    exact internalPattern_colon _
  have hmark : ∀ r, lowered ip = mappedMark ++ r ↔ right.text ++ zone = "ffff:".toList ++ r := by
    intro r
    rw [heq]
    show ':' :: ':' :: (right.text ++ zone) = ':' :: ':' :: ("ffff:".toList ++ r) ↔ _
    simp only [List.cons.injEq, true_and]
  have hshort : internalPattern (lowered ip) = true →
      ((lowered ip).takeWhile (· ≠ ':')).length = 4 := by
    intro h
    rw [hpattern] at h
    cases h
  rw [guard_run hnone heq, private_run hhead]
  by_cases hends : right.text ++ zone = [] ∨ right.text ++ zone = ['1']
  · have hlocal : Local gs := by
      rw [hgs]
      exact local_of_run hr hends
    refine iff_of_true (iff_of_true (hends.imp_right .inl) (.inl hlocal)) ?_
    refine ⟨fun _ => ?_, fun h => absurd h (not_maps_of_local hlocal), hshort, ?_⟩
    · rw [heq]
      exact hends.imp (fun h => by rw [h]; rfl) (fun h => by rw [h]; rfl)
    · intro r hm
      have hlong := (hmark r).mp hm
      rcases hends with h | h
      · rw [h] at hlong
        cases hlong
      · rw [h] at hlong
        cases hlong
  · obtain ⟨hzero, hone⟩ := not_or.mp hends
    have hloop : Local gs → ¬ (lowered ip = "::".toList ∨ lowered ip = "::1".toList) := by
      rintro - (h | h)
      · rw [heq] at h
        exact hzero (List.cons.inj (List.cons.inj h).2).2
      · rw [heq] at h
        exact hone (List.cons.inj (List.cons.inj h).2).2
    by_cases hmapped : ∃ r, right.text ++ zone = "ffff:".toList ++ r
    · obtain ⟨r, hr'⟩ := hmapped
      have hread : right.text ++ zone = "ffff".toList ++ ':' :: r := hr'
      have hffff : ∀ c ∈ "ffff".toList, isHex c = true := forall_mem_of_all (by decide)
      obtain ⟨rest, hrest, hne, hright, hrt⟩ := hr.of_text hzone hffff ⟨'f', rfl, rfl⟩ hread
      have hvalues : right.values = 0xffff :: rest.values := by
        rw [hright]
        rfl
      have hcount : right.values.length = rest.values.length + 1 := by
        rw [hvalues]
        rfl
      have hnlocal : ¬ Local gs := by
        intro h
        have hin : 0xffff ∈ gs := by
          rw [hgs, hvalues]
          simp
        rcases h with rfl | rfl
        · simp at hin
        · simp at hin
      have hgs' : gs = List.replicate (7 - rest.values.length) 0 ++ 0xffff :: rest.values := by
        have hzeros : 8 - right.values.length = 7 - rest.values.length := by omega
        rw [hgs, hzeros, hvalues]
      have hrlower : lowered r = r := by
        have htext : lowered ip = mappedMark ++ r := (hmark r).mpr hr'
        rw [htext, lowered_append] at hlower
        exact List.append_cancel_left hlower
      have hasked : (right.text ++ zone = [] ∨ right.text ++ zone = ['1'] ∨
          ∃ r, right.text ++ zone = "ffff:".toList ++ r ∧ isPrivateAddr r = true) ↔
            isPrivateAddr r = true := by
        constructor
        · rintro (h | h | ⟨r', h, hp⟩)
          · exact absurd h hzero
          · exact absurd h hone
          · obtain rfl : r = r' := List.append_cancel_left (hr'.symm.trans h)
            exact hp
        · exact fun hp => .inr (.inr ⟨r, hr', hp⟩)
      have hdecides := decides_mapped hrest hne hzone hrt hrlower (by omega) hgs'
      rw [hasked, or_iff_right hnlocal, hdecides]
      constructor
      · rintro ⟨hmaps, hhidden⟩
        refine ⟨fun h => absurd h hnlocal, fun h => ⟨r, (hmark r).mpr hr', hmaps h⟩, hshort, ?_⟩
        intro r' hm hp
        obtain rfl : r = r' := List.append_cancel_left (hr'.symm.trans ((hmark r').mp hm))
        exact hhidden hp
      · intro h
        refine ⟨?_, h.hidden r ((hmark r).mpr hr')⟩
        intro hmaps
        obtain ⟨r', hm, hspelled⟩ := h.mapped hmaps
        obtain rfl : r = r' := List.append_cancel_left (hr'.symm.trans ((hmark r').mp hm))
        exact hspelled
    · -- The guard finds nothing here.
      have hasked : ¬ (right.text ++ zone = [] ∨ right.text ++ zone = ['1'] ∨
          ∃ r, right.text ++ zone = "ffff:".toList ++ r ∧ isPrivateAddr r = true) := by
        rintro (h | h | ⟨r, h, -⟩)
        · exact hzero h
        · exact hone h
        · exact hmapped ⟨r, h⟩
      rw [iff_false_left hasked]
      constructor
      · intro h
        obtain ⟨hnlocal, hnmaps⟩ := not_or.mp h
        refine ⟨fun hl => absurd hl hnlocal, fun hm => absurd hm hnmaps, hshort, ?_⟩
        intro r hm
        exact absurd ⟨r, (hmark r).mp hm⟩ hmapped
      · rintro h (hl | hm)
        · exact hloop hl (h.loopback hl)
        · obtain ⟨r, hm', -⟩ := h.mapped hm
          exact hmapped ⟨r, (hmark r).mp hm'⟩

/-! ## The guard as a whole -/

/-- An address that is spelled as the guard expects it. -/
def SpelledForGuard (ip : Text) : Address → Prop
  | .v4 _ => True
  | .v6 gs => PlainlySpelled (lowered ip) gs

theorem lowered_lowered (s : Text) : lowered (lowered s) = lowered s := by
  unfold lowered
  rw [List.map_map]
  exact List.map_congr_left fun c _ => toLower_toLower c

theorem decides_v6 {ip : Text} {gs : List Nat} (h : Spells6 ip gs) :
    (isPrivateAddr ip = true ↔ Private6 gs) ↔ PlainlySpelled (lowered ip) gs := by
  have hnone : octets ip = none := by
    obtain ⟨body, zone, rfl, hbody, -⟩ := h
    apply octets_none
    rcases hbody.begins with ⟨w, rest, rfl, -⟩ | ⟨right, -, -, rfl, -⟩
    · simp
    · simp
  obtain ⟨body, zone, heq, hbody, hzone⟩ := h.lowered
  rcases hbody.begins with ⟨w, rest, rfl, hw, hgs⟩ | ⟨right, hr, hlen, rfl, hgs⟩
  · rw [List.append_assoc, List.cons_append] at heq
    have hlower : lowered w = w := by
      have hall := lowered_lowered ip
      rw [heq, lowered_append] at hall
      exact (List.append_inj hall (List.length_map _)).1
    exact decides_group hnone heq hw hlower hgs
  · exact decides_run hnone heq hr hlen hzone (lowered_lowered ip) hgs

/-- **The guard decides by the address exactly when the address is spelled as it expects**: an IPv4
    address always, an IPv6 address in the spellings of `PlainlySpelled`. -/
theorem isPrivateAddr_decides_iff {ip : Text} {addr : Address} (h : Spells ip addr) :
    (isPrivateAddr ip = true ↔ addr.Private) ↔ SpelledForGuard ip addr := by
  cases addr with
  | v4 os => exact iff_of_true (isPrivateAddr_v4 h) trivial
  | v6 gs => exact decides_v6 h

theorem spells_mapped :
    Spells6 "::ffff:7f00:1".toList [0, 0, 0, 0, 0, 0xffff, 0x7f00, 1] := by
  have h := @spells_short [] ["ffff".toList, "7f00".toList, "1".toList]
    (by decide) (by decide) (by decide)
  have htext : [':'].intercalate [] ++ ':' :: ':' ::
      [':'].intercalate ["ffff".toList, "7f00".toList, "1".toList] = "::ffff:7f00:1".toList := by
    simp
  rw [htext] at h
  exact h

theorem spells_fc : Spells6 "fc::1".toList [0xfc, 0, 0, 0, 0, 0, 0, 1] := by
  have h := @spells_short ["fc".toList] ["1".toList] (by decide) (by decide)
    (by decide)
  have htext : [':'].intercalate ["fc".toList] ++ ':' :: ':' :: [':'].intercalate ["1".toList] =
      "fc::1".toList := by
    simp
  rw [htext] at h
  exact h

theorem spells_fd : Spells6 "fd00::1".toList [0xfd00, 0, 0, 0, 0, 0, 0, 1] := by
  have h := @spells_short ["fd00".toList] ["1".toList] (by decide) (by decide)
    (by decide)
  have htext : [':'].intercalate ["fd00".toList] ++ ':' :: ':' :: [':'].intercalate ["1".toList] =
      "fd00::1".toList := by
    simp
  rw [htext] at h
  exact h

/-- The loopback address `127.0.0.1`, mapped. -/
def mappedLoopback : Address := .v6 [0, 0, 0, 0, 0, 0xffff, 0x7f00, 1]

theorem private_mappedLoopback : mappedLoopback.Private :=
  .inr (.inr ⟨0x7f00, 1, rfl, .inr (.inr (.inl (by decide)))⟩)

/-- Its spelling with hexadecimal groups passes the guard. -/
theorem guard_passes_mapped : isPrivateAddr "::ffff:7f00:1".toList = false := by
  have hgroups : isPrivateAddr "7f00:1".toList = false := by
    have hnone : octets "7f00:1".toList = none := octets_none (by decide +kernel)
    have hdigits : lowered "7f00:1".toList = '7' :: "f00:1".toList := by decide
    rw [guard_hex hnone hdigits (by decide)]
    decide +kernel
  have hnone : octets "::ffff:7f00:1".toList = none := octets_none (by simp)
  have hrun : lowered "::ffff:7f00:1".toList = ':' :: ':' :: "ffff:7f00:1".toList := by
    decide
  rw [Bool.eq_false_iff, Ne, guard_run hnone hrun]
  rintro (h | h | ⟨r, h, hr⟩)
  · exact absurd h (by simp)
  · exact absurd h (by simp)
  · have hsplit : "ffff:7f00:1".toList = "ffff:".toList ++ "7f00:1".toList := by simp
    have hrest : "7f00:1".toList = r := List.append_cancel_left (hsplit.symm.trans h)
    rw [← hrest, hgroups] at hr
    cases hr

/-- The guard stops what begins with a group of four digits that looks internal. -/
theorem guard_stops_fd : isPrivateAddr "fd00::1".toList = true := by
  have hnone : octets "fd00::1".toList = none := octets_none (by decide +kernel)
  have hdigits : lowered "fd00::1".toList = 'f' :: "d00::1".toList := by decide
  rw [guard_hex hnone hdigits (by decide)]
  decide +kernel

/-- A unique local address is decided right in the spelling `fd00::1`; the mapped loopback address
    is not in the spelling `::ffff:7f00:1`, which is none that the guard expects. -/
theorem private_decides_test :
    SpelledForGuard "fd00::1".toList (.v6 [0xfd00, 0, 0, 0, 0, 0, 0, 1]) ∧
      ¬ SpelledForGuard "::ffff:7f00:1".toList mappedLoopback := by
  constructor
  · have hspelled : Spells "fd00::1".toList (.v6 [0xfd00, 0, 0, 0, 0, 0, 0, 1]) := spells_fd
    have hfd := isPrivateAddr_decides_iff hspelled
    have hprivate : (Address.v6 [0xfd00, 0, 0, 0, 0, 0, 0, 1]).Private :=
      .inr (.inl ⟨0xfd00, rfl, .inr (by decide)⟩)
    exact hfd.mp (iff_of_true guard_stops_fd hprivate)
  · intro hspelled
    have hspells : Spells "::ffff:7f00:1".toList mappedLoopback := spells_mapped
    have hdecides := (isPrivateAddr_decides_iff hspells).mpr hspelled
    have hguard := hdecides.mpr private_mappedLoopback
    rw [guard_passes_mapped] at hguard
    cases hguard

/-- The guard goes by the spelling: it lets a mapped loopback address with hexadecimal groups
    through, and stops an address that begins with `fc` and is no unique local one. -/
theorem guard_by_spelling :
    (Spells "::ffff:7f00:1".toList (.v6 [0, 0, 0, 0, 0, 0xffff, 0x7f00, 1]) ∧
      isPrivateAddr "::ffff:7f00:1".toList = false ∧
      (Address.v6 [0, 0, 0, 0, 0, 0xffff, 0x7f00, 1]).Private) ∧
    (Spells "fc::1".toList (.v6 [0xfc, 0, 0, 0, 0, 0, 0, 1]) ∧
      isPrivateAddr "fc::1".toList = true ∧
      ¬ (Address.v6 [0xfc, 0, 0, 0, 0, 0, 0, 1]).Private) := by
  refine ⟨⟨spells_mapped, ?_, ?_⟩, ⟨spells_fc, ?_, ?_⟩⟩
  · exact guard_passes_mapped
  · exact private_mappedLoopback
  · have hnone : octets "fc::1".toList = none := octets_none (by decide +kernel)
    have hdigits : lowered "fc::1".toList = 'f' :: "c::1".toList := by decide
    rw [guard_hex hnone hdigits (by decide)]
    decide +kernel
  · have hpublic : ¬ Internal 0xfc := not_internal_of_lt (by decide)
    rintro (h | ⟨g, hg, h⟩ | ⟨hi, lo, h, -⟩)
    · rcases h with h | h
      · cases h
      · cases h
    · obtain rfl : 0xfc = g := Option.some.inj hg
      exact hpublic h
    · cases h

end Novamail.Deliverability

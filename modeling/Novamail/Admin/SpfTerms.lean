/-
  The terms of an SPF record, and what the grade ok says of them.

  `gradeSpf` reads a record in three ways: a pattern for its version, the set of its terms, and a
  pattern for an `all` anywhere in the text.  Here all three are brought down to the words of the
  record.  None of them looks at the order of the terms, and neither pattern asks for a whole term.
-/
import Novamail.Admin.Spf
import Novamail.Core.CheckHost

namespace Novamail.Deliverability

open Novamail.Core

/-! ## White space -/

/-- White space is below the visible ASCII characters, or above them. -/
theorem toNat_space {c : Char} (h : isSpace c = true) : c.toNat ≤ 32 ∨ 160 ≤ c.toNat := by
  have hlist : ∀ c ∈ ['\t', '\n', '\x0b', '\x0c', '\r', ' ', '\u00a0', '\u1680', '\u2028',
      '\u2029', '\u202f', '\u205f', '\u3000', '\ufeff'], c.toNat ≤ 32 ∨ 160 ≤ c.toNat :=
    forall_mem_of_all (by simp)
  unfold isSpace at h
  rcases Bool.or_eq_true_iff.mp h with h | h
  · exact hlist c (of_decide_eq_true h)
  · have hlow : ('\u2000' : Char).toNat ≤ c.toNat :=
      UInt32.le_iff_toNat_le.mp (of_decide_eq_true (Bool.and_eq_true_iff.mp h).1)
    have hvalue : ('\u2000' : Char).toNat = 8192 := by decide
    omega

theorem toLower_space {c : Char} (h : isSpace c = true) : c.toLower = c := by
  have hcode := toNat_space h
  unfold Char.toLower
  refine dif_neg ?_
  rintro ⟨hlow, hhigh⟩
  have hlow' : 65 ≤ c.toNat := UInt32.le_iff_toNat_le.mp hlow
  have hhigh' : c.toNat ≤ 90 := UInt32.le_iff_toNat_le.mp hhigh
  omega

theorem isWord_space {c : Char} (h : isSpace c = true) : isWord c = false := by
  have hcode := toNat_space h
  rw [Bool.eq_false_iff]
  intro hword
  delta isWord Char.isAlphanum Char.isAlpha Char.isUpper Char.isLower Char.isDigit at hword
  simp only [Bool.or_eq_true, Bool.and_eq_true, decide_eq_true_eq, ge_iff_le, UInt32.le_iff_toNat_le] at hword
  rcases hword with ((⟨hlow, hhigh⟩ | ⟨hlow, hhigh⟩) | ⟨hlow, hhigh⟩) | rfl
  · have hlow' : 65 ≤ c.toNat := hlow
    have hhigh' : c.toNat ≤ 90 := hhigh
    omega
  · have hlow' : 97 ≤ c.toNat := hlow
    have hhigh' : c.toNat ≤ 122 := hhigh
    omega
  · have hlow' : 48 ≤ c.toNat := hlow
    have hhigh' : c.toNat ≤ 57 := hhigh
    omega
  · revert hcode
    decide

/-! ## Trimming and splitting -/

theorem rdropWhile_append_word {α : Type} {p : α → Bool} {w : List α}
    (hw : ∀ c ∈ w, p c = false) (t : List α) :
    (w ++ t).rdropWhile p = w ++ t.rdropWhile p := by
  have hstay : w.reverse.dropWhile p = w.reverse := by
    refine List.dropWhile_eq_self_iff.mpr ?_
    intro hl
    rw [hw _ (List.mem_reverse.mp (List.getElem_mem hl))]
    exact Bool.false_ne_true
  unfold List.rdropWhile
  rw [List.reverse_append, List.dropWhile_append, hstay]
  cases hrest : t.reverse.dropWhile p with
  | nil => simp
  | cons c cs => simp

/-- A text with a word in it, when it is trimmed, begins with its first word. -/
theorem trim_word {gap w t : List Char} (hgap : ∀ c ∈ gap, isSpace c = true) (hne : w ≠ [])
    (hw : ∀ c ∈ w, isSpace c = false) :
    trim (gap ++ w ++ t) = w ++ t.rdropWhile isSpace := by
  have hfront : (gap ++ w ++ t).dropWhile isSpace = w ++ t := by
    rw [List.append_assoc, List.dropWhile_append_of_pos hgap]
    cases w with
    | nil => exact absurd rfl hne
    | cons c w => exact List.dropWhile_cons_of_neg (by rw [hw c List.mem_cons_self]; simp)
  unfold trim
  rw [hfront, rdropWhile_append_word hw]

/-- Trimming leaves the words. -/
theorem words_rdropWhile (t : List Char) :
    words isSpace (t.rdropWhile isSpace) = words isSpace t := by
  induction t using List.reverseRecOn with
  | nil => rfl
  | append_singleton t c ih =>
    by_cases hc : isSpace c = true
    · rw [List.rdropWhile_concat_pos _ _ _ hc, ih, words_concat_sep t hc]
    · rw [List.rdropWhile_concat_neg _ _ _ hc]

/-- What follows a word in a text that was trimmed begins with a space and does not end with one. -/
theorem head_rdropWhile {t : List Char} (ht : ∀ c ∈ t.head?, isSpace c = true) :
    ∀ c ∈ (t.rdropWhile isSpace).head?, isSpace c = true := by
  intro c hc
  obtain ⟨back, hback⟩ := t.rdropWhile_prefix isSpace
  obtain ⟨cs, hcs⟩ := List.head?_eq_some_iff.mp (Option.mem_def.mp hc)
  refine ht c ?_
  rw [← hback, hcs]
  rfl

/-- Splitting at runs of spaces gives the words, behind an empty piece if a space comes first. -/
theorem splitSpaces_eq {s : List Char} (hne : s ≠ [])
    (hlast : ∀ c ∈ s.getLast?, isSpace c = false) :
    splitSpaces s = (if s.head?.any isSpace then [[]] else []) ++ words isSpace s := by
  induction s with
  | nil => exact absurd rfl hne
  | cons c cs ih =>
    cases hcs : cs with
    | nil =>
      have hc : isSpace c = false := by
        refine hlast c ?_
        rw [hcs]
        rfl
      have hword : words isSpace [c] = [[c]] :=
        words_self (List.cons_ne_nil _ _) (List.forall_mem_singleton.mpr hc)
      rw [hword]
      simp [splitSpaces, hc]
    | cons d ds =>
      have hrest := ih (by rw [hcs]; exact List.cons_ne_nil _ _) (by
        intro x hx
        refine hlast x ?_
        rw [hcs] at hx ⊢
        rw [List.getLast?_cons_cons]
        exact hx)
      rw [← hcs]
      unfold splitSpaces
      cases hc : isSpace c with
      | true =>
        rw [if_pos rfl, words_cons_sep cs hc]
        cases hd : cs.head?.any isSpace with
        | true =>
          rw [hd, if_pos rfl] at hrest
          rw [if_pos rfl, hrest]
          simp [hc]
        | false =>
          rw [hd, if_neg Bool.false_ne_true] at hrest
          rw [if_neg Bool.false_ne_true, hrest]
          simp [hc]
      | false =>
        rw [if_neg Bool.false_ne_true]
        have hhead : (c :: cs).head?.any isSpace = false := hc
        rw [hhead, if_neg Bool.false_ne_true, List.nil_append]
        rw [hcs, List.head?_cons, Option.any_some, ← hcs] at hrest
        cases hd : isSpace d with
        | true =>
          rw [hd, if_pos rfl] at hrest
          have hcut : words isSpace (c :: cs) = [c] :: words isSpace cs := by
            refine words_cons_word (w := [c]) (List.cons_ne_nil _ _)
              (List.forall_mem_singleton.mpr hc) cs ?_
            intro x hx
            rw [hcs] at hx
            cases hx
            exact hd
          rw [hrest, hcut]
          rfl
        | false =>
          rw [hd, if_neg Bool.false_ne_true, List.nil_append] at hrest
          obtain ⟨w, ws, hold, hnew⟩ := words_cons_inside hc hd ds
          rw [← hcs] at hold hnew
          rw [hrest, hold, hnew]

/-- The terms of a record that is not blank are its words. -/
theorem splitSpaces_trim {s : List Char} (hne : words isSpace s ≠ []) :
    splitSpaces (trim s) = words isSpace s := by
  rcases exists_first_word (p := isSpace) s with hblank | ⟨gap, w, t, rfl, hgap, hw, hin, ht⟩
  · have hnone := words_gap hblank []
    rw [List.append_nil] at hnone
    exact absurd hnone hne
  · have hend : (w ++ t).rdropWhile isSpace = w ++ t.rdropWhile isSpace :=
      rdropWhile_append_word hin t
    have hfirst : (w ++ t.rdropWhile isSpace).head?.any isSpace = false := by
      cases w with
      | nil => exact absurd rfl hw
      | cons c w => exact hin c List.mem_cons_self
    have hsome : w ++ t.rdropWhile isSpace ≠ [] := List.append_ne_nil_of_left_ne_nil hw _
    rw [trim_word hgap hw hin, splitSpaces_eq hsome, hfirst, if_neg Bool.false_ne_true,
      List.nil_append, words_cons_word hw hin _ (head_rdropWhile ht), words_rdropWhile,
      List.append_assoc, words_gap hgap, words_cons_word hw hin t ht]
    intro c hc
    rw [← hend] at hc hsome
    have hnot := List.rdropWhile_last_not isSpace (w ++ t) hsome
    rw [Option.mem_def, List.getLast?_eq_some_getLast hsome] at hc
    cases hc
    simpa using hnot

theorem terms_eq {s : String} (hne : words isSpace s.toList ≠ []) :
    terms s = (words isSpace s.toList).map String.ofList := by
  unfold terms
  rw [splitSpaces_trim hne]

/-! ## The patterns -/

theorem after_cons (x c : Char) (text s : List Char) :
    after (x :: text) (c :: s) = if x = c.toLower then after text s else none := by
  unfold after
  by_cases h : x = c.toLower
  · rw [if_pos h]
    simp [h]
  · rw [if_neg h]
    simp [List.isPrefixOf, h]

/-- A pattern without spaces, with a word boundary behind it, does not see beyond a space. -/
theorem after_word {text t : List Char} (htext : ∀ x ∈ text, isSpace x = false)
    (ht : ∀ c ∈ t.head?, isSpace c = true) (w : List Char) :
    (after text (w ++ t)).any boundary = (after text w).any boundary := by
  induction text generalizing w with
  | nil =>
    show boundary (w ++ t) = boundary w
    cases w with
    | cons c w => rfl
    | nil =>
      cases t with
      | nil => rfl
      | cons c t =>
        have hc : isWord c = false := isWord_space (ht c rfl)
        simp [boundary, hc]
  | cons x text ih =>
    obtain ⟨hx, htext'⟩ := List.forall_mem_cons.mp htext
    cases w with
    | cons c w =>
      rw [List.cons_append, after_cons, after_cons]
      by_cases h : x = c.toLower
      · rw [if_pos h, if_pos h, ih htext' w]
      · rw [if_neg h, if_neg h]
    | nil =>
      cases t with
      | nil => rfl
      | cons c t =>
        have hc : isSpace c = true := ht c rfl
        have hdiff : x ≠ c.toLower := by
          rw [toLower_space hc]
          rintro rfl
          rw [hx] at hc
          cases hc
        rw [List.nil_append, after_cons, if_neg hdiff]
        rfl

theorem version_word : ∀ x ∈ "v=spf1".toList, isSpace x = false :=
  forall_mem_of_all (by decide)

theorem all_word : ∀ x ∈ "all".toList, isSpace x = false := forall_mem_of_all (by decide)

/-- The version pattern looks at the first word. -/
theorem isSpf_eq (r : String) : isSpf r =
    (words isSpace r.toList).head?.any fun w => (after "v=spf1".toList w).any boundary := by
  unfold isSpf
  rcases exists_first_word (p := isSpace) r.toList with hblank | ⟨gap, w, t, hs, hgap, hw, hin, ht⟩
  · have hnone := words_gap hblank []
    rw [List.append_nil] at hnone
    have htrim : trim r.toList = [] := by
      unfold trim
      rw [List.dropWhile_eq_nil_iff.mpr hblank]
      rfl
    rw [hnone, words_nil, htrim]
    decide
  · rw [hs, trim_word hgap hw hin, after_word version_word (head_rdropWhile ht),
      List.append_assoc, words_gap hgap, words_cons_word hw hin t ht]
    rfl

/-- The pattern for an `all` looks at the words one by one. -/
theorem hasAll_append {t : List Char} (ht : ∀ c ∈ t.head?, isSpace c = true) (w : List Char) :
    hasAll (w ++ t) = (hasAll w || hasAll t) := by
  induction w with
  | nil => rfl
  | cons c w ih =>
    show (isQualifier c && (after "all".toList (w ++ t)).any boundary || hasAll (w ++ t)) = _
    rw [after_word all_word ht, ih]
    show _ = ((isQualifier c && (after "all".toList w).any boundary || hasAll w) || hasAll t)
    rw [Bool.or_assoc]

theorem isQualifier_space {c : Char} (h : isSpace c = true) : isQualifier c = false := by
  rw [Bool.eq_false_iff]
  intro hq
  have hlist : ∀ d ∈ ['-', '~', '?', '+'], isSpace d = false :=
    forall_mem_of_all (by decide)
  rw [hlist c (of_decide_eq_true hq)] at h
  cases h

theorem hasAll_gap {gap : List Char} (hgap : ∀ c ∈ gap, isSpace c = true) (t : List Char) :
    hasAll (gap ++ t) = hasAll t := by
  induction gap with
  | nil => rfl
  | cons c gap ih =>
    obtain ⟨hc, hrest⟩ := List.forall_mem_cons.mp hgap
    show (isQualifier c && _ || hasAll (gap ++ t)) = _
    rw [isQualifier_space hc, Bool.false_and, Bool.false_or, ih hrest]

theorem hasAll_words (s : List Char) : hasAll s = (words isSpace s).any hasAll := by
  induction hn : s.length using Nat.strong_induction_on generalizing s with
  | _ n ih =>
    rcases exists_first_word (p := isSpace) s with hblank | ⟨gap, w, t, rfl, hgap, hw, hin, ht⟩
    · have hnone := words_gap hblank []
      have hall := hasAll_gap hblank []
      rw [List.append_nil] at hnone hall
      rw [hall, hnone]
      rfl
    · have hlt : t.length < n := by
        have hpos : 0 < w.length := List.length_pos_iff.mpr hw
        rw [← hn, List.length_append, List.length_append]
        omega
      rw [List.append_assoc, hasAll_gap hgap, hasAll_append ht, words_gap hgap,
        words_cons_word hw hin t ht, List.any_cons, ih t.length hlt t rfl]

/-! ## What ok says -/

/-- A character of the version is no space. -/
theorem version_isWord {v : List Char} (hv : CheckHost.lowered v = "v=spf1".toList) :
    ∀ c ∈ v, isSpace c = false := by
  intro c hc
  rw [Bool.eq_false_iff]
  intro hspace
  have hmem : c ∈ "v=spf1".toList := by
    rw [← hv, ← toLower_space hspace]
    exact List.mem_map_of_mem hc
  rw [version_word c hmem] at hspace
  cases hspace

/-- A record by the version of RFC 7208 is one by the pattern. -/
theorem isSpf_of_isRecord {r : String} (h : CheckHost.isRecord r.toList = true) :
    isSpf r = true := by
  obtain ⟨v, hv⟩ : ∃ v, v = r.toList.takeWhile (· ≠ ' ') := ⟨_, rfl⟩
  have hversion : CheckHost.lowered v = "v=spf1".toList := hv ▸ of_decide_eq_true h
  have hne : v ≠ [] := by
    rintro rfl
    exact absurd hversion (by decide)
  have hin := version_isWord hversion
  have hrest : ∀ c ∈ (r.toList.dropWhile (· ≠ ' ')).head?, isSpace c = true := by
    intro c hc
    have hstop := List.head?_dropWhile_not (· ≠ ' ') r.toList
    rw [Option.mem_def.mp hc] at hstop
    have hspace : c = ' ' := by simpa using hstop
    rw [hspace]
    decide
  have hlength : v.length = 6 := by
    have hmapped := congrArg List.length hversion
    rw [CheckHost.lowered, List.length_map] at hmapped
    exact hmapped.trans (by simp)
  rw [isSpf_eq, ← List.takeWhile_append_dropWhile (p := (· ≠ ' ')) (l := r.toList), ← hv,
    words_cons_word hne hin _ hrest]
  show (after "v=spf1".toList v).any boundary = true
  unfold after
  have hprefix : "v=spf1".toList.isPrefixOf (v.map Char.toLower) = true := by
    show "v=spf1".toList.isPrefixOf (CheckHost.lowered v) = true
    rw [hversion]
    simp
  rw [if_pos hprefix]
  show boundary (v.drop 6) = true
  rw [List.drop_eq_nil_of_le (le_of_eq hlength)]
  rfl

/-- The terms in front of the first `all`. -/
def front (spf : String) : List String := (terms spf).takeWhile (!isAll ·)

/-- The terms from the first `all` on. -/
def back (spf : String) : List String := (terms spf).dropWhile (!isAll ·)

/-- The record has an `all`, and every required mechanism in front of it. -/
def Authorizes (spf : String) (required : List String) : Prop :=
  (∃ t ∈ terms spf, isAll t = true) ∧ ∀ inc ∈ required, lower inc ∈ (front spf).map lower

/-- One of the records is an SPF record, and it authorizes what is required. -/
def Sound (txts required : List String) : Prop :=
  ∃ spf, txts.filter (fun r => CheckHost.isRecord r.toList) = [spf] ∧ Authorizes spf required

/-- The mechanism stands behind the first `all`, and not in front of it as well. -/
def Late (spf inc : String) : Prop :=
  lower inc ∉ (front spf).map lower ∧ lower inc ∈ (back spf).map lower

/-! ## What the checks ask of the terms -/

/-- The text begins with these letters, in whatever case, and a word ends behind them. -/
def Begins (letters s : List Char) : Prop :=
  ∃ v rest, s = v ++ rest ∧ CheckHost.lowered v = letters ∧ ∀ c ∈ rest.head?, isWord c = false

/-- The first term of the record is the version, or begins with it. -/
def Opens (r : String) : Prop := ∃ w ∈ (words isSpace r.toList).head?, Begins "v=spf1".toList w

/-- The term is an `all` with a qualifier, or has one in it. -/
def ResemblesAll (t : String) : Prop :=
  ∃ front q rest, t.toList = front ++ q :: rest ∧ isQualifier q = true ∧ Begins "all".toList rest

/-- Exactly one of the records opens so. -/
def Lone (txts : List String) (spf : String) : Prop :=
  Opens spf ∧ ∃ before behind, txts = before ++ spf :: behind ∧ ∀ r ∈ before ++ behind, ¬ Opens r

/-- **The condition.**  No record or several open like an SPF record; or the terms of the only one
    lack a required mechanism, or have nothing that resembles an `all`; or that record has the
    version by itself in front, has an `all` that is a term, and has no required mechanism that
    stands behind the first `all` only. -/
def InOrder (txts required : List String) : Prop :=
  (¬ ∃ spf, Lone txts spf) ∨ ∃ spf, Lone txts spf ∧
    ((∃ inc ∈ required, ∀ t ∈ terms spf, lower t ≠ lower inc) ∨
      (∀ t ∈ terms spf, ¬ ResemblesAll t) ∨
      (CheckHost.isRecord spf.toList = true ∧ (∃ t ∈ terms spf, isAll t = true) ∧
        ∀ inc ∈ required, ¬ Late spf inc))

theorem after_any_boundary {letters s : List Char} :
    (after letters s).any boundary = true ↔ Begins letters s := by
  unfold after
  constructor
  · intro h
    split at h
    · rename_i hpre
      obtain ⟨rest, hrest⟩ := List.isPrefixOf_iff_prefix.mp hpre
      have hlen : letters.length ≤ s.length := by
        have hsize := congrArg List.length hrest
        rw [List.length_append, List.length_map] at hsize
        omega
      refine ⟨s.take letters.length, s.drop letters.length, (List.take_append_drop _ _).symm, ?_, ?_⟩
      · rw [CheckHost.lowered, List.map_take, ← hrest, List.take_left]
      · intro c hc
        have hb : boundary (s.drop letters.length) = true := h
        unfold boundary at hb
        rw [Option.mem_def.mp hc] at hb
        simpa using hb
    · cases h
  · rintro ⟨v, rest, rfl, rfl, hend⟩
    have hlow : CheckHost.lowered v = v.map Char.toLower := rfl
    rw [hlow, List.map_append, if_pos (List.isPrefixOf_iff_prefix.mpr (List.prefix_append _ _)),
      List.length_map, List.drop_left]
    show boundary rest = true
    unfold boundary
    cases hhead : rest.head? with
    | none => rfl
    | some c =>
      rw [hhead] at hend
      rw [Option.any_some, hend c rfl]
      rfl

theorem isSpf_iff {r : String} : isSpf r = true ↔ Opens r := by
  rw [isSpf_eq]
  unfold Opens
  cases (words isSpace r.toList).head? with
  | none =>
    refine iff_of_false Bool.false_ne_true ?_
    rintro ⟨w, hw, -⟩
    cases hw
  | some w =>
    rw [Option.any_some, after_any_boundary]
    constructor
    · exact fun h => ⟨w, rfl, h⟩
    · rintro ⟨w', hw, hb⟩
      cases hw
      exact hb

/-- The pattern for an `all` finds it anywhere in a word. -/
theorem hasAll_iff {s : List Char} : hasAll s = true ↔
    ∃ front q rest, s = front ++ q :: rest ∧ isQualifier q = true ∧ Begins "all".toList rest := by
  induction s with
  | nil =>
    refine iff_of_false Bool.false_ne_true ?_
    rintro ⟨front, q, rest, hs, -⟩
    cases front <;> cases hs
  | cons c cs ih =>
    show (isQualifier c && (after "all".toList cs).any boundary || hasAll cs) = true ↔ _
    rw [Bool.or_eq_true, Bool.and_eq_true, after_any_boundary, ih]
    constructor
    · rintro (⟨hq, hall⟩ | ⟨front, q, rest, rfl, hq, hall⟩)
      · exact ⟨[], c, cs, rfl, hq, hall⟩
      · exact ⟨c :: front, q, rest, rfl, hq, hall⟩
    · rintro ⟨front, q, rest, hs, hq, hall⟩
      cases front with
      | nil =>
        cases hs
        exact .inl ⟨hq, hall⟩
      | cons d front =>
        cases hs
        exact .inr ⟨front, q, rest, rfl, hq, hall⟩

/-- A record that opens like one has an `all` by the pattern iff one of its terms resembles one. -/
theorem hasAll_iff_resembles {r : String} (h : Opens r) :
    hasAll r.toList = true ↔ ∃ t ∈ terms r, ResemblesAll t := by
  have hne : words isSpace r.toList ≠ [] := by
    intro hnil
    obtain ⟨w, hw, -⟩ := h
    rw [hnil] at hw
    cases hw
  rw [hasAll_words, List.any_eq_true, terms_eq hne]
  constructor
  · rintro ⟨w, hw, hall⟩
    refine ⟨String.ofList w, List.mem_map_of_mem hw, ?_⟩
    unfold ResemblesAll
    rw [String.toList_ofList]
    exact hasAll_iff.mp hall
  · rintro ⟨t, ht, hall⟩
    obtain ⟨w, hw, rfl⟩ := List.mem_map.mp ht
    unfold ResemblesAll at hall
    rw [String.toList_ofList] at hall
    exact ⟨w, hw, hasAll_iff.mpr hall⟩

theorem filter_isSpf_iff {txts : List String} {spf : String} :
    txts.filter isSpf = [spf] ↔ Lone txts spf := by
  rw [List.filter_eq_cons_iff]
  constructor
  · rintro ⟨before, behind, htxts, hbefore, hspf, hbehind⟩
    refine ⟨isSpf_iff.mp hspf, before, behind, htxts, fun r hr hopens => ?_⟩
    rcases List.mem_append.mp hr with hr | hr
    · exact hbefore r hr (isSpf_iff.mpr hopens)
    · exact List.filter_eq_nil_iff.mp hbehind r hr (isSpf_iff.mpr hopens)
  · rintro ⟨hspf, before, behind, htxts, hno⟩
    refine ⟨before, behind, htxts, fun r hr h => ?_, isSpf_iff.mpr hspf, ?_⟩
    · exact hno r (List.mem_append_left _ hr) (isSpf_iff.mp h)
    · refine List.filter_eq_nil_iff.mpr fun r hr h => ?_
      exact hno r (List.mem_append_right _ hr) (isSpf_iff.mp h)

theorem missingFrom_eq_nil {spf : String} {required : List String} :
    missingFrom spf required = [] ↔ ∀ inc ∈ required, ∃ t ∈ terms spf, lower t = lower inc := by
  unfold missingFrom
  rw [List.filter_eq_nil_iff]
  simp only [decide_not, Bool.not_eq_true', decide_eq_false_iff_not, not_not, List.mem_map]

/-- **What is graded ok**, by the terms of the records. -/
theorem gradeSpf_ok_iff {txts required : List String} (hsome : required ≠ []) :
    (gradeSpf txts required).status = .ok ↔ ∃ spf, Lone txts spf ∧
      (∀ inc ∈ required, ∃ t ∈ terms spf, lower t = lower inc) ∧
      ∃ t ∈ terms spf, ResemblesAll t := by
  rw [gradeSpf_ok]
  constructor
  · rintro ⟨spf, hone, hmissing, hall, -⟩
    have hlone := filter_isSpf_iff.mp hone
    exact ⟨spf, hlone, missingFrom_eq_nil.mp hmissing, (hasAll_iff_resembles hlone.1).mp hall⟩
  · rintro ⟨spf, hlone, hmissing, hall⟩
    exact ⟨spf, filter_isSpf_iff.mpr hlone, missingFrom_eq_nil.mpr hmissing,
      (hasAll_iff_resembles hlone.1).mpr hall, hsome⟩

theorem Lone.unique {txts : List String} {spf spf' : String} (h : Lone txts spf)
    (h' : Lone txts spf') : spf' = spf :=
  (List.cons.inj ((filter_isSpf_iff.mpr h').symm.trans (filter_isSpf_iff.mpr h))).1

/-! ## When ok is sound -/

theorem filter_isRecord (txts : List String) :
    txts.filter (fun r => CheckHost.isRecord r.toList) =
      (txts.filter isSpf).filter fun r => CheckHost.isRecord r.toList := by
  rw [List.filter_filter]
  refine List.filter_congr ?_
  intro r _
  cases h : CheckHost.isRecord r.toList with
  | false => rfl
  | true => exact (isSpf_of_isRecord h).symm

/-- A required mechanism that is a term stands in front of the first `all`, unless it is late. -/
theorem mem_front {spf inc : String} (hterm : ∃ t ∈ terms spf, lower t = lower inc)
    (hlate : ¬ Late spf inc) : lower inc ∈ (front spf).map lower := by
  obtain ⟨t, ht, hlow⟩ := hterm
  have hsplit : terms spf = front spf ++ back spf := List.takeWhile_append_dropWhile.symm
  rw [hsplit] at ht
  rcases List.mem_append.mp ht with hfront | hback
  · exact List.mem_map.mpr ⟨t, hfront, hlow⟩
  · by_contra hnot
    exact hlate ⟨hnot, List.mem_map.mpr ⟨t, hback, hlow⟩⟩

/-- **Ok is sound exactly when the records are in order.** -/
theorem ok_sound_iff {txts required : List String} (hsome : required ≠ []) :
    ((gradeSpf txts required).status = .ok → Sound txts required) ↔ InOrder txts required := by
  rw [gradeSpf_ok_iff hsome]
  constructor
  · intro hsound
    by_cases hlone : ∃ spf, Lone txts spf
    · obtain ⟨spf, hspf⟩ := hlone
      refine .inr ⟨spf, hspf, ?_⟩
      by_cases hlack : ∃ inc ∈ required, ∀ t ∈ terms spf, lower t ≠ lower inc
      · exact .inl hlack
      · have hmissing : ∀ inc ∈ required, ∃ t ∈ terms spf, lower t = lower inc := by
          intro inc hinc
          by_contra hno
          exact hlack ⟨inc, hinc, fun t ht hlow => hno ⟨t, ht, hlow⟩⟩
        by_cases hall : ∃ t ∈ terms spf, ResemblesAll t
        · obtain ⟨spf', hrecord, hends, hbefore⟩ := hsound ⟨spf, hspf, hmissing, hall⟩
          rw [filter_isRecord, filter_isSpf_iff.mpr hspf] at hrecord
          have hmem : spf' ∈ [spf].filter fun r => CheckHost.isRecord r.toList := by
            rw [hrecord]
            exact List.mem_singleton_self _
          obtain ⟨heq, hversion⟩ := List.mem_filter.mp hmem
          obtain rfl := List.mem_singleton.mp heq
          refine .inr (.inr ⟨hversion, hends, ?_⟩)
          exact fun inc hinc hlate => hlate.1 (hbefore inc hinc)
        · exact .inr (.inl fun t ht hres => hall ⟨t, ht, hres⟩)
    · exact .inl hlone
  · rintro horder ⟨spf, hspf, hmissing, t, ht, hres⟩
    rcases horder with hnone | ⟨spf', hspf', hcase⟩
    · exact absurd ⟨spf, hspf⟩ hnone
    obtain rfl := hspf.unique hspf'
    rcases hcase with ⟨inc, hinc, hno⟩ | hno | ⟨hversion, hends, hlate⟩
    · obtain ⟨t', ht', hlow⟩ := hmissing inc hinc
      exact absurd hlow (hno t' ht')
    · exact absurd hres (hno t ht)
    · refine ⟨spf', ?_, hends, fun inc hinc => mem_front (hmissing inc hinc) (hlate inc hinc)⟩
      rw [filter_isRecord, filter_isSpf_iff.mpr hspf']
      exact List.filter_cons_of_pos hversion

/-- A record in order. -/
theorem ok_sound_ses : (gradeSpf ["v=spf1 include:amazonses.com -all"]
      ["include:amazonses.com"]).status = .ok ∧ Sound ["v=spf1 include:amazonses.com -all"]
        ["include:amazonses.com"] := by
  have hok : (gradeSpf ["v=spf1 include:amazonses.com -all"] ["include:amazonses.com"]).status =
      .ok := by decide
  have hlone : Lone ["v=spf1 include:amazonses.com -all"] "v=spf1 include:amazonses.com -all" :=
    filter_isSpf_iff.mp (by decide)
  refine ⟨hok, (ok_sound_iff (by decide)).mpr (.inr ⟨_, hlone, .inr (.inr ⟨?_, ?_, ?_⟩)⟩) hok⟩
  · decide
  · decide
  · intro inc hinc hlate
    rw [List.mem_singleton.mp hinc] at hlate
    exact hlate.1 (by decide)

/-- Ok for a mechanism that stands behind the `all`, and for an `all` that is the end of a name. -/
theorem ok_unsound :
    ¬((gradeSpf ["v=spf1 -all include:amazonses.com"] ["include:amazonses.com"]).status = .ok →
      Sound ["v=spf1 -all include:amazonses.com"] ["include:amazonses.com"]) ∧
    ¬((gradeSpf ["v=spf1 include:amazonses.com include:spf-all.example.net"]
        ["include:amazonses.com"]).status = .ok →
      Sound ["v=spf1 include:amazonses.com include:spf-all.example.net"]
        ["include:amazonses.com"]) := by
  constructor
  · intro hsound
    obtain ⟨spf, hone, -, hbefore⟩ := hsound (by decide)
    have hspf : spf = "v=spf1 -all include:amazonses.com" :=
      (List.mem_singleton.mp (List.mem_of_mem_filter (hone ▸ List.mem_singleton_self spf)))
    have hin := hbefore "include:amazonses.com" (List.mem_singleton_self _)
    rw [hspf] at hin
    exact absurd hin (by decide)
  · intro hsound
    obtain ⟨spf, hone, hends, -⟩ := hsound (by decide)
    have hspf : spf = "v=spf1 include:amazonses.com include:spf-all.example.net" :=
      (List.mem_singleton.mp (List.mem_of_mem_filter (hone ▸ List.mem_singleton_self spf)))
    rw [hspf] at hends
    exact absurd hends (by decide)

end Novamail.Deliverability

/-
  The record that `gradeSpf` suggests.

  `mergeSpf` puts the missing mechanisms in front of the first `all`, or behind everything with a
  `-all` of its own.  Whether the result is a repair is asked of the grader, and of `check_host`.
-/
import Novamail.Admin.SpfTerms

namespace Novamail.Deliverability

open Novamail.Core

/-! ## What is written -/

/-- The text is one word. -/
def IsWord (s : String) : Prop := s.toList ≠ [] ∧ ∀ c ∈ s.toList, isSpace c = false

theorem words_written {ws : List String} (hws : ∀ w ∈ ws, IsWord w) :
    words isSpace (" ".intercalate ws).toList = ws.map String.toList := by
  rw [String.toList_intercalate]
  refine words_intercalate (by decide) ?_
  intro w hw
  obtain ⟨s, hs, rfl⟩ := List.mem_map.mp hw
  exact hws s hs

theorem terms_written {ws : List String} (hne : ws ≠ []) (hws : ∀ w ∈ ws, IsWord w) :
    terms (" ".intercalate ws) = ws := by
  have hwords := words_written hws
  rw [terms_eq (by rw [hwords]; exact mt List.map_eq_nil_iff.mp hne), hwords, List.map_map]
  simp [Function.comp_def]

theorem isWord_terms {spf : String} (hspf : isSpf spf = true) : ∀ t ∈ terms spf, IsWord t := by
  have hne : words isSpace spf.toList ≠ [] := by
    intro hnil
    rw [isSpf_eq, hnil] at hspf
    cases hspf
  intro t ht
  rw [terms_eq hne] at ht
  obtain ⟨w, hw, rfl⟩ := List.mem_map.mp ht
  obtain ⟨hsome, hin⟩ := of_mem_words hw
  unfold IsWord
  rw [String.toList_ofList]
  exact ⟨hsome, fun c hc => (hin c hc).1⟩

/-- The terms of the fix for a record. -/
def mended (spf : String) (missing : List String) : List String :=
  front spf ++ missing ++ if back spf = [] then ["-all"] else back spf

theorem mergeSpf_eq (spf : String) (missing : List String) :
    mergeSpf spf missing = " ".intercalate (mended spf missing) := by
  unfold mergeSpf mended front back
  dsimp only
  cases h : (terms spf).findIdx? isAll with
  | none =>
    have hnot := List.findIdx?_eq_none_iff.mp h
    have htake : (terms spf).takeWhile (!isAll ·) = terms spf :=
      List.takeWhile_eq_self_iff.mpr fun t ht => by rw [hnot t ht]; rfl
    have hdrop : (terms spf).dropWhile (!isAll ·) = [] :=
      List.dropWhile_eq_nil_iff.mpr fun t ht => by rw [hnot t ht]; rfl
    rw [htake, hdrop, if_pos rfl]
  | some i =>
    obtain ⟨hi, hall, hbefore⟩ := List.findIdx?_eq_some_iff_getElem.mp h
    have hsplit : terms spf = (terms spf).take i ++ (terms spf)[i] :: (terms spf).drop (i + 1) := by
      rw [← List.drop_eq_getElem_cons hi, List.take_append_drop]
    have hfront : ∀ t ∈ (terms spf).take i, (!isAll t) = true := by
      intro t ht
      obtain ⟨k, hk, rfl⟩ := List.mem_take_iff_getElem.mp ht
      have hki : k < i := by omega
      simpa using hbefore k hki
    have htake : (terms spf).takeWhile (!isAll ·) = (terms spf).take i := by
      rw [hsplit, List.takeWhile_append_of_pos hfront, List.takeWhile_cons_of_neg (by simp [hall]),
        List.append_nil, ← hsplit]
    have hdrop : (terms spf).dropWhile (!isAll ·) = (terms spf).drop i := by
      have hback := List.takeWhile_append_dropWhile (p := (!isAll ·)) (l := terms spf)
      rw [htake] at hback
      exact List.append_cancel_left (hback.trans (List.take_append_drop i _).symm)
    have hne : (terms spf).drop i ≠ [] := by
      rw [List.drop_eq_getElem_cons hi]
      exact List.cons_ne_nil _ _
    rw [htake, hdrop, if_neg hne]

/-- The text is the word of a mechanism that lets senders pass. -/
def IsInclude (inc : String) : Prop :=
  ∃ argument, CheckHost.Term.parse inc.toList =
    some (.directive .pass (.test "include".toList argument))

theorem visible_not_space {c : Char} (h : CheckHost.isVisible c = true) : isSpace c = false := by
  obtain ⟨hlow, hhigh⟩ := Bool.and_eq_true_iff.mp h
  have hlow' : ('!' : Char).toNat ≤ c.toNat :=
    UInt32.le_iff_toNat_le.mp (of_decide_eq_true hlow)
  have hhigh' : c.toNat ≤ ('~' : Char).toNat :=
    UInt32.le_iff_toNat_le.mp (of_decide_eq_true hhigh)
  have hfirst : ('!' : Char).toNat = 33 := by decide
  have hlast : ('~' : Char).toNat = 126 := by decide
  rw [Bool.eq_false_iff]
  intro hspace
  have hcode := toNat_space hspace
  omega

theorem IsInclude.isWord {inc : String} (h : IsInclude inc) : IsWord inc := by
  obtain ⟨argument, hparse⟩ := h
  constructor
  · intro hnil
    rw [hnil] at hparse
    cases hparse
  · intro c hc
    exact visible_not_space (CheckHost.Term.parse_visible hparse c hc)

/-- The first term of a record is no `all`. -/
theorem exists_front {spf : String} (hspf : isSpf spf = true) :
    ∃ v rest, terms spf = v :: rest ∧ isAll v = false ∧
      (after "v=spf1".toList v.toList).any boundary = true := by
  cases hwords : words isSpace spf.toList with
  | nil =>
    rw [isSpf_eq, hwords] at hspf
    cases hspf
  | cons w ws =>
    have hfirst : (after "v=spf1".toList w).any boundary = true := by
      rw [isSpf_eq, hwords] at hspf
      exact hspf
    have hlist : (String.ofList w).toList = w := String.toList_ofList
    refine ⟨String.ofList w, ws.map String.ofList, ?_, ?_, ?_⟩
    · rw [terms_eq (by rw [hwords]; exact List.cons_ne_nil _ _), hwords, List.map_cons]
    · -- it begins with a `v`
      cases w with
      | nil => cases hfirst
      | cons c w =>
        have hletter : c.toLower = 'v' := by
          by_contra hother
          have hcons := after_cons 'v' c "=spf1".toList w
          rw [if_neg (Ne.symm hother)] at hcons
          have hnone : after "v=spf1".toList (c :: w) = none := hcons
          rw [hnone] at hfirst
          cases hfirst
        have hlower : (lower (String.ofList (c :: w))).toList = 'v' :: w.map Char.toLower := by
          unfold lower
          rw [String.toList_ofList, hlist, List.map_cons, hletter]
        unfold isAll
        rw [hlower]
        simp [isQualifier]
    · rw [hlist]
      exact hfirst

/-- The fix is made of words, and begins with the first term of the record. -/
theorem mended_spec {spf : String} {missing : List String} (hspf : isSpf spf = true)
    (hmissing : ∀ m ∈ missing, IsWord m) :
    (∀ w ∈ mended spf missing, IsWord w) ∧ (terms spf).Sublist (mended spf missing) ∧
      (mended spf missing).head? = (terms spf).head? := by
  have hsplit : terms spf = front spf ++ back spf := List.takeWhile_append_dropWhile.symm
  have hends : IsWord "-all" := by
    constructor
    · simp
    · exact forall_mem_of_all (by decide)
  refine ⟨?_, ?_, ?_⟩
  · intro w hw
    have hterms := isWord_terms hspf
    rcases List.mem_append.mp hw with hw | hw
    · rcases List.mem_append.mp hw with hw | hw
      · exact hterms w ((List.takeWhile_prefix _).mem hw)
      · exact hmissing w hw
    · split at hw
      · rw [List.mem_singleton.mp hw]
        exact hends
      · exact hterms w ((List.dropWhile_suffix _).mem hw)
  · rw [hsplit]
    unfold mended
    rw [List.append_assoc]
    refine List.Sublist.append_left ?_ _
    by_cases hback : back spf = []
    · rw [hback]
      exact List.nil_sublist _
    · rw [if_neg hback]
      exact List.sublist_append_right _ _
  · have hfirst : front spf ≠ [] := by
      obtain ⟨v, rest, hterms, hv, -⟩ := exists_front hspf
      unfold front
      rw [hterms, List.takeWhile_cons_of_pos (by simp [hv])]
      exact List.cons_ne_nil _ _
    unfold mended
    rw [hsplit, List.append_assoc, List.head?_append_of_ne_nil _ hfirst,
      List.head?_append_of_ne_nil _ hfirst]

/-! ## The grade of the fix -/

/-- A single text is graded ok or info when it passes the three checks. -/
theorem graded_iff {fix : String} {required : List String} :
    ((gradeSpf [fix] required).status = .ok ∨ (gradeSpf [fix] required).status = .info) ↔
      isSpf fix = true ∧ missingFrom fix required = [] ∧ hasAll fix.toList = true := by
  unfold gradeSpf
  cases hspf : isSpf fix with
  | false =>
    have hnone : [fix].filter isSpf = [] := by simp [hspf]
    rw [hnone]
    simp
  | true =>
    have hone : [fix].filter isSpf = [fix] := by simp [hspf]
    rw [hone]
    dsimp only
    by_cases hmissing : missingFrom fix required = []
    · rw [if_neg (not_not.mpr hmissing)]
      cases hall : hasAll fix.toList with
      | false => simp
      | true =>
        by_cases hsome : required = []
        · subst hsome
          simp [hmissing]
        · simp [hsome, hmissing]
    · rw [if_pos hmissing]
      simp [hmissing]

theorem back_eq_nil {spf : String} : back spf = [] ↔ ∀ t ∈ terms spf, isAll t = false := by
  unfold back
  rw [List.dropWhile_eq_nil_iff]
  simp

/-- The pattern for an `all`, over the terms. -/
theorem hasAll_terms {spf : String} (hspf : isSpf spf = true) :
    hasAll spf.toList = (terms spf).any fun t => hasAll t.toList := by
  obtain ⟨v, rest, hterms, -, -⟩ := exists_front hspf
  cases hwords : words isSpace spf.toList with
  | nil =>
    rw [isSpf_eq, hwords] at hspf
    cases hspf
  | cons w ws =>
    rw [hasAll_words, terms_eq (by rw [hwords]; exact List.cons_ne_nil _ _), List.any_map]
    simp [Function.comp_def]

/-- The first two checks pass on the fix of a record. -/
theorem mended_checks {spf : String} {required : List String} (hspf : isSpf spf = true)
    (hreq : ∀ inc ∈ required, IsWord inc) :
    isSpf (mergeSpf spf (missingFrom spf required)) = true ∧
      missingFrom (mergeSpf spf (missingFrom spf required)) required = [] ∧
      terms (mergeSpf spf (missingFrom spf required)) =
        mended spf (missingFrom spf required) := by
  have hmissing : ∀ m ∈ missingFrom spf required, IsWord m :=
    fun m hm => hreq m (List.mem_filter.mp hm).1
  obtain ⟨hwords, hkept, hhead⟩ := mended_spec hspf hmissing
  obtain ⟨v, rest, hterms, -, hversion⟩ := exists_front hspf
  have hfirst : (mended spf (missingFrom spf required)).head? = some v := by
    rw [hhead, hterms]
    rfl
  have hne : mended spf (missingFrom spf required) ≠ [] := by
    intro hnil
    rw [hnil] at hfirst
    cases hfirst
  have hwritten := terms_written hne hwords
  rw [mergeSpf_eq]
  refine ⟨?_, ?_, hwritten⟩
  · rw [isSpf_eq, words_written hwords, List.head?_map, hfirst]
    exact hversion
  · refine List.filter_eq_nil_iff.mpr ?_
    intro inc hinc
    rw [hwritten]
    have hin : lower inc ∈ (mended spf (missingFrom spf required)).map lower := by
      by_cases hold : lower inc ∈ (terms spf).map lower
      · exact (hkept.map lower).subset hold
      · refine List.mem_map_of_mem ?_
        unfold mended
        refine List.mem_append_left _ (List.mem_append_right _ ?_)
        exact List.mem_filter.mpr ⟨hinc, by simpa using hold⟩
    simpa using hin

/-- **The fix of a record is graded ok or info exactly when its `all` can be seen**: the record has
    none, or the pattern finds one in the record or in what is added. -/
theorem mended_graded {spf : String} {required : List String} (hspf : isSpf spf = true)
    (hreq : ∀ inc ∈ required, IsWord inc) :
    ((gradeSpf [mergeSpf spf (missingFrom spf required)] required).status = .ok ∨
      (gradeSpf [mergeSpf spf (missingFrom spf required)] required).status = .info) ↔
      ((∃ t ∈ terms spf, isAll t = true) → hasAll spf.toList = true ∨
        ∃ m ∈ missingFrom spf required, hasAll m.toList = true) := by
  obtain ⟨hversion, hnone, hterms⟩ := mended_checks hspf hreq
  have hsplit : terms spf = front spf ++ back spf := List.takeWhile_append_dropWhile.symm
  rw [graded_iff, hasAll_terms hversion, hterms, hasAll_terms hspf]
  unfold mended
  by_cases hback : back spf = []
  · have hopen := back_eq_nil.mp hback
    have hends : (["-all"].any fun t => hasAll t.toList) = true := by decide
    rw [if_pos hback, List.any_append, hends, Bool.or_true]
    refine iff_of_true ⟨hversion, hnone, rfl⟩ ?_
    rintro ⟨t, ht, hall⟩
    rw [hopen t ht] at hall
    cases hall
  · have hends : ∃ t ∈ terms spf, isAll t = true := by
      by_contra hno
      refine hback (back_eq_nil.mpr ?_)
      intro t ht
      rw [Bool.eq_false_iff]
      exact fun hall => hno ⟨t, ht, hall⟩
    rw [if_neg hback, hsplit]
    simp only [List.any_append, Bool.or_eq_true, List.any_eq_true]
    rw [← hsplit]
    constructor
    · rintro ⟨-, -, (hfront | hnew) | hold⟩ _
      · exact .inl (.inl hfront)
      · exact .inr hnew
      · exact .inl (.inr hold)
    · intro h
      rcases h hends with (hfront | hold) | hnew
      · exact ⟨hversion, hnone, .inl (.inl hfront)⟩
      · exact ⟨hversion, hnone, .inr hold⟩
      · exact ⟨hversion, hnone, .inl (.inr hnew)⟩

/-! ## What `check_host` makes of the fix -/

/-- The terms that `check_host` reads off some words. -/
def parsed (ws : List String) : List CheckHost.Term :=
  (ws.map String.toList).filterMap CheckHost.Term.parse

theorem parsed_append (ws us : List String) : parsed (ws ++ us) = parsed ws ++ parsed us := by
  unfold parsed
  rw [List.map_append, List.filterMap_append]

/-- A good record is read by its terms. -/
theorem of_parse {spf : String} {ts : List CheckHost.Term}
    (h : CheckHost.parse spf.toList = some ts) :
    ∃ v ws, terms spf = v :: ws ∧ CheckHost.lowered v.toList = "v=spf1".toList ∧
      CheckHost.wellFormed (ws.map String.toList) = true ∧ ts = parsed ws := by
  unfold CheckHost.parse at h
  split at h
  · rename_i hgood
    obtain ⟨hrecord, hform⟩ := Bool.and_eq_true_iff.mp hgood
    obtain ⟨v, hv, hwords⟩ := CheckHost.words_of_isRecord hrecord
    -- every character is a space or in a word, and no word has another space
    have hspaces : ∀ c ∈ spf.toList, isSpace c = decide (c = ' ') := by
      intro c hc
      cases hdec : decide (c = ' ') with
      | true =>
        rw [of_decide_eq_true hdec]
        decide
      | false =>
        obtain ⟨w, hw, hin⟩ := exists_word (p := (· = ' ')) hdec hc
        rw [hwords] at hw
        rcases List.mem_cons.mp hw with rfl | hw
        · exact version_isWord hv c hin
        · have hall := Bool.and_eq_true_iff.mp (Bool.and_eq_true_iff.mp hform).1
          have hsome := List.all_eq_true.mp hall.1 w hw
          obtain ⟨t, ht⟩ := Option.isSome_iff_exists.mp hsome
          exact visible_not_space (CheckHost.Term.parse_visible ht c hin)
    have hsame := (words_congr hspaces).trans hwords
    refine ⟨String.ofList v, (CheckHost.termWords spf.toList).map String.ofList, ?_, ?_, ?_, ?_⟩
    · rw [terms_eq (by rw [hsame]; exact List.cons_ne_nil _ _), hsame, List.map_cons]
    · have hlist : (String.ofList v).toList = v := String.toList_ofList
      rw [hlist]
      exact hv
    · rw [List.map_map]
      simpa [Function.comp_def] using hform
    · cases h
      unfold parsed
      rw [List.map_map]
      simp [Function.comp_def]
  · cases h

/-- What is written from a version and words is read back. -/
theorem parse_written {v : String} {ws : List String} (hws : ∀ w ∈ v :: ws, IsWord w)
    (hv : CheckHost.lowered v.toList = "v=spf1".toList)
    (hform : CheckHost.wellFormed (ws.map String.toList) = true) :
    CheckHost.parse (" ".intercalate (v :: ws)).toList = some (parsed ws) := by
  have hnospace : ∀ w ∈ v :: ws, ∀ c ∈ w.toList, decide (c = ' ') = false := by
    intro w hw c hc
    rw [decide_eq_false_iff_not]
    rintro rfl
    have hspace := (hws w hw).2 ' ' hc
    revert hspace
    decide
  have htext : (" ".intercalate (v :: ws)).toList =
      [' '].intercalate (v.toList :: ws.map String.toList) := by
    rw [String.toList_intercalate]
    rfl
  have hrecord : CheckHost.isRecord (" ".intercalate (v :: ws)).toList = true := by
    rw [htext]
    refine CheckHost.isRecord_intercalate _ ?_ hv
    intro hmem
    have hno := hnospace v List.mem_cons_self ' ' hmem
    revert hno
    decide
  have hterms : CheckHost.termWords (" ".intercalate (v :: ws)).toList = ws.map String.toList := by
    unfold CheckHost.termWords
    rw [htext, words_intercalate (by decide)]
    · rfl
    · intro w hw
      rw [← List.map_cons] at hw
      obtain ⟨s, hs, rfl⟩ := List.mem_map.mp hw
      exact ⟨(hws s hs).1, hnospace s hs⟩
  unfold CheckHost.parse
  rw [hrecord, hterms, hform]
  rfl

theorem ofChar_isSome (c : Char) : (CheckHost.Qualifier.ofChar c).isSome = isQualifier c := by
  unfold CheckHost.Qualifier.ofChar
  split
  · rfl
  · rfl
  · rfl
  · rfl
  · rename_i h₁ h₂ h₃ h₄
    have hnot : c ∉ ['-', '~', '?', '+'] := by
      simp only [List.mem_cons, List.not_mem_nil, or_false, not_or]
      exact ⟨h₂, h₃, h₄, h₁⟩
    exact (decide_eq_false hnot).symm

theorem isQualifier_toLower (c : Char) : isQualifier c.toLower = isQualifier c := by
  have hascii : ∀ n < 128, isQualifier (Char.ofNat n).toLower = isQualifier (Char.ofNat n) := by
    decide
  by_cases hc : c.toNat < 128
  · rw [← Char.ofNat_toNat c]
    exact hascii c.toNat hc
  · have hstay : c.toLower = c := by
      unfold Char.toLower
      refine dif_neg ?_
      rintro ⟨-, hhigh⟩
      have hhigh' : c.toNat ≤ 90 := UInt32.le_iff_toNat_le.mp hhigh
      omega
    rw [hstay]

theorem isAllWord_iff {w : String} : CheckHost.IsAllWord w.toList ↔ isAll w = true := by
  have hlower : (lower w).toList = CheckHost.lowered w.toList := by
    unfold lower
    exact String.toList_ofList
  unfold CheckHost.IsAllWord isAll
  rw [hlower]
  cases w.toList with
  | nil => simp [CheckHost.lowered]
  | cons c cs =>
    show _ ↔ (decide (CheckHost.lowered (c :: cs) = "all".toList) ||
      (isQualifier c.toLower && decide (CheckHost.lowered cs = "all".toList))) = true
    rw [isQualifier_toLower, Bool.or_eq_true, Bool.and_eq_true, decide_eq_true_eq,
      decide_eq_true_eq]
    refine or_congr Iff.rfl ?_
    constructor
    · rintro ⟨c', cs', heq, hq, hall⟩
      cases heq
      exact ⟨ofChar_isSome c ▸ hq, hall⟩
    · rintro ⟨hq, hall⟩
      exact ⟨c, cs, rfl, (ofChar_isSome c).symm ▸ hq, hall⟩

/-- An `all` is an `all` to both. -/
theorem isAll_parse {w : String} {t : CheckHost.Term}
    (h : CheckHost.Term.parse w.toList = some t) : t.isAll = isAll w := by
  rw [Bool.eq_iff_iff, CheckHost.Term.parse_isAll h, isAllWord_iff]

theorem parsed_isAll {ws : List String} (h : ∀ w ∈ ws, isAll w = false) :
    ∀ t ∈ parsed ws, t.isAll = false := by
  intro t ht
  obtain ⟨l, hl, hparse⟩ := List.mem_filterMap.mp ht
  obtain ⟨w, hw, rfl⟩ := List.mem_map.mp hl
  rw [isAll_parse hparse, h w hw]

theorem IsInclude.permits {us : List String} (h : ∀ u ∈ us, IsInclude u) :
    ∀ t ∈ parsed us, t.permits = true := by
  intro t ht
  obtain ⟨l, hl, hparse⟩ := List.mem_filterMap.mp ht
  obtain ⟨u, hu, rfl⟩ := List.mem_map.mp hl
  obtain ⟨argument, hinc⟩ := h u hu
  rw [hinc] at hparse
  cases hparse
  rfl

/-- What `check_host` reads in the fix of a good record: the terms in front of the `all`, the
    mechanisms that are added, and the rest or an `all` that is added. -/
theorem parse_mended {spf : String} {missing : List String} {ts : List CheckHost.Term}
    (hspf : isSpf spf = true) (hinc : ∀ m ∈ missing, IsInclude m)
    (h : CheckHost.parse spf.toList = some ts) :
    ∃ before, (∀ w ∈ before, isAll w = false) ∧ ts = parsed before ++ parsed (back spf) ∧
      (back spf ≠ [] → ∃ t ∈ parsed (back spf), t.isAll = true) ∧
      CheckHost.parse (mergeSpf spf missing).toList = some (parsed before ++ parsed missing ++
        if back spf = [] then [.directive .fail .all] else parsed (back spf)) := by
  obtain ⟨v, ws, hterms, hv, hform, rfl⟩ := of_parse h
  obtain ⟨v', rest', hterms', hfirst, -⟩ := exists_front hspf
  obtain ⟨rfl, rfl⟩ := List.cons.inj (hterms.symm.trans hterms')
  have hfront : front spf = v :: ws.takeWhile (!isAll ·) := by
    unfold front
    rw [hterms, List.takeWhile_cons_of_pos (by simp [hfirst])]
  have hback : back spf = ws.dropWhile (!isAll ·) := by
    unfold back
    rw [hterms, List.dropWhile_cons_of_pos (by simp [hfirst])]
  have hsplit : ws = ws.takeWhile (!isAll ·) ++ back spf := by
    rw [hback]
    exact List.takeWhile_append_dropWhile.symm
  have hdirective : ∀ u ∈ missing.map String.toList, ∃ q m,
      CheckHost.Term.parse u = some (.directive q m) := by
    intro u hu
    obtain ⟨m, hm, rfl⟩ := List.mem_map.mp hu
    obtain ⟨argument, hparse⟩ := hinc m hm
    exact ⟨_, _, hparse⟩
  have hfail : CheckHost.Term.parse "-all".toList = some (.directive .fail .all) := by
    decide
  obtain ⟨hword, -, -⟩ := mended_spec hspf fun m hm => (hinc m hm).isWord
  have hends : parsed (missing ++ ["-all"]) = parsed missing ++ [.directive .fail .all] := by
    rw [parsed_append]
    refine congrArg (parsed missing ++ ·) ?_
    unfold parsed
    rw [List.map_singleton, List.filterMap_cons_some hfail]
    rfl
  refine ⟨ws.takeWhile (!isAll ·), ?_, ?_, ?_, ?_⟩
  · intro w hw
    simpa using List.mem_takeWhile_imp hw
  · rw [← parsed_append, ← hsplit]
  · intro hne
    obtain ⟨w, rest, hcons⟩ := List.exists_cons_of_ne_nil hne
    have hall : isAll w = true := by
      have hstop := List.head?_dropWhile_not (!isAll ·) ws
      rw [← hback, hcons] at hstop
      simpa using hstop
    have hmem : w.toList ∈ ws.map String.toList := by
      refine List.mem_map_of_mem ?_
      rw [hsplit, hcons]
      exact List.mem_append_right _ List.mem_cons_self
    have hgood := Bool.and_eq_true_iff.mp (Bool.and_eq_true_iff.mp hform).1
    obtain ⟨t, ht⟩ := Option.isSome_iff_exists.mp (List.all_eq_true.mp hgood.1 _ hmem)
    refine ⟨t, List.mem_filterMap.mpr ⟨w.toList, List.mem_map_of_mem ?_, ht⟩, ?_⟩
    · rw [hcons]
      exact List.mem_cons_self
    · rw [isAll_parse ht, hall]
  rw [mergeSpf_eq]
  by_cases hnil : back spf = []
  · have hmended : mended spf missing = v :: (ws.takeWhile (!isAll ·) ++ (missing ++ ["-all"])) := by
      unfold mended
      rw [if_pos hnil, hfront, List.append_assoc, List.cons_append]
    rw [hmended] at hword ⊢
    rw [hsplit, hnil, List.append_nil, ← List.append_nil (ws.takeWhile _), List.map_append] at hform
    rw [parse_written hword hv, parsed_append, hends, if_pos hnil, List.append_assoc]
    · rw [List.map_append, ← List.append_nil ((missing ++ ["-all"]).map String.toList),
        ← List.append_assoc]
      refine CheckHost.wellFormed_insert hform ?_
      intro u hu
      rw [List.map_append] at hu
      rcases List.mem_append.mp hu with hu | hu
      · exact hdirective u hu
      · rw [List.mem_singleton.mp hu]
        exact ⟨_, _, hfail⟩
  · have hmended : mended spf missing = v :: (ws.takeWhile (!isAll ·) ++ missing ++ back spf) := by
      unfold mended
      rw [if_neg hnil, hfront, List.cons_append, List.cons_append]
    rw [hmended] at hword ⊢
    rw [hsplit, List.map_append] at hform
    rw [parse_written hword hv, parsed_append, parsed_append, if_neg hnil]
    rw [List.map_append, List.map_append]
    exact CheckHost.wellFormed_insert hform hdirective

/-- **The fix lets pass whom the record let pass, unless the record hands strangers on.**  The
    `-all` that is added behind a record without an `all` hides its `redirect`. -/
theorem passes_iff {spf : String} {missing : List String} (hspf : isSpf spf = true)
    (hinc : ∀ m ∈ missing, IsInclude m) :
    (∀ s, CheckHost.checkHost s spf.toList = .pass →
      CheckHost.checkHost s (mergeSpf spf missing).toList = .pass) ↔
      ¬CheckHost.Redirects spf.toList := by
  have hpermits := IsInclude.permits hinc
  constructor
  · rintro hpass ⟨ts, hparse, hopen, htarget⟩
    obtain ⟨before, -, rfl, hends, hfix⟩ := parse_mended hspf hinc hparse
    have hstranger := CheckHost.checkHost_pass.mpr
      ⟨_, hparse, (CheckHost.evaluate_stranger hopen).1 htarget⟩
    obtain ⟨ts', hparse', heval⟩ := CheckHost.checkHost_pass.mp (hpass _ hstranger)
    have hnil : back spf = [] := by
      by_contra hne
      obtain ⟨t, ht, hall⟩ := hends hne
      rw [hopen t (List.mem_append_right _ ht)] at hall
      cases hall
    rw [hfix, if_pos hnil] at hparse'
    cases hparse'
    rw [hnil] at hopen
    have hbefore : ∀ t ∈ parsed before, t.isAll = false :=
      fun t ht => hopen t (List.mem_append_left _ ht)
    rw [List.append_assoc] at heval
    rcases (CheckHost.evaluate_stranger hbefore).2 _ heval with hnone | ⟨t, ht, hpass⟩
    · have hall := hnone _ (List.mem_append_right _ (List.mem_singleton_self _))
      cases hall
    · rcases List.mem_append.mp ht with ht | ht
      · match t, hpermits t ht with
        | .directive .pass (.test _ _), _ => cases hpass
      · rw [List.mem_singleton.mp ht] at hpass
        cases hpass
  · intro hdirect s hpass
    obtain ⟨ts, hparse, heval⟩ := CheckHost.checkHost_pass.mp hpass
    obtain ⟨before, hbefore, rfl, hends, hfix⟩ := parse_mended hspf hinc hparse
    refine CheckHost.checkHost_pass.mpr ⟨_, hfix, ?_⟩
    by_cases hnil : back spf = []
    · rw [if_pos hnil]
      rw [hnil] at heval hparse
      have hnone : parsed [] = [] := rfl
      rw [hnone, List.append_nil] at heval hparse
      have hplain : (parsed before).filterMap CheckHost.Term.target = [] := by
        by_contra htarget
        exact hdirect ⟨_, hparse, parsed_isAll hbefore, htarget⟩
      rw [List.append_assoc]
      exact CheckHost.evaluate_extend hplain heval
    · rw [if_neg hnil]
      exact CheckHost.evaluate_insert hpermits (hends hnil) heval

/-! ## The repair -/

/-- The fix is a repair: it is graded ok or info, keeps the terms of the record in their order, and
    lets pass whom the record let pass. -/
structure Repairs (txts required : List String) (fix : String) : Prop where
  graded : (gradeSpf [fix] required).status = .ok ∨ (gradeSpf [fix] required).status = .info
  kept : ∀ spf, txts.filter isSpf = [spf] → (terms spf).Sublist (terms fix)
  passes : ∀ spf, txts.filter isSpf = [spf] → ∀ s, CheckHost.checkHost s spf.toList = .pass →
    CheckHost.checkHost s fix.toList = .pass

/-- The record has no `all` that the grader overlooks, and hands no strangers on. -/
def Mendable (txts required : List String) : Prop :=
  ∀ spf, txts.filter isSpf = [spf] →
    ((∃ t ∈ terms spf, isAll t = true) → hasAll spf.toList = true ∨
      ∃ m ∈ missingFrom spf required, hasAll m.toList = true) ∧
    ¬CheckHost.Redirects spf.toList

/-- The record that is suggested where there is none. -/
theorem buildSpf_graded {required : List String} (hreq : ∀ inc ∈ required, IsWord inc) :
    (gradeSpf [buildSpf required] required).status = .ok ∨
      (gradeSpf [buildSpf required] required).status = .info := by
  have hwords : ∀ w ∈ ["v=spf1"] ++ required ++ ["-all"], IsWord w := by
    have hall : ∀ w ∈ ["v=spf1", "-all"],
        w.toList ≠ [] ∧ w.toList.all (fun c => isSpace c = false) = true := by
      decide
    have hfixed : ∀ w ∈ ["v=spf1", "-all"], IsWord w :=
      fun w hw => ⟨(hall w hw).1, forall_mem_of_all (hall w hw).2⟩
    intro w hw
    rcases List.mem_append.mp hw with hw | hw
    · rcases List.mem_append.mp hw with hw | hw
      · exact hfixed w (List.mem_singleton.mp hw ▸ List.mem_cons_self)
      · exact hreq w hw
    · exact hfixed w (List.mem_singleton.mp hw ▸ List.mem_cons_of_mem _ List.mem_cons_self)
  have hterms : terms (buildSpf required) = ["v=spf1"] ++ required ++ ["-all"] :=
    terms_written (List.append_ne_nil_of_right_ne_nil _ (List.cons_ne_nil _ _)) hwords
  have hversion : (after "v=spf1".toList "v=spf1".toList).any boundary = true := by
    decide
  have hspf : isSpf (buildSpf required) = true := by
    unfold buildSpf
    rw [isSpf_eq, words_written hwords]
    exact hversion
  refine graded_iff.mpr ⟨hspf, ?_, ?_⟩
  · refine List.filter_eq_nil_iff.mpr ?_
    intro inc hinc
    have hin : lower inc ∈ (terms (buildSpf required)).map lower := by
      rw [hterms]
      exact List.mem_map_of_mem (List.mem_append_left _ (List.mem_append_right _ hinc))
    simpa using hin
  · rw [hasAll_terms hspf, hterms, List.any_append]
    have hends : (["-all"].any fun t => hasAll t.toList) = true := by decide
    rw [hends, Bool.or_true]

/-- **A suggested record is a repair exactly where it is mendable.** -/
theorem fix_repairs_iff {txts required : List String} {fix : String}
    (hreq : ∀ inc ∈ required, IsInclude inc) (hfix : (gradeSpf txts required).fix = some fix) :
    Repairs txts required fix ↔ Mendable txts required := by
  have hwords : ∀ inc ∈ required, IsWord inc := fun inc hinc => (hreq inc hinc).isWord
  unfold gradeSpf at hfix
  match hone : txts.filter isSpf with
  | [] =>
    rw [hone] at hfix
    cases hfix
    refine iff_of_true ⟨buildSpf_graded hwords, ?_, ?_⟩ ?_
    · intro spf hspf
      rw [hone] at hspf
      cases hspf
    · intro spf hspf
      rw [hone] at hspf
      cases hspf
    · intro spf hspf
      rw [hone] at hspf
      cases hspf
  | spf :: more :: rest =>
    rw [hone] at hfix
    cases hfix
  | [spf] =>
    rw [hone] at hfix
    dsimp only at hfix
    have hspf : isSpf spf = true :=
      (List.mem_filter.mp (hone ▸ List.mem_singleton_self spf)).2
    have hmerge : fix = mergeSpf spf (missingFrom spf required) := by
      split at hfix
      · cases hfix
        rfl
      · split at hfix
        · cases hfix
        · split at hfix <;> cases hfix
    have hadded : ∀ m ∈ missingFrom spf required, IsInclude m :=
      fun m hm => hreq m (List.mem_filter.mp hm).1
    have honly : ∀ spf', txts.filter isSpf = [spf'] → spf' = spf := by
      intro spf' hspf'
      rw [hone] at hspf'
      exact (List.cons.inj hspf').1.symm
    obtain ⟨-, -, hterms⟩ := mended_checks hspf hwords
    constructor
    · intro hrepair spf' hspf'
      obtain rfl := honly spf' hspf'
      have hgraded := hrepair.graded
      have hpasses := hrepair.passes spf' hspf'
      rw [hmerge] at hgraded hpasses
      exact ⟨(mended_graded hspf hwords).mp hgraded, (passes_iff hspf hadded).mp hpasses⟩
    · intro hmend
      obtain ⟨hseen, hdirect⟩ := hmend spf hone
      rw [hmerge]
      refine ⟨(mended_graded hspf hwords).mpr hseen, ?_, ?_⟩
      · intro spf' hspf'
        obtain rfl := honly spf' hspf'
        rw [hterms]
        exact (mended_spec hspf fun m hm => (hadded m hm).isWord).2.1
      · intro spf' hspf'
        obtain rfl := honly spf' hspf'
        exact (passes_iff hspf hadded).mpr hdirect

/-- A mechanism is put in front of a `~all`. -/
theorem fix_repairs_ses : Repairs ["v=spf1 include:_spf.google.com ~all"] ["include:amazonses.com"]
    "v=spf1 include:_spf.google.com include:amazonses.com ~all" := by
  have hinc : ∀ inc ∈ ["include:amazonses.com"], IsInclude inc := by
    intro inc hinc
    rw [List.mem_singleton.mp hinc]
    exact ⟨":amazonses.com".toList, by decide⟩
  refine (fix_repairs_iff hinc (by decide)).mpr ?_
  intro spf hone
  have hspf : ["v=spf1 include:_spf.google.com ~all"].filter isSpf =
      ["v=spf1 include:_spf.google.com ~all"] := by decide
  obtain rfl := (List.cons.inj (hspf.symm.trans hone)).1
  refine ⟨fun _ => .inl (by decide), ?_⟩
  rintro ⟨ts, hparse, hopen, -⟩
  have hall : ∃ t ∈ (CheckHost.parse "v=spf1 include:_spf.google.com ~all".toList).getD [],
      t.isAll = true := by decide
  rw [hparse] at hall
  obtain ⟨t, ht, hisAll⟩ := hall
  rw [hopen t ht] at hisAll
  cases hisAll

/-- The grader does not see the `all` of its own fix; and a fix turns away the senders that the
    record had handed on. -/
theorem fix_breaks :
    ((gradeSpf ["v=spf1 all"] ["include:amazonses.com"]).fix =
        some "v=spf1 include:amazonses.com all" ∧
      ¬Repairs ["v=spf1 all"] ["include:amazonses.com"] "v=spf1 include:amazonses.com all") ∧
    ((gradeSpf ["v=spf1 redirect=_spf.example.net"] ["include:amazonses.com"]).fix =
        some "v=spf1 redirect=_spf.example.net include:amazonses.com -all" ∧
      ¬Repairs ["v=spf1 redirect=_spf.example.net"] ["include:amazonses.com"]
        "v=spf1 redirect=_spf.example.net include:amazonses.com -all") := by
  refine ⟨⟨by decide, ?_⟩, by decide, ?_⟩
  · intro hrepair
    exact absurd hrepair.graded (by decide)
  · intro hrepair
    have hpass := hrepair.passes "v=spf1 redirect=_spf.example.net" (by decide)
      CheckHost.stranger (by decide)
    exact absurd hpass (by decide)

end Novamail.Deliverability

/-
  `check_host` of RFC 7208, for the record of one domain.

  A record is its version and terms with spaces between them.  A term is a directive, which decides
  when its mechanism matches the sender, or a modifier.  The first directive that matches decides;
  when none does, a `redirect` asks for the verdict on another domain.

  What a mechanism other than `all` says of a sender depends on look-ups; a `Sender` is the answers
  to them.  The grammar is that of the terms: the domains and networks behind a `:` or a `/` are
  not looked into.
-/
import Novamail.Core.Words

namespace Novamail.Core.CheckHost

/-- A text, by characters. -/
abbrev Text := List Char

/-- Names are compared without regard to case. -/
def lowered (s : Text) : Text := s.map Char.toLower

/-! ## Terms -/

/-- The results of `check_host`. -/
inductive Result where
  | none | neutral | pass | fail | softfail | temperror | permerror
  deriving DecidableEq, Repr

/-- What a directive says of the senders that match. -/
inductive Qualifier where
  | pass | fail | softfail | neutral
  deriving DecidableEq, Repr

namespace Qualifier

def ofChar : Char → Option Qualifier
  | '+' => some .pass
  | '-' => some .fail
  | '~' => some .softfail
  | '?' => some .neutral
  | _ => none

def result : Qualifier → Result
  | .pass => .pass
  | .fail => .fail
  | .softfail => .softfail
  | .neutral => .neutral

end Qualifier

/-- A mechanism: the one that matches everyone, or a test by look-ups. -/
inductive Mechanism where
  | all
  | test (name argument : Text)
  deriving DecidableEq, Repr

inductive Term where
  | directive (q : Qualifier) (m : Mechanism)
  | redirect (target : Text)
  /-- Any other modifier. -/
  | modifier (name argument : Text)
  deriving DecidableEq, Repr

/-- A visible ASCII character; a term has no other. -/
def isVisible (c : Char) : Bool := '!' ≤ c && c ≤ '~'

/-- The character ends a name. -/
def isDelimiter (c : Char) : Bool := c = ':' || c = '/' || c = '='

/-- What follows a name is not empty. -/
def hasArgument (delimiter : Char) : Text → Bool
  | c :: _ :: _ => c = delimiter
  | _ => false

/-- A mechanism by its name and what follows the name. -/
def Mechanism.ofName (name rest : Text) : Option Mechanism :=
  if name = "all".toList then if rest = [] then some .all else none
  else if name ∈ ["include".toList, "exists".toList, "ip4".toList, "ip6".toList] then
    if hasArgument ':' rest then some (.test name rest) else none
  else if name ∈ ["a".toList, "mx".toList] then
    if rest = [] || hasArgument ':' rest || hasArgument '/' rest then some (.test name rest)
    else none
  else if name = "ptr".toList then
    if rest = [] || hasArgument ':' rest then some (.test name rest) else none
  else none

def Mechanism.parse (w : Text) : Option Mechanism :=
  ofName (lowered (w.takeWhile (!isDelimiter ·))) (w.dropWhile (!isDelimiter ·))

namespace Term

/-- `name=argument`. -/
def ofModifier (name argument : Text) : Option Term :=
  if name.head?.any Char.isAlpha && name.all (fun c => c.isAlphanum || c ∈ ['-', '_', '.']) then
    if lowered name = "redirect".toList then
      if argument = [] then none else some (.redirect argument)
    else some (.modifier (lowered name) argument)
  else none

/-- A mechanism with or without its qualifier, which is `+` when it is left out. -/
def ofDirective : Text → Option Term
  | [] => none
  | c :: cs =>
    match Qualifier.ofChar c with
    | some q => (Mechanism.parse cs).map (.directive q)
    | none => (Mechanism.parse (c :: cs)).map (.directive .pass)

/-- A term; none is a syntax error. -/
def parse (w : Text) : Option Term :=
  if w.all isVisible then
    match w.dropWhile (!isDelimiter ·) with
    | '=' :: argument => ofModifier (w.takeWhile (!isDelimiter ·)) argument
    | _ => ofDirective w
  else none

/-- The term matches every sender. -/
def isAll : Term → Bool
  | .directive _ .all => true
  | _ => false

/-- The domain a `redirect` names. -/
def target : Term → Option Text
  | .redirect d => some d
  | _ => none

def isExp : Term → Bool
  | .modifier name _ => name = "exp".toList
  | _ => false

end Term

/-! ## Records -/

/-- The record has the version, which a space or the end follows. -/
def isRecord (r : Text) : Bool := lowered (r.takeWhile (· ≠ ' ')) = "v=spf1".toList

/-- The words behind the version. -/
def termWords (r : Text) : List Text := (words (· = ' ') r).tail

/-- The terms are good, and there is one `redirect` and one `exp` at most. -/
def wellFormed (ws : List Text) : Bool :=
  ws.all (fun w => (Term.parse w).isSome) &&
    ((ws.filterMap Term.parse).filterMap Term.target).length ≤ 1 &&
    ((ws.filterMap Term.parse).filter Term.isExp).length ≤ 1

/-- The terms of a record; none is a syntax error, or no record. -/
def parse (r : Text) : Option (List Term) :=
  if isRecord r && wellFormed (termWords r) then some ((termWords r).filterMap Term.parse) else none

/-! ### What is read -/

theorem mem_delimiters {c : Char} (h : ¬(!isDelimiter c) = true) : c ∈ [':', '/', '='] := by
  rw [Bool.not_eq_true', Bool.not_eq_false] at h
  simpa [isDelimiter, or_assoc] using h

/-- No character of the word ends a name. -/
theorem delimiter_not_mem {w : Text} {s : Text} (hs : s.all (!isDelimiter ·) = true)
    (hw : lowered w = s) : ∀ c ∈ w, (!isDelimiter c) = true := by
  intro c hc
  have hlow : (!isDelimiter c.toLower) = true := by
    refine List.all_eq_true.mp hs _ ?_
    rw [← hw]
    exact List.mem_map_of_mem hc
  have hsame : ∀ d ∈ [':', '/', '='], d.toLower = d := forall_mem_of_all (by simp)
  by_contra hdelim
  rw [hsame c (mem_delimiters hdelim)] at hlow
  exact hdelim hlow

theorem Mechanism.ofName_eq_all {name rest : Text} :
    ofName name rest = some .all ↔ name = "all".toList ∧ rest = [] := by
  unfold ofName
  constructor
  · intro h
    split at h
    · rename_i hname
      split at h
      · rename_i hrest
        exact ⟨hname, hrest⟩
      · cases h
    · split at h
      · split at h <;> cases h
      · split at h
        · split at h <;> cases h
        · split at h
          · split at h <;> cases h
          · cases h
  · rintro ⟨hname, hrest⟩
    rw [if_pos hname, if_pos hrest]

theorem Mechanism.parse_eq_all {w : Text} : parse w = some .all ↔ lowered w = "all".toList := by
  unfold parse
  rw [ofName_eq_all]
  constructor
  · rintro ⟨hname, hrest⟩
    rw [← List.takeWhile_append_dropWhile (p := (!isDelimiter ·)) (l := w), hrest, List.append_nil]
    exact hname
  · intro h
    have hname := delimiter_not_mem (by decide) h
    have htake : w.takeWhile (!isDelimiter ·) = w := List.takeWhile_eq_self_iff.mpr hname
    have hdrop : w.dropWhile (!isDelimiter ·) = [] := List.dropWhile_eq_nil_iff.mpr hname
    rw [htake, hdrop]
    exact ⟨h, rfl⟩

/-- The word is `all`, with or without a qualifier. -/
def IsAllWord (w : Text) : Prop :=
  lowered w = "all".toList ∨
    ∃ c cs, w = c :: cs ∧ (Qualifier.ofChar c).isSome ∧ lowered cs = "all".toList

theorem IsAllWord.name {w : Text} (h : IsAllWord w) : ∀ c ∈ w, (!isDelimiter c) = true := by
  rcases h with h | ⟨c, cs, rfl, hq, h⟩
  · exact delimiter_not_mem (by decide) h
  · refine List.forall_mem_cons.mpr ⟨?_, delimiter_not_mem (by decide) h⟩
    have hnone : ∀ d ∈ [':', '/', '='], Qualifier.ofChar d = none :=
      forall_mem_of_all (by decide)
    by_contra hdelim
    rw [hnone c (mem_delimiters hdelim)] at hq
    cases hq

namespace Term

theorem ofModifier_isAll {name argument : Text} {t : Term} (h : ofModifier name argument = some t) :
    t.isAll = false := by
  unfold ofModifier at h
  split at h
  · split at h
    · split at h
      · cases h
      · cases h
        rfl
    · cases h
      rfl
  · cases h

theorem ofDirective_isAll {w : Text} {t : Term} (h : ofDirective w = some t) :
    t.isAll = true ↔ IsAllWord w := by
  have hmech : ∀ q m, Term.isAll (.directive q m) = true ↔ m = .all := by
    intro q m
    cases m with
    | all => simp [isAll]
    | test => simp [isAll]
  cases w with
  | nil => cases h
  | cons c cs =>
    unfold ofDirective at h
    dsimp only at h
    cases hq : Qualifier.ofChar c with
    | some q =>
      rw [hq] at h
      obtain ⟨m, hm, rfl⟩ := Option.map_eq_some_iff.mp h
      rw [hmech]
      constructor
      · rintro rfl
        exact .inr ⟨c, cs, rfl, by rw [hq]; rfl, Mechanism.parse_eq_all.mp hm⟩
      · rintro (hall | ⟨c', cs', heq, -, hall⟩)
        · -- a qualifier is not the letter that `all` begins with
          have hletter : c.toLower = 'a' := (List.cons.inj hall).1
          have hothers : ∀ d ∈ ['+', '-', '~', '?'], d.toLower ≠ 'a' :=
            forall_mem_of_all (by simp)
          refine absurd hletter (hothers c ?_)
          unfold Qualifier.ofChar at hq
          split at hq
          · exact List.mem_cons_self
          · simp
          · simp
          · simp
          · cases hq
        · cases heq
          rw [Mechanism.parse_eq_all.mpr hall] at hm
          cases hm
          rfl
    | none =>
      rw [hq] at h
      obtain ⟨m, hm, rfl⟩ := Option.map_eq_some_iff.mp h
      rw [hmech]
      constructor
      · rintro rfl
        exact .inl (Mechanism.parse_eq_all.mp hm)
      · rintro (hall | ⟨c', cs', heq, hsome, -⟩)
        · rw [Mechanism.parse_eq_all.mpr hall] at hm
          cases hm
          rfl
        · cases heq
          rw [hq] at hsome
          cases hsome

/-- A term matches everyone if and only if its word is `all`. -/
theorem parse_isAll {w : Text} {t : Term} (h : parse w = some t) :
    t.isAll = true ↔ IsAllWord w := by
  unfold parse at h
  split at h
  · split at h
    · rename_i hmod
      constructor
      · intro hall
        rw [ofModifier_isAll h] at hall
        cases hall
      · intro hall
        rw [List.dropWhile_eq_nil_iff.mpr hall.name] at hmod
        cases hmod
    · exact ofDirective_isAll h
  · cases h

theorem parse_visible {w : Text} {t : Term} (h : parse w = some t) :
    ∀ c ∈ w, isVisible c = true := by
  unfold parse at h
  split at h
  · rename_i hvisible
    exact List.all_eq_true.mp hvisible
  · cases h

end Term

/-- The first word of a record is its version. -/
theorem words_of_isRecord {r : Text} (h : isRecord r = true) :
    ∃ v, lowered v = "v=spf1".toList ∧ words (· = ' ') r = v :: termWords r := by
  refine ⟨r.takeWhile (· ≠ ' '), of_decide_eq_true h, ?_⟩
  have hne : r.takeWhile (· ≠ ' ') ≠ [] := by
    intro hnil
    unfold isRecord at h
    rw [hnil] at h
    revert h
    decide
  have hin : ∀ c ∈ r.takeWhile (· ≠ ' '), (decide (c = ' ')) = false := by
    intro c hc
    simpa using List.mem_takeWhile_imp hc
  have hrest : ∀ c ∈ (r.dropWhile (· ≠ ' ')).head?, (decide (c = ' ')) = true := by
    intro c hc
    have hstop := List.head?_dropWhile_not (· ≠ ' ') r
    rw [Option.mem_def.mp hc] at hstop
    simpa using hstop
  have hfirst := words_cons_word hne hin _ hrest
  rw [List.takeWhile_append_dropWhile] at hfirst
  unfold termWords
  rw [hfirst]
  rfl

/-- A text that is written from a version and words. -/
theorem isRecord_intercalate {v : Text} (ws : List Text) (hv : ' ' ∉ v)
    (hversion : lowered v = "v=spf1".toList) : isRecord ([' '].intercalate (v :: ws)) = true := by
  have hfront : ([' '].intercalate (v :: ws)).takeWhile (· ≠ ' ') = v := by
    have hin : ∀ c ∈ v, (decide (c ≠ ' ')) = true := by
      intro c hc
      simpa using ne_of_mem_of_not_mem hc hv
    cases ws with
    | nil =>
      rw [intercalate_one]
      exact List.takeWhile_eq_self_iff.mpr hin
    | cons w ws =>
      rw [intercalate_more, List.takeWhile_append_of_pos hin]
      simp
  unfold isRecord
  rw [hfront, hversion]
  exact decide_eq_true rfl

/-- Directives do no harm to the form of a record. -/
theorem wellFormed_insert {front us back : List Text} (h : wellFormed (front ++ back) = true)
    (hus : ∀ u ∈ us, ∃ q m, Term.parse u = some (.directive q m)) :
    wellFormed (front ++ us ++ back) = true := by
  have hterms : ∀ t ∈ us.filterMap Term.parse, ∃ q m, t = .directive q m := by
    intro t ht
    obtain ⟨u, hu, hparse⟩ := List.mem_filterMap.mp ht
    obtain ⟨q, m, hq⟩ := hus u hu
    rw [hq] at hparse
    cases hparse
    exact ⟨q, m, rfl⟩
  have htarget : (us.filterMap Term.parse).filterMap Term.target = [] := by
    refine List.filterMap_eq_nil_iff.mpr ?_
    intro t ht
    obtain ⟨q, m, rfl⟩ := hterms t ht
    rfl
  have hexp : (us.filterMap Term.parse).filter Term.isExp = [] := by
    refine List.filter_eq_nil_iff.mpr ?_
    intro t ht
    obtain ⟨q, m, rfl⟩ := hterms t ht
    exact Bool.false_ne_true
  have hall : us.all (fun w => (Term.parse w).isSome) = true := by
    refine List.all_eq_true.mpr ?_
    intro u hu
    obtain ⟨q, m, hq⟩ := hus u hu
    rw [hq]
    rfl
  unfold wellFormed at h ⊢
  simp only [List.all_append, List.filterMap_append, List.filter_append, htarget, hexp, hall,
    Bool.and_true, List.append_nil] at h ⊢
  exact h

/-! ## Verdicts -/

/-- A sender, by what the look-ups say of it. -/
structure Sender where
  /-- Whether a mechanism matches. -/
  holds : Text → Text → Bool
  /-- What `check_host` says of another domain. -/
  checked : Text → Result

variable (s : Sender)

/-- The qualifier of a directive that matches. -/
def Term.verdict : Term → Option Qualifier
  | .directive q .all => some q
  | .directive q (.test name argument) => if s.holds name argument then some q else none
  | _ => none

/-- The first directive that matches decides; then the `redirect`; then nothing is said. -/
def evaluate (ts : List Term) : Result :=
  match ts.findSome? (·.verdict s) with
  | some q => q.result
  | none =>
    match ts.findSome? Term.target with
    | some d => if s.checked d = .none then .permerror else s.checked d
    | none => .neutral

def checkHost (r : Text) : Result :=
  if isRecord r then
    match parse r with
    | some ts => evaluate s ts
    | none => .permerror
  else .none

variable {s}

theorem Qualifier.result_eq_pass {q : Qualifier} : q.result = .pass ↔ q = .pass := by
  cases q <;> decide

theorem Term.verdict_isAll {t : Term} (h : t.isAll = true) : ∃ q, t.verdict s = some q := by
  match t, h with
  | .directive q .all, _ => exact ⟨q, rfl⟩

/-- A record passes a sender by a directive or by its `redirect`. -/
theorem evaluate_pass {ts : List Term} : evaluate s ts = .pass ↔
    ts.findSome? (·.verdict s) = some .pass ∨ ts.findSome? (·.verdict s) = none ∧
      ∃ d, ts.findSome? Term.target = some d ∧ s.checked d = .pass := by
  unfold evaluate
  cases hdecide : ts.findSome? (·.verdict s) with
  | some q =>
    show q.result = .pass ↔ _
    rw [Qualifier.result_eq_pass]
    simp
  | none =>
    cases htarget : ts.findSome? Term.target with
    | none => simp
    | some d =>
      show (if s.checked d = .none then Result.permerror else s.checked d) = .pass ↔ _
      by_cases hnone : s.checked d = .none
      · rw [if_pos hnone]
        simp [hnone]
      · rw [if_neg hnone]
        simp

/-- Someone always matches an `all`. -/
theorem decided_of_all {ts : List Term} (hall : ∃ t ∈ ts, t.isAll = true) :
    ts.findSome? (·.verdict s) ≠ none := by
  obtain ⟨t, ht, hisAll⟩ := hall
  obtain ⟨q, hq⟩ := t.verdict_isAll (s := s) hisAll
  intro hnone
  rw [List.findSome?_eq_none_iff.mp hnone t ht] at hq
  cases hq

/-- A term that lets senders pass, or says nothing of them. -/
def Term.permits : Term → Bool
  | .directive .pass (.test _ _) => true
  | _ => false

theorem permits_verdict {us : List Term} (hus : ∀ u ∈ us, u.permits = true) :
    us.findSome? (·.verdict s) = none ∨ us.findSome? (·.verdict s) = some .pass := by
  induction us with
  | nil => exact .inl rfl
  | cons u us ih =>
    obtain ⟨hu, hrest⟩ := List.forall_mem_cons.mp hus
    match u, hu with
    | .directive .pass (.test name argument), _ =>
      have hown : (Term.directive .pass (.test name argument)).verdict s =
          if s.holds name argument then some .pass else none := rfl
      rw [List.findSome?_cons, hown]
      cases s.holds name argument with
      | true => exact .inr rfl
      | false => exact ih hrest

/-- **Permits in front of an `all` take no pass away.** -/
theorem evaluate_insert {front us back : List Term} (hus : ∀ u ∈ us, u.permits = true)
    (hall : ∃ t ∈ back, t.isAll = true) (h : evaluate s (front ++ back) = .pass) :
    evaluate s (front ++ us ++ back) = .pass := by
  have hdecided : (front ++ back).findSome? (·.verdict s) ≠ none := by
    obtain ⟨t, ht, hisAll⟩ := hall
    exact decided_of_all ⟨t, List.mem_append_right _ ht, hisAll⟩
  have hpass : (front ++ back).findSome? (·.verdict s) = some .pass := by
    rcases evaluate_pass.mp h with hpass | ⟨hnone, -⟩
    · exact hpass
    · exact absurd hnone hdecided
  refine evaluate_pass.mpr (.inl ?_)
  rw [List.findSome?_append] at hpass
  rw [List.findSome?_append, List.findSome?_append]
  cases hfront : front.findSome? (·.verdict s) with
  | some q =>
    rw [hfront] at hpass
    exact hpass
  | none =>
    rw [hfront] at hpass
    rcases permits_verdict (s := s) hus with hnone | hsome
    · rw [hnone]
      exact hpass
    · rw [hsome]
      rfl

/-- Terms behind a record without a `redirect` take no pass away. -/
theorem evaluate_extend {ts us : List Term} (hplain : ts.filterMap Term.target = [])
    (h : evaluate s ts = .pass) : evaluate s (ts ++ us) = .pass := by
  refine evaluate_pass.mpr (.inl ?_)
  rw [List.findSome?_append]
  rcases evaluate_pass.mp h with hpass | ⟨-, d, htarget, -⟩
  · rw [hpass]
    rfl
  · have hnone := List.filterMap_eq_nil_iff.mp hplain
    obtain ⟨t, ht, hd⟩ := List.exists_of_findSome?_eq_some htarget
    rw [hnone t ht] at hd
    cases hd

/-- The sender that nothing but `all` matches and every other domain lets pass. -/
def stranger : Sender := ⟨fun _ _ => false, fun _ => .pass⟩

theorem verdict_stranger {t : Term} (h : t.isAll = false) : t.verdict stranger = none := by
  match t, h with
  | .directive _ (.test _ _), _ => rfl
  | .redirect _, _ => rfl
  | .modifier _ _, _ => rfl

/-- The record is good, and hands on the senders that nothing in it matches. -/
def Redirects (r : Text) : Prop :=
  ∃ ts, parse r = some ts ∧ (∀ t ∈ ts, t.isAll = false) ∧ ts.filterMap Term.target ≠ []

/-- A record that lets a sender pass is good. -/
theorem checkHost_pass {r : Text} :
    checkHost s r = .pass ↔ ∃ ts, parse r = some ts ∧ evaluate s ts = .pass := by
  unfold checkHost
  cases hrecord : isRecord r with
  | false =>
    have hnone : parse r = none := by
      unfold parse
      rw [hrecord]
      rfl
    simp [hnone]
  | true =>
    rw [if_pos rfl]
    cases hparse : parse r with
    | none => simp
    | some ts => simp

/-- **A `redirect` lets strangers pass, and an `all` behind it turns them away.** -/
theorem evaluate_stranger {ts : List Term} (hopen : ∀ t ∈ ts, t.isAll = false) :
    (ts.filterMap Term.target ≠ [] → evaluate stranger ts = .pass) ∧
      ∀ us, evaluate stranger (ts ++ us) = .pass → (∀ t ∈ us, t.isAll = false) ∨
        ∃ t ∈ us, t.verdict stranger = some .pass := by
  have hnone : ts.findSome? (·.verdict stranger) = none :=
    List.findSome?_eq_none_iff.mpr fun t ht => verdict_stranger (hopen t ht)
  constructor
  · intro hne
    refine evaluate_pass.mpr (.inr ⟨hnone, ?_⟩)
    cases htarget : ts.findSome? Term.target with
    | some d => exact ⟨d, rfl, rfl⟩
    | none =>
      exact absurd (List.filterMap_eq_nil_iff.mpr (List.findSome?_eq_none_iff.mp htarget)) hne
  · intro us h
    rcases evaluate_pass.mp h with hpass | ⟨hundecided, -⟩
    · rw [List.findSome?_append, hnone] at hpass
      exact .inr (List.exists_of_findSome?_eq_some hpass)
    · refine .inl ?_
      intro t ht
      rw [Bool.eq_false_iff]
      intro hisAll
      exact decided_of_all ⟨t, List.mem_append_right _ ht, hisAll⟩ hundecided

end Novamail.Core.CheckHost

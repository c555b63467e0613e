/-
  Records of tags, `name=value; name=value`, and the grade of a DKIM record.

  `extractTag` takes the first part whose name is the one asked for, whatever its letter case and
  the white space around it, and everything behind the first `=` of that part for its value.  That
  is stated of the text of the record in `extractTag_iff`.
-/
import Novamail.Admin.SpfTerms
import Novamail.Config.Tables

namespace Novamail.Deliverability

open Novamail.Core

/-! ## Tags -/

/-- The value of a part, if its name is this one. -/
def tagValue (tag part : List Char) : Option (List Char) :=
  let t := trim part
  if '=' ∈ t then
    if (trim (t.takeWhile (· ≠ '='))).map Char.toLower = tag.map Char.toLower then
      some (trim (t.dropWhile (· ≠ '=')).tail)
    else none
  else none

/-- `extractTag`. -/
def extractTag (record tag : List Char) : Option (List Char) :=
  (record.splitOn ';').findSome? (tagValue tag)

/-- `stripWs`. -/
def stripWs (s : List Char) : List Char := s.filter (!isSpace ·)

/-- The part is a tag of this name, with the text `u` behind its `=`. -/
def IsTag (tag part u : List Char) : Prop :=
  ∃ n, part = n ++ '=' :: u ∧ '=' ∉ n ∧ (trim n).map Char.toLower = tag.map Char.toLower

theorem trim_dropWhile (s : List Char) : trim (s.dropWhile isSpace) = trim s := by
  unfold trim
  rw [List.dropWhile_idempotent]

theorem rdropWhile_append {α : Type} {p : α → Bool} {t : List α} (s : List α)
    (ht : t.rdropWhile p ≠ []) : (s ++ t).rdropWhile p = s ++ t.rdropWhile p := by
  have hne : t.reverse.dropWhile p ≠ [] := fun hnil => ht (congrArg List.reverse hnil)
  unfold List.rdropWhile
  rw [List.reverse_append, List.dropWhile_append]
  cases hrest : t.reverse.dropWhile p with
  | nil => exact absurd hrest hne
  | cons c cs => simp

/-- The blanks at the end of a text do not matter to its trimmed form. -/
theorem trim_rdropWhile (s : List Char) : trim (s.rdropWhile isSpace) = trim s := by
  rcases exists_first_word (p := isSpace) s with hblank | ⟨gap, w, t, rfl, hgap, hne, hw, ht⟩
  · have hnil : s.rdropWhile isSpace = [] := List.rdropWhile_eq_nil_iff.mpr hblank
    unfold trim
    rw [hnil, List.dropWhile_eq_nil_iff.mpr hblank]
    rfl
  · have hword : (w ++ t).rdropWhile isSpace = w ++ t.rdropWhile isSpace :=
      rdropWhile_append_word hw t
    have hsome : (w ++ t).rdropWhile isSpace ≠ [] := by
      rw [hword]
      exact List.append_ne_nil_of_left_ne_nil hne _
    have hback : (gap ++ w ++ t).rdropWhile isSpace = gap ++ w ++ t.rdropWhile isSpace := by
      rw [List.append_assoc, rdropWhile_append gap hsome, hword, List.append_assoc]
    rw [hback, trim_word hgap hne hw, trim_word hgap hne hw, List.rdropWhile_idempotent]

/-- The trimmed form of a part with an `=` in it. -/
theorem trim_equals (n u : List Char) :
    trim (n ++ '=' :: u) = n.dropWhile isSpace ++ '=' :: u.rdropWhile isSpace := by
  have hequals : isSpace '=' = false := by decide
  have hstop : ('=' :: u).dropWhile isSpace = '=' :: u :=
    List.dropWhile_cons_of_neg (by rw [hequals]; exact Bool.false_ne_true)
  have hfront : (n ++ '=' :: u).dropWhile isSpace = n.dropWhile isSpace ++ '=' :: u := by
    rw [List.dropWhile_append]
    cases hn : n.dropWhile isSpace with
    | nil => simpa using hstop
    | cons c cs => simp
  have hback : ('=' :: u).rdropWhile isSpace = '=' :: u.rdropWhile isSpace :=
    rdropWhile_append_word (w := ['=']) (List.forall_mem_singleton.mpr hequals) u
  unfold trim
  rw [hfront, rdropWhile_append _ (by rw [hback]; exact List.cons_ne_nil _ _), hback]

theorem tagValue_equals {n : List Char} (tag u : List Char) (hn : '=' ∉ n) :
    tagValue tag (n ++ '=' :: u) =
      if (trim n).map Char.toLower = tag.map Char.toLower then some (trim u) else none := by
  have hname : ∀ c ∈ n.dropWhile isSpace, decide (c ≠ '=') = true := by
    intro c hc
    have hmem : c ∈ n := (List.dropWhile_suffix _).mem hc
    simpa using ne_of_mem_of_not_mem hmem hn
  have htake : (n.dropWhile isSpace ++ '=' :: u.rdropWhile isSpace).takeWhile (· ≠ '=') =
      n.dropWhile isSpace := by
    rw [List.takeWhile_append_of_pos hname]
    simp
  have hdrop : (n.dropWhile isSpace ++ '=' :: u.rdropWhile isSpace).dropWhile (· ≠ '=') =
      '=' :: u.rdropWhile isSpace := by
    rw [List.dropWhile_append_of_pos hname]
    simp
  unfold tagValue
  dsimp only
  rw [trim_equals, if_pos (List.mem_append_right _ List.mem_cons_self), htake, hdrop,
    trim_dropWhile, List.tail_cons, trim_rdropWhile]

/-- Trimming takes white space off both ends. -/
theorem exists_trim (s : List Char) : ∃ gap gap', s = gap ++ trim s ++ gap' ∧
    (∀ c ∈ gap, isSpace c = true) ∧ ∀ c ∈ gap', isSpace c = true := by
  refine ⟨s.takeWhile isSpace, (s.dropWhile isSpace).rtakeWhile isSpace, ?_,
    fun c hc => List.mem_takeWhile_imp hc, fun c hc => List.mem_rtakeWhile_imp hc⟩
  unfold trim
  rw [List.append_assoc, List.rdropWhile_append_rtakeWhile, List.takeWhile_append_dropWhile]

theorem mem_of_mem_trim {c : Char} {s : List Char} (h : c ∈ trim s) : c ∈ s := by
  obtain ⟨gap, gap', hs, -, -⟩ := exists_trim s
  rw [hs]
  exact List.mem_append_left _ (List.mem_append_right _ h)

/-- What `extractTag` asks of a part. -/
theorem tagValue_iff {tag part v : List Char} :
    tagValue tag part = some v ↔ ∃ u, IsTag tag part u ∧ v = trim u := by
  constructor
  · intro h
    by_cases hequals : '=' ∈ part
    · obtain ⟨n, u, rfl, hn⟩ := List.eq_append_cons_of_mem hequals
      rw [tagValue_equals tag u hn] at h
      split at h
      · rename_i hname
        cases h
        exact ⟨u, ⟨n, rfl, hn, hname⟩, rfl⟩
      · cases h
    · unfold tagValue at h
      dsimp only at h
      rw [if_neg (mt mem_of_mem_trim hequals)] at h
      cases h
  · rintro ⟨u, ⟨n, rfl, hn, hname⟩, rfl⟩
    rw [tagValue_equals tag u hn, if_pos hname]

/-- A part that is a tag of this name has a value. -/
theorem tagValue_eq_none {tag part : List Char} :
    tagValue tag part = none ↔ ∀ u, ¬IsTag tag part u := by
  constructor
  · intro h u htag
    rw [tagValue_iff.mpr ⟨u, htag, rfl⟩] at h
    cases h
  · intro h
    cases hvalue : tagValue tag part with
    | none => rfl
    | some v =>
      obtain ⟨u, htag, -⟩ := tagValue_iff.mp hvalue
      exact absurd htag (h u)

/-- The text behind the `=` of the first tag of this name. -/
def FirstTag (record tag u : List Char) : Prop :=
  ∃ before part after, record.splitOn ';' = before ++ part :: after ∧
    (∀ b ∈ before, ∀ u, ¬IsTag tag b u) ∧ IsTag tag part u

/-- **`extractTag` finds the first tag of a name.** -/
theorem extractTag_iff {record tag v : List Char} :
    extractTag record tag = some v ↔ ∃ u, FirstTag record tag u ∧ v = trim u := by
  unfold extractTag
  rw [List.findSome?_eq_some_iff]
  constructor
  · rintro ⟨before, part, after, hsplit, hvalue, hnone⟩
    obtain ⟨u, htag, hv⟩ := tagValue_iff.mp hvalue
    exact ⟨u, ⟨before, part, after, hsplit, fun b hb => tagValue_eq_none.mp (hnone b hb), htag⟩,
      hv⟩
  · rintro ⟨u, ⟨before, part, after, hsplit, hnone, htag⟩, hv⟩
    exact ⟨before, part, after, hsplit, tagValue_iff.mpr ⟨u, htag, hv⟩,
      fun b hb => tagValue_eq_none.mpr (hnone b hb)⟩

/-! ## DKIM -/

/-- `gradeDkim`. -/
def gradeDkim (published : Option String) (expectedPublicKey : String) (rotation : Rotation)
    (selector domain : String) : RecordReport :=
  let host := selector ++ "._domainkey." ++ domain
  let expectedRecord := "v=DKIM1; k=rsa; p=" ++ expectedPublicKey
  let wrong : CheckStatus := if rotation = .active then .error else .warning
  if published.getD "" = "" then
    if rotation = .revoked then
      { record := .dkim, selector := some selector, status := .ok, found := none,
        detail := "Revoked selector " ++ selector ++ " is correctly absent." }
    else
      { record := .dkim, selector := some selector, status := wrong, found := none,
        detail := "No DKIM record at " ++ host ++ ".",
        expected := some expectedRecord, fix := some expectedRecord }
  else if rotation = .revoked then
    { record := .dkim, selector := some selector, status := .warning, found := published,
      detail := "Revoked selector " ++ selector ++ " is still published — remove " ++ host ++ "." }
  else
    let publishedKey := (extractTag (published.getD "").toList "p".toList).getD []
    if publishedKey ≠ [] ∧ stripWs publishedKey = stripWs expectedPublicKey.toList then
      { record := .dkim, selector := some selector, status := .ok, found := published,
        detail := "Published key matches the signing key." }
    else
      { record := .dkim, selector := some selector, status := wrong, found := published,
        detail := "Published DKIM key does not match the signing key — update " ++ host ++ ".",
        expected := some expectedRecord, fix := some expectedRecord }

theorem stripWs_gap {gap : List Char} (hgap : ∀ c ∈ gap, isSpace c = true) (s : List Char) :
    stripWs (gap ++ s) = stripWs s := by
  have hnone : gap.filter (!isSpace ·) = [] := by
    refine List.filter_eq_nil_iff.mpr ?_
    intro c hc
    rw [hgap c hc]
    exact Bool.false_ne_true
  unfold stripWs
  rw [List.filter_append, hnone, List.nil_append]

theorem stripWs_gap_right {gap : List Char} (hgap : ∀ c ∈ gap, isSpace c = true) (s : List Char) :
    stripWs (s ++ gap) = stripWs s := by
  have hnone : stripWs gap = [] := by
    rw [← List.append_nil gap, stripWs_gap hgap]
    rfl
  unfold stripWs at hnone ⊢
  rw [List.filter_append, hnone, List.append_nil]

theorem stripWs_trim (s : List Char) : stripWs (trim s) = stripWs s := by
  obtain ⟨gap, gap', hs, hgap, hgap'⟩ := exists_trim s
  have hall : stripWs (gap ++ trim s ++ gap') = stripWs (trim s) := by
    rw [stripWs_gap_right hgap', stripWs_gap hgap]
  rw [← hs] at hall
  exact hall.symm

/-- The value of the first tag `p` is the key, but for white space. -/
def Publishes (record key : List Char) : Prop :=
  ∃ u, FirstTag record "p".toList u ∧ stripWs u = key

/-- A key that can stand in a record: it is not empty, and has no white space and no `;`. -/
structure IsKey (key : String) : Prop where
  some : key ≠ ""
  plain : ∀ c ∈ key.toList, isSpace c = false ∧ c ≠ ';'

section

variable {key : String} {rotation : Rotation} {selector domain : String}

theorem IsKey.stripWs (hkey : IsKey key) : stripWs key.toList = key.toList := by
  refine List.filter_eq_self.mpr ?_
  intro c hc
  rw [(hkey.plain c hc).1]
  rfl

/-- A record without a first tag `p` publishes nothing. -/
theorem not_publishes_nil : ¬Publishes [] key.toList := by
  rintro ⟨u, ⟨before, part, after, hsplit, -, n, rfl, -⟩, -⟩
  have hmem : n ++ '=' :: u ∈ ([] : List Char).splitOn ';' := by
    rw [hsplit]
    exact List.mem_append_right _ List.mem_cons_self
  rw [List.splitOn_nil] at hmem
  simp at hmem

/-- The comparison of the published key with the signing key. -/
theorem publishes_iff {record : List Char} (hkey : IsKey key) :
    Publishes record key.toList ↔ (extractTag record "p".toList).getD [] ≠ [] ∧
      stripWs ((extractTag record "p".toList).getD []) = stripWs key.toList := by
  have hsome : key.toList ≠ [] := mt String.toList_eq_nil_iff.mp hkey.some
  rw [hkey.stripWs]
  constructor
  · rintro ⟨u, hfirst, hu⟩
    rw [extractTag_iff.mpr ⟨u, hfirst, rfl⟩, Option.getD_some, stripWs_trim]
    refine ⟨?_, hu⟩
    intro hnil
    rw [← stripWs_trim, hnil] at hu
    exact hsome hu.symm
  · rintro ⟨hne, hsame⟩
    cases hvalue : extractTag record "p".toList with
    | none =>
      rw [hvalue] at hne
      exact absurd rfl hne
    | some v =>
      obtain ⟨u, hfirst, rfl⟩ := extractTag_iff.mp hvalue
      rw [hvalue, Option.getD_some, stripWs_trim] at hsame
      exact ⟨u, hfirst, hsame⟩

/-- A key that is in use is graded by what is published. -/
theorem gradeDkim_ok_iff (hkey : IsKey key) (huse : rotation = .active ∨ rotation = .retiring)
    (published : Option String) :
    (gradeDkim published key rotation selector domain).status = .ok ↔
      ∃ record, published = some record ∧ Publishes record.toList key.toList := by
  have hused : rotation ≠ .revoked := by
    rcases huse with rfl | rfl <;> decide
  have hwrong : (if rotation = .active then CheckStatus.error else .warning) ≠ .ok := by
    split <;> decide
  unfold gradeDkim
  dsimp only
  by_cases habsent : published.getD "" = ""
  · rw [if_pos habsent, if_neg hused]
    refine iff_of_false hwrong ?_
    rintro ⟨record, rfl, hpublishes⟩
    rw [Option.getD_some] at habsent
    rw [habsent] at hpublishes
    exact not_publishes_nil hpublishes
  · rw [if_neg habsent, if_neg hused]
    cases published with
    | none => exact absurd rfl habsent
    | some record =>
      rw [Option.getD_some]
      by_cases hpublishes : Publishes record.toList key.toList
      · rw [if_pos ((publishes_iff hkey).mp hpublishes)]
        exact iff_of_true rfl ⟨record, rfl, hpublishes⟩
      · rw [if_neg (mt (publishes_iff hkey).mpr hpublishes)]
        refine iff_of_false hwrong ?_
        rintro ⟨record', heq, hother⟩
        cases heq
        exact hpublishes hother

/-- A record that is written from its tags. -/
theorem publishes_written {before after : List String} {name value : String}
    (hbefore : ∀ b ∈ before, ∀ u, ¬IsTag "p".toList b.toList u)
    (hname : '=' ∉ name.toList ∧ (trim name.toList).map Char.toLower = "p".toList)
    (hvalue : stripWs value.toList = key.toList)
    (hparts : ∀ s ∈ before ++ (name ++ "=" ++ value) :: after, ';' ∉ s.toList) :
    Publishes (";".intercalate (before ++ (name ++ "=" ++ value) :: after)).toList key.toList := by
  have hsplit : (";".intercalate (before ++ (name ++ "=" ++ value) :: after)).toList.splitOn ';' =
      before.map String.toList ++ (name ++ "=" ++ value).toList :: after.map String.toList := by
    rw [String.toList_intercalate, ← List.map_cons, ← List.map_append]
    refine List.splitOn_intercalate ';' ?_ ?_
    · intro l hl
      obtain ⟨s, hs, rfl⟩ := List.mem_map.mp hl
      exact hparts s hs
    · simp
  refine ⟨value.toList, ⟨_, _, _, hsplit, ?_, name.toList, ?_, hname.1, ?_⟩, hvalue⟩
  · intro b hb
    obtain ⟨s, hs, rfl⟩ := List.mem_map.mp hb
    exact hbefore s hs
  · simp [String.toList_append]
  · rw [hname.2]
    simp

/-- The record that is suggested for a key publishes it. -/
theorem publishes_expected (hkey : IsKey key) :
    Publishes ("v=DKIM1; k=rsa; p=" ++ key).toList key.toList := by
  have htext : "v=DKIM1; k=rsa; p=" ++ key =
      ";".intercalate (["v=DKIM1", " k=rsa"] ++ (" p" ++ "=" ++ key) :: []) := by
    refine String.toList_injective ?_
    simp [String.toList_append]
  have hothers : ∀ b ∈ ["v=DKIM1", " k=rsa"], tagValue "p".toList b.toList = none := by
    decide
  have hfixed : ∀ s ∈ ["v=DKIM1", " k=rsa"], ';' ∉ s.toList := by simp
  rw [htext]
  refine publishes_written ?_ (by decide) hkey.stripWs ?_
  · intro b hb
    exact tagValue_eq_none.mp (hothers b hb)
  · intro s hs
    rcases List.mem_append.mp hs with hs | hs
    · exact hfixed s hs
    · rw [List.mem_singleton.mp hs, String.toList_append, List.mem_append, not_or]
      exact ⟨by simp, fun hmem => (hkey.plain _ hmem).2 rfl⟩

/-- **The DKIM comparison is exact up to formatting.**  A key in use is graded ok exactly when the
    first tag `p` of the record has it for its value, but for white space; so it is however the
    value is broken up and whatever tags stand around it; and the record that is suggested
    otherwise is graded ok. -/
theorem gradeDkim_exact (hkey : IsKey key) (huse : rotation = .active ∨ rotation = .retiring) :
    (∀ published, (gradeDkim published key rotation selector domain).status = .ok ↔
      ∃ record, published = some record ∧ Publishes record.toList key.toList) ∧
    (∀ before after : List String, ∀ name value : String,
      (∀ b ∈ before, ∀ u, ¬IsTag "p".toList b.toList u) →
      '=' ∉ name.toList ∧ (trim name.toList).map Char.toLower = "p".toList →
      stripWs value.toList = key.toList →
      (∀ s ∈ before ++ (name ++ "=" ++ value) :: after, ';' ∉ s.toList) →
      (gradeDkim (some (";".intercalate (before ++ (name ++ "=" ++ value) :: after))) key rotation
        selector domain).status = .ok) ∧
    (∀ published, (gradeDkim published key rotation selector domain).status ≠ .ok →
      ∃ fix, (gradeDkim published key rotation selector domain).fix = some fix ∧
        (gradeDkim (some fix) key rotation selector domain).status = .ok) := by
  refine ⟨gradeDkim_ok_iff hkey huse, ?_, ?_⟩
  · intro before after name value hbefore hname hvalue hparts
    exact (gradeDkim_ok_iff hkey huse _).mpr
      ⟨_, rfl, publishes_written hbefore hname hvalue hparts⟩
  · intro published hwrong
    refine ⟨"v=DKIM1; k=rsa; p=" ++ key, ?_,
      (gradeDkim_ok_iff hkey huse _).mpr ⟨_, rfl, publishes_expected hkey⟩⟩
    have hused : rotation ≠ .revoked := by
      rcases huse with rfl | rfl <;> decide
    unfold gradeDkim at hwrong ⊢
    dsimp only at hwrong ⊢
    by_cases habsent : published.getD "" = ""
    · rw [if_pos habsent, if_neg hused]
    · rw [if_neg habsent, if_neg hused] at hwrong ⊢
      split
      · rename_i hmatch
        rw [if_pos hmatch] at hwrong
        exact absurd rfl hwrong
      · rfl

end

/-- A key that the resolver has cut into chunks, behind a tag whose name ends in `p`. -/
theorem gradeDkim_exact_chunked :
    (gradeDkim (some "v=DKIM1;hp=x; P = MIIB IjAN==; t=s") "MIIBIjAN==" .active "nm1"
      "example.com").status = .ok := by
  have hkey : IsKey "MIIBIjAN==" := ⟨by decide, forall_mem_of_all (by decide)⟩
  have htext : "v=DKIM1;hp=x; P = MIIB IjAN==; t=s" =
      ";".intercalate (["v=DKIM1", "hp=x"] ++ (" P " ++ "=" ++ " MIIB IjAN==") :: [" t=s"]) := by
    simp
  have hothers : ∀ b ∈ ["v=DKIM1", "hp=x"], tagValue "p".toList b.toList = none := by
    decide
  rw [htext]
  exact (gradeDkim_exact hkey (.inl rfl)).2.1 _ _ _ _
    (fun b hb => tagValue_eq_none.mp (hothers b hb)) (by decide) (by decide)
    (by simp)

end Novamail.Deliverability

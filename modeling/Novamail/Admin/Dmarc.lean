/-
  The DMARC policy, which is read twice: `gradeDmarc` takes the tag `p` of the first DMARC record,
  and `checkDomain` looks for the text `p=quarantine` or `p=reject` anywhere in any record, to tell
  `gradeBimi` whether the domain enforces.
-/
import Novamail.Admin.Tags

namespace Novamail.Deliverability

open Novamail.Core

/-! ## The two readings -/

/-- `/^v=dmarc1\b/i.test(r.trim())`. -/
def isDmarc (r : String) : Bool := (after "v=dmarc1".toList (trim r.toList)).any boundary

/-- The policy that `gradeDmarc` parses, in lowercase; empty without a tag `p`. -/
def policy (rec : String) : List Char :=
  ((extractTag rec.toList "p".toList).getD []).map Char.toLower

/-- `gradeDmarc`. -/
def gradeDmarc (txtRecords : List String) : RecordReport :=
  let recommended := "v=DMARC1; p=reject; rua=mailto:dmarc@<your-domain>; adkim=s; aspf=s"
  match (txtRecords.filter isDmarc).head? with
  | none =>
    { record := .dmarc, status := .error, found := none,
      detail := "No DMARC record at _dmarc — receivers have no policy to apply.",
      expected := some recommended, fix := some recommended }
  | some rec =>
    let p := policy rec
    if p = "none".toList then
      { record := .dmarc, status := .warning, found := some rec,
        detail := "DMARC policy is p=none (monitoring only, not enforcing) — move to " ++
          "quarantine/reject when ready." }
    else if p ≠ "quarantine".toList ∧ p ≠ "reject".toList then
      { record := .dmarc, status := .warning, found := some rec,
        detail := "DMARC policy p=" ++ (if p = [] then "(missing)" else String.ofList p) ++
          " is not a valid enforcing policy." }
    else if (extractTag rec.toList "rua".toList).getD [] = [] then
      { record := .dmarc, status := .warning, found := some rec,
        detail := "DMARC is enforcing (p=" ++ String.ofList p ++
          ") but has no rua= — you get no aggregate reports / failure visibility." }
    else
      { record := .dmarc, status := .ok, found := some rec,
        detail := "DMARC enforcing (p=" ++ String.ofList p ++ ") with aggregate reporting." }

/-- `\s*=\s*(quarantine|reject)` at the start of a text, whatever the case. -/
def namesPolicy (s : List Char) : Bool :=
  match s.dropWhile isSpace with
  | '=' :: cs =>
    (after "quarantine".toList (cs.dropWhile isSpace)).isSome ||
      (after "reject".toList (cs.dropWhile isSpace)).isSome
  | _ => false

/-- `/p\s*=\s*(quarantine|reject)/i.test(s)`. -/
def hasPolicy : List Char → Bool
  | [] => false
  | c :: cs => (c.toLower = 'p' && namesPolicy cs) || hasPolicy cs

/-- `dmarcEnforcing` of `checkDomain`. -/
def dmarcEnforcing (dmarcTxts : List String) : Bool := dmarcTxts.any fun r => hasPolicy r.toList

/-- `gradeBimi`. -/
def gradeBimi (txt : Option String) (dmarcEnforcing : Bool) : RecordReport :=
  match txt with
  | none =>
    { record := .bimi, status := .info, found := none,
      detail := "No BIMI record (optional brand-logo feature)." }
  | some txt =>
    if txt = "" then
      { record := .bimi, status := .info, found := none,
        detail := "No BIMI record (optional brand-logo feature)." }
    else if (extractTag txt.toList "l".toList).getD [] = [] then
      { record := .bimi, status := .warning, found := some txt,
        detail := "BIMI record present but has no logo (l=) URL." }
    else if !dmarcEnforcing then
      { record := .bimi, status := .warning, found := some txt,
        detail := "BIMI needs an enforcing DMARC policy (quarantine/reject) before logos display." }
    else
      { record := .bimi, status := .info, found := some txt,
        detail := "BIMI present with a logo URL." }

/-- `/^v=BIMI1\b/i.test(r.trim())`. -/
def isBimi (r : String) : Bool := (after "v=bimi1".toList (trim r.toList)).any boundary

/-- The DMARC and the BIMI report of `checkDomain`, from the TXT records that were resolved. -/
def dmarcReports (dmarcTxts bimiTxts : List String) : RecordReport × RecordReport :=
  (gradeDmarc dmarcTxts, gradeBimi (bimiTxts.find? isBimi) (dmarcEnforcing dmarcTxts))

/-! ## What they agree on -/

/-- The policy that `gradeDmarc` parses is an enforcing one. -/
def Enforces (dmarcTxts : List String) : Prop :=
  ∃ rec, (dmarcTxts.filter isDmarc).head? = some rec ∧
    policy rec ∈ ["quarantine".toList, "reject".toList]

/-- The text `p=quarantine` or `p=reject` stands in the record, in any case and with any white space
    around the `=`. -/
def Mentions (r : List Char) : Prop :=
  ∃ front p gap gap' word rest, r = front ++ p :: gap ++ '=' :: gap' ++ word ++ rest ∧
    p.toLower = 'p' ∧ (∀ c ∈ gap ++ gap', isSpace c = true) ∧
    word.map Char.toLower ∈ ["quarantine".toList, "reject".toList]

theorem Mentions.infix {r s : List Char} (h : Mentions r) (hin : r <:+: s) : Mentions s := by
  obtain ⟨front, p, gap, gap', word, rest, rfl, hp, hgap, hword⟩ := h
  obtain ⟨before, behind, rfl⟩ := hin
  refine ⟨before ++ front, p, gap, gap', word, rest ++ behind, ?_, hp, hgap, hword⟩
  simp

theorem after_isSome {text s : List Char} :
    (after text s).isSome = true ↔ ∃ word rest, s = word ++ rest ∧ word.map Char.toLower = text := by
  have hlook : (after text s).isSome = true ↔ text <+: s.map Char.toLower := by
    unfold after
    rw [← List.isPrefixOf_iff_prefix]
    split
    · rename_i h
      simp [h]
    · rename_i h
      simp [h]
  rw [hlook]
  constructor
  · rintro ⟨rest, hrest⟩
    obtain ⟨word, rest', rfl, hword, -⟩ := List.map_eq_append_iff.mp hrest.symm
    exact ⟨word, rest', rfl, hword⟩
  · rintro ⟨word, rest, rfl, rfl⟩
    rw [List.map_append]
    exact List.prefix_append _ _

/-- A word that begins with a letter stops the white space in front of it. -/
theorem dropWhile_word {gap word : List Char} (rest : List Char)
    (hgap : ∀ c ∈ gap, isSpace c = true) (hword : word.map Char.toLower ∈
      ["quarantine".toList, "reject".toList]) :
    (gap ++ word ++ rest).dropWhile isSpace = word ++ rest := by
  have hletters : ∀ w ∈ ["quarantine".toList, "reject".toList],
      w ≠ [] ∧ w.all (fun c => isSpace c = false) = true := by decide
  obtain ⟨hne, hall⟩ := hletters _ hword
  have hin := forall_mem_of_all hall
  rw [List.append_assoc, List.dropWhile_append_of_pos hgap]
  cases word with
  | nil => exact absurd rfl hne
  | cons c word =>
    refine List.dropWhile_cons_of_neg ?_
    intro hspace
    have hlow := hin c.toLower List.mem_cons_self
    rw [toLower_space hspace, hspace] at hlow
    cases hlow

theorem namesPolicy_iff {s : List Char} : namesPolicy s = true ↔
    ∃ gap gap' word rest, s = gap ++ '=' :: gap' ++ word ++ rest ∧
      (∀ c ∈ gap ++ gap', isSpace c = true) ∧
      word.map Char.toLower ∈ ["quarantine".toList, "reject".toList] := by
  unfold namesPolicy
  constructor
  · intro h
    split at h
    · rename_i cs hcs
      have hs : s = s.takeWhile isSpace ++ '=' :: cs := by
        rw [← hcs, List.takeWhile_append_dropWhile]
      obtain ⟨word, rest, hrest, hword⟩ : ∃ word rest, cs.dropWhile isSpace = word ++ rest ∧
          word.map Char.toLower ∈ ["quarantine".toList, "reject".toList] := by
        rcases Bool.or_eq_true_iff.mp h with h | h
        · obtain ⟨word, rest, hrest, hword⟩ := after_isSome.mp h
          exact ⟨word, rest, hrest, hword ▸ List.mem_cons_self⟩
        · obtain ⟨word, rest, hrest, hword⟩ := after_isSome.mp h
          exact ⟨word, rest, hrest, hword ▸ List.mem_cons_of_mem _ List.mem_cons_self⟩
      refine ⟨s.takeWhile isSpace, cs.takeWhile isSpace, word, rest, ?_, ?_, hword⟩
      · have hback : cs = cs.takeWhile isSpace ++ (word ++ rest) := by
          rw [← hrest, List.takeWhile_append_dropWhile]
        rw [List.append_assoc, List.append_assoc, List.cons_append, ← hback]
        exact hs
      · intro c hc
        rcases List.mem_append.mp hc with hc | hc
        · exact List.mem_takeWhile_imp hc
        · exact List.mem_takeWhile_imp hc
    · cases h
  · rintro ⟨gap, gap', word, rest, rfl, hgap, hword⟩
    have hequals : isSpace '=' = false := by decide
    have hfront : (gap ++ '=' :: gap' ++ word ++ rest).dropWhile isSpace =
        '=' :: (gap' ++ word ++ rest) := by
      rw [List.append_assoc, List.append_assoc,
        List.dropWhile_append_of_pos fun c hc => hgap c (List.mem_append_left _ hc),
        List.cons_append, List.dropWhile_cons_of_neg (by rw [hequals]; exact Bool.false_ne_true),
        List.append_assoc]
    rw [hfront]
    show ((after "quarantine".toList ((gap' ++ word ++ rest).dropWhile isSpace)).isSome ||
      (after "reject".toList ((gap' ++ word ++ rest).dropWhile isSpace)).isSome) = true
    rw [dropWhile_word rest (fun c hc => hgap c (List.mem_append_right _ hc)) hword,
      Bool.or_eq_true]
    rcases List.mem_cons.mp hword with hword | hword
    · exact .inl (after_isSome.mpr ⟨word, rest, rfl, hword⟩)
    · exact .inr (after_isSome.mpr ⟨word, rest, rfl, List.mem_singleton.mp hword⟩)

/-- What the pattern of `checkDomain` finds. -/
theorem hasPolicy_iff {s : List Char} : hasPolicy s = true ↔ Mentions s := by
  induction s with
  | nil =>
    refine iff_of_false Bool.false_ne_true ?_
    rintro ⟨front, p, gap, gap', word, rest, hs, -⟩
    simp at hs
  | cons c cs ih =>
    show ((decide (c.toLower = 'p') && namesPolicy cs) || hasPolicy cs) = true ↔ _
    rw [Bool.or_eq_true, Bool.and_eq_true, decide_eq_true_eq, namesPolicy_iff, ih]
    constructor
    · rintro (⟨hp, gap, gap', word, rest, rfl, hgap, hword⟩ | hlater)
      · exact ⟨[], c, gap, gap', word, rest, by simp, hp, hgap, hword⟩
      · exact hlater.infix (List.suffix_cons c cs).isInfix
    · rintro ⟨front, p, gap, gap', word, rest, hs, hp, hgap, hword⟩
      cases front with
      | nil =>
        obtain ⟨rfl, rfl⟩ : c = p ∧ cs = gap ++ '=' :: gap' ++ word ++ rest := by
          simpa using hs
        exact .inl ⟨hp, gap, gap', word, rest, rfl, hgap, hword⟩
      | cons d front =>
        obtain ⟨rfl, rfl⟩ : c = d ∧ cs = front ++ p :: gap ++ '=' :: gap' ++ word ++ rest := by
          simpa using hs
        exact .inr ⟨front, p, gap, gap', word, rest, rfl, hp, hgap, hword⟩

/-- The first tag `p` of the first DMARC record names an enforcing policy. -/
def PolicyTag (dmarcTxts : List String) : Prop :=
  ∃ rec u, (dmarcTxts.filter isDmarc).head? = some rec ∧ FirstTag rec.toList "p".toList u ∧
    (trim u).map Char.toLower ∈ ["quarantine".toList, "reject".toList]

theorem enforces_iff {dmarcTxts : List String} : Enforces dmarcTxts ↔ PolicyTag dmarcTxts := by
  unfold Enforces PolicyTag policy
  constructor
  · rintro ⟨rec, hrec, hpolicy⟩
    cases hvalue : extractTag rec.toList "p".toList with
    | none =>
      rw [hvalue] at hpolicy
      have hempty : ([] : List Char).map Char.toLower ∉
          ["quarantine".toList, "reject".toList] := by simp
      exact absurd hpolicy hempty
    | some v =>
      rw [hvalue] at hpolicy
      obtain ⟨u, hfirst, rfl⟩ := extractTag_iff.mp hvalue
      exact ⟨rec, u, hrec, hfirst, hpolicy⟩
  · rintro ⟨rec, u, hrec, hfirst, hu⟩
    refine ⟨rec, hrec, ?_⟩
    rw [extractTag_iff.mpr ⟨u, hfirst, rfl⟩]
    exact hu

theorem infix_of_mem_splitOn {c : Char} {s part : List Char} (h : part ∈ s.splitOn c) :
    part <:+: s := by
  have hin := Core.infix_intercalate c h
  rwa [List.intercalate_splitOn] at hin

/-- An enforcing tag is found by the pattern. -/
theorem mentions_of_tag {r u : List Char} (hfirst : FirstTag r "p".toList u)
    (hu : (trim u).map Char.toLower ∈ ["quarantine".toList, "reject".toList]) : Mentions r := by
  obtain ⟨before, part, behind, hsplit, -, n, rfl, -, hname⟩ := hfirst
  obtain ⟨gap, gap', hn, -, hgap'⟩ := exists_trim n
  obtain ⟨lead, trail, htext, hlead, -⟩ := exists_trim u
  have hp : ∃ p, trim n = [p] ∧ p.toLower = 'p' := by
    match htrim : trim n with
    | [] =>
      rw [htrim] at hname
      exact absurd hname (by simp)
    | [p] =>
      rw [htrim] at hname
      exact ⟨p, rfl, (List.cons.inj hname).1⟩
    | p :: d :: ds =>
      rw [htrim] at hname
      have hlength := congrArg List.length hname
      revert hlength
      simp
  obtain ⟨p, htrim, hlower⟩ := hp
  have hpart : Mentions (n ++ '=' :: u) := by
    refine ⟨gap, p, gap', lead, trim u, trail, ?_, hlower, ?_, hu⟩
    · calc n ++ '=' :: u
          = (gap ++ trim n ++ gap') ++ '=' :: (lead ++ trim u ++ trail) := by rw [← hn, ← htext]
        _ = gap ++ p :: gap' ++ '=' :: lead ++ trim u ++ trail := by
          rw [htrim]
          simp
    · intro c hc
      rcases List.mem_append.mp hc with hc | hc
      · exact hgap' c hc
      · exact hlead c hc
  refine hpart.infix (infix_of_mem_splitOn (c := ';') ?_)
  rw [hsplit]
  exact List.mem_append_right _ List.mem_cons_self

/-- **The two readings agree exactly on these records**: the first tag `p` of the first DMARC
    record names an enforcing policy, or no record has the text of one anywhere. -/
theorem one_reading_iff (dmarcTxts : List String) :
    (dmarcEnforcing dmarcTxts = true ↔ Enforces dmarcTxts) ↔
      PolicyTag dmarcTxts ∨ ∀ r ∈ dmarcTxts, ¬Mentions r.toList := by
  have hflag : dmarcEnforcing dmarcTxts = true ↔ ∃ r ∈ dmarcTxts, Mentions r.toList := by
    unfold dmarcEnforcing
    rw [List.any_eq_true]
    simp only [hasPolicy_iff]
  rw [hflag, enforces_iff]
  constructor
  · intro hsame
    by_cases htag : PolicyTag dmarcTxts
    · exact .inl htag
    · refine .inr ?_
      intro r hr hmentions
      exact htag (hsame.mp ⟨r, hr, hmentions⟩)
  · rintro (htag | hnone)
    · obtain ⟨rec, u, hrec, hfirst, hu⟩ := htag
      have hmem : rec ∈ dmarcTxts := List.mem_of_mem_filter (List.mem_of_mem_head? hrec)
      exact iff_of_true ⟨rec, hmem, mentions_of_tag hfirst hu⟩ ⟨rec, u, hrec, hfirst, hu⟩
    · refine iff_of_false ?_ ?_
      · rintro ⟨r, hr, hmentions⟩
        exact hnone r hr hmentions
      · rintro ⟨rec, u, hrec, hfirst, hu⟩
        have hmem : rec ∈ dmarcTxts := List.mem_of_mem_filter (List.mem_of_mem_head? hrec)
        exact hnone rec hmem (mentions_of_tag hfirst hu)

/-- The policy of the subdomains is read as the policy of the domain, and the BIMI record is graded
    as that of a domain that enforces. -/
theorem subdomain_policy :
    ¬(dmarcEnforcing ["v=DMARC1; p=none; sp=reject"] = true ↔
      Enforces ["v=DMARC1; p=none; sp=reject"]) ∧
    (dmarcReports ["v=DMARC1; p=none; sp=reject"] ["v=BIMI1; l=https://example.com/l.svg"]).1.status =
      .warning ∧
    (dmarcReports ["v=DMARC1; p=none; sp=reject"] ["v=BIMI1; l=https://example.com/l.svg"]).2.detail =
      "BIMI present with a logo URL." := by
  refine ⟨?_, by decide +kernel, by decide⟩
  intro hsame
  obtain ⟨rec, hrec, hpolicy⟩ := hsame.mp (by decide)
  have hone : (["v=DMARC1; p=none; sp=reject"].filter isDmarc).head? =
      some "v=DMARC1; p=none; sp=reject" := by decide
  rw [hone] at hrec
  cases hrec
  revert hpolicy
  decide +kernel

end Novamail.Deliverability

/-
  The deliverability cache: `checkDomain`, `persistCheck`, `readCachedMap`.

  A report is a list of graded records.  `persistCheck` replaces the rows of its domain in one
  transaction, and calls of it overlap: the scheduler of each replica, the check buttons and every
  reader that finds a domain uncached write the same rows.  Nothing locks a domain.  What keeps two
  reports from mixing is the primary key, since every report has its one SPF record
  (`cached_report`).
-/
import Novamail.Admin.Alerts
import Novamail.Admin.Deliverability
import Novamail.Admin.Dmarc
import Novamail.Admin.JobText
import Novamail.Core.ReadCommitted

namespace Novamail.Deliverability

open Novamail.Admin (JsDate)
open Novamail.Alerts (DomainReport)
open Novamail.Core Novamail.Core.ReadCommitted

/-! ## The other records -/

/-- `gradeMx`. -/
def gradeMx (exchanges : List String) : RecordReport :=
  if exchanges = [] then
    { record := .mx, status := .info, found := none
      detail := "No MX — this domain can't receive bounces or replies. Not required for " ++
        "relay-only sending." }
  else
    { record := .mx, status := .info, found := some (", ".intercalate exchanges)
      detail := "MX present (" ++ toString exchanges.length ++ " host" ++
        (if 1 < exchanges.length then "s" else "") ++ ")." }

/-- `/^v=TLSRPTv1\b/i.test(r.trim())`. -/
def isTlsRpt (r : String) : Bool := (after "v=tlsrptv1".toList (trim r.toList)).any boundary

/-- `gradeTlsRpt`. -/
def gradeTlsRpt (txtRecords : List String) : RecordReport :=
  match txtRecords.find? isTlsRpt with
  | none =>
    { record := .tlsRpt, status := .info, found := none
      detail := "No TLS-RPT record — no reports of inbound TLS delivery failures (optional)." }
  | some rec =>
    { record := .tlsRpt, status := .info, found := some rec, detail := "TLS-RPT present." }

/-- `/^v=STSv1\b/i.test(r.trim())`. -/
def isSts (r : String) : Bool := (after "v=stsv1".toList (trim r.toList)).any boundary

/-- The group of `/mode:\s*(\w+)/i` in its first match. -/
def modeOf : List Char → Option (List Char)
  | [] => none
  | c :: cs =>
    match (after "mode:".toList (c :: cs)).map fun s => (s.dropWhile isSpace).takeWhile isWord with
    | some (w :: ws) => some (w :: ws)
    | _ => modeOf cs

/-- `gradeMtaSts`. -/
def gradeMtaSts (txt policy : Option String) : RecordReport :=
  let txt := txt.filter (· ≠ "")
  if txt = none then
    { record := .mtaSts, status := .info, found := none
      detail := "No MTA-STS record — inbound TLS isn't enforced via MTA-STS (optional, " ++
        "receiving-side)." }
  else
    match policy.filter (· ≠ "") with
    | none =>
      { record := .mtaSts, status := .warning, found := txt
        detail := "MTA-STS DNS record present but its policy file " ++
          "(https://mta-sts.<domain>/.well-known/mta-sts.txt) is unreachable or invalid." }
    | some policy =>
      let mode := String.ofList (((modeOf policy.toList).getD []).map Char.toLower)
      if mode = "enforce" then
        { record := .mtaSts, status := .info, found := txt, detail := "MTA-STS enforcing." }
      else if mode = "testing" then
        { record := .mtaSts, status := .info, found := txt
          detail := "MTA-STS in testing mode (not yet enforcing)." }
      else
        { record := .mtaSts, status := .warning, found := txt
          detail := "MTA-STS policy mode=" ++ (if mode = "" then "(none)" else mode) ++
            " — not enforcing." }

/-- `rollup`. -/
def rollup (records : List RecordReport) : CheckStatus :=
  if records.any (·.status = .error) then .error
  else if records.any (·.status = .warning) then .warning
  else .ok

/-! ## The check of a domain -/

/-- A row of `dkim_keys`, as `checkDomain` reads it. -/
structure KeyRow where
  domain : String
  selector : String
  publicKey : String
  rotation : Rotation
  deriving DecidableEq, Repr

/-- The tables that a check reads.  A selector is unique in its domain. -/
structure Tables where
  keys : List KeyRow
  rules : List RuleRow
  providers : List ProviderEntry
  unique : (keys.map fun k => (k.domain, k.selector)).Nodup

/-- What the network answers; a failed lookup answers nothing. -/
structure Network where
  txt : String → List String
  mx : String → List String
  /-- `safeFetchText`. -/
  fetch : String → Option String

/-- The DKIM reports: one for each key of the domain, or the one that there is none. -/
def dkimReports (tables : Tables) (net : Network) (domain : String) : List RecordReport :=
  let keys := tables.keys.filter (·.domain = domain)
  if keys = [] then
    [{ record := .dkim, status := .warning, found := none
       detail := "No DKIM key configured in NovaMail for this domain." }]
  else
    keys.map fun k =>
      gradeDkim (net.txt (k.selector ++ "._domainkey." ++ domain)).head? k.publicKey k.rotation
        k.selector domain

/-- The MTA-STS report; the policy is fetched when there is a record. -/
def stsReport (net : Network) (domain : String) : RecordReport :=
  let txt := (net.txt ("_mta-sts." ++ domain)).find? isSts
  gradeMtaSts txt
    (txt.bind fun _ => net.fetch ("https://mta-sts." ++ domain ++ "/.well-known/mta-sts.txt"))

/-- The records of `checkDomain`. -/
def checkRecords (tables : Tables) (net : Network) (domain : String) : List RecordReport :=
  let policies := dmarcReports (net.txt ("_dmarc." ++ domain)) (net.txt ("default._bimi." ++ domain))
  dkimReports tables net domain ++
    [spfReport tables.rules tables.providers domain (net.txt domain), policies.1,
      gradeMx (net.mx domain), gradeTlsRpt (net.txt ("_smtp._tls." ++ domain)),
      stsReport net domain, policies.2]

/-- `checkDomain`. -/
def checkDomain (tables : Tables) (net : Network) (domain : String) (now : JsDate) : DomainReport :=
  { domain := domain, checkedAt := String.ofList now.1.1.iso
    status := rollup (checkRecords tables net domain), records := checkRecords tables net domain }

/-- The report that `getAllReports` makes of a check that threw. -/
def failedCheck (domain message : String) (now : JsDate) : DomainReport :=
  { domain := domain, checkedAt := String.ofList now.1.1.iso, status := .error
    records := [{ record := .spf, status := .error, found := none
                  detail := "check failed: " ++ message }] }

/-- A report that the service makes at a moment. -/
inductive Made (now : JsDate) : DomainReport → Prop where
  | checked (tables : Tables) (net : Network) (domain : String) :
      Made now (checkDomain tables net domain now)
  | failed (domain message : String) : Made now (failedCheck domain message now)

/-! ## The cache -/

/-- `domain_dns_checks`; the primary key is the domain, the record and the selector.  A `Date` goes
    into the column and comes out of it as its ISO text. -/
structure CheckRow where
  domain : String
  record : RecordKind
  selector : String
  status : CheckStatus
  found : Option String
  expected : Option String
  detail : Option String
  fix : Option String
  checkedAt : JsDate
  deriving DecidableEq

/-- The row that `persistCheck` inserts for a record. -/
def rowOf (domain : String) (now : JsDate) (r : RecordReport) : CheckRow :=
  { domain := domain, record := r.record, selector := r.selector.getD "", status := r.status
    found := r.found, expected := r.expected, detail := some r.detail, fix := r.fix
    checkedAt := now }

/-- The `text` columns of Postgres take any character but NUL. -/
def textual (s : String) : Bool := !s.toList.contains (Char.ofNat 0)

/-- The columns take the row.  A TXT answer may hold a NUL. -/
def CheckRow.storable (r : CheckRow) : Bool :=
  textual r.domain && textual r.selector && r.found.all textual && r.expected.all textual &&
    r.detail.all textual && r.fix.all textual

/-- The record that a reader makes of a row. -/
def recordOf (r : CheckRow) : RecordReport :=
  { record := r.record, selector := if r.selector = "" then none else some r.selector
    status := r.status, found := r.found, expected := r.expected, detail := r.detail.getD ""
    fix := r.fix }

/-- One turn of the loop in `readCachedMap`: the record goes to the report of its domain, and a
    domain without one gets one. -/
def addRow (reports : List DomainReport) (r : CheckRow) : List DomainReport :=
  if reports.any (·.domain = r.domain) then
    reports.map fun rep =>
      if rep.domain = r.domain then { rep with records := rep.records ++ [recordOf r] } else rep
  else
    reports ++ [{ domain := r.domain, checkedAt := String.ofList r.checkedAt.1.1.iso, status := .ok
                  records := [recordOf r] }]

/-- `readCachedMap`: the values of the map, in the order in which they came into it. -/
def readCachedMap (rows : List CheckRow) : List DomainReport :=
  (rows.foldl addRow []).map fun rep => { rep with status := rollup rep.records }

/-- `cached.get(domain)`. -/
def cachedReport (rows : List CheckRow) (domain : String) : Option DomainReport :=
  (readCachedMap rows).find? (·.domain = domain)

/-- The cached branch of `GET /api/deliverability/:domain`. -/
def readOne (rows : List CheckRow) (domain : String) : Option DomainReport :=
  match rows.filter (·.domain = domain) with
  | [] => none
  | r :: rs =>
    some { domain := domain, checkedAt := String.ofList r.checkedAt.1.1.iso
           status := rollup ((r :: rs).map recordOf), records := (r :: rs).map recordOf }

/-- A call of `persistCheck`. -/
structure PersistCheck where
  report : DomainReport
  now : JsDate
  made : Made now report

/-- What of a record the primary key holds. -/
def RecordReport.key (r : RecordReport) : RecordKind × String := (r.record, r.selector.getD "")

/-- The transactions of all calls there are, numbered. -/
def plan (calls : Nat → PersistCheck) : Plan Nat String (RecordKind × String) CheckRow where
  part t := (calls t).report.domain
  rows t := (calls t).report.records.map fun r =>
    (r.key, rowOf (calls t).report.domain (calls t).now r)
  takes r := r.storable = true

/-! ## The keys of a report -/

theorem key_gradeSpf (txts required : List String) : (gradeSpf txts required).key = (.spf, "") := by
  unfold gradeSpf
  repeat' split
  all_goals rfl

theorem key_gradeDmarc (txts : List String) : (gradeDmarc txts).key = (.dmarc, "") := by
  unfold gradeDmarc
  dsimp only
  repeat' split
  all_goals rfl

theorem key_gradeMx (exchanges : List String) : (gradeMx exchanges).key = (.mx, "") := by
  unfold gradeMx
  split
  all_goals rfl

theorem key_gradeTlsRpt (txts : List String) : (gradeTlsRpt txts).key = (.tlsRpt, "") := by
  unfold gradeTlsRpt
  split
  all_goals rfl

theorem key_gradeMtaSts (txt policy : Option String) :
    (gradeMtaSts txt policy).key = (.mtaSts, "") := by
  unfold gradeMtaSts
  dsimp only
  repeat' split
  all_goals rfl

theorem key_gradeBimi (txt : Option String) (enforcing : Bool) :
    (gradeBimi txt enforcing).key = (.bimi, "") := by
  unfold gradeBimi
  repeat' split
  all_goals rfl

theorem key_gradeDkim (published : Option String) (key : String) (rotation : Rotation)
    (selector domain : String) :
    (gradeDkim published key rotation selector domain).key = (.dkim, selector) := by
  unfold gradeDkim
  dsimp only
  repeat' split
  all_goals rfl

/-- The keys of the DKIM reports differ, for the selectors of a domain do. -/
theorem nodup_dkim (tables : Tables) (net : Network) (domain : String) :
    ((dkimReports tables net domain).map RecordReport.key).Nodup := by
  unfold dkimReports
  dsimp only
  split
  · exact List.pairwise_singleton _ _
  · have hsub := (tables.unique.sublist (List.filter_sublist.map _) :
      ((tables.keys.filter (·.domain = domain)).map fun k => (k.domain, k.selector)).Nodup)
    rw [List.map_map]
    refine List.Nodup.map_on ?_ (List.Nodup.of_map _ hsub)
    intro a ha b hb heq
    simp only [Function.comp_apply, key_gradeDkim, Prod.mk.injEq, true_and] at heq
    refine List.inj_on_of_nodup_map hsub ha hb (Prod.ext ?_ heq)
    exact (of_decide_eq_true (List.mem_filter.mp ha).2).trans
      (of_decide_eq_true (List.mem_filter.mp hb).2).symm

theorem dkim_of_mem {tables : Tables} {net : Network} {domain : String}
    {k : RecordKind × String} (h : k ∈ (dkimReports tables net domain).map RecordReport.key) :
    k.1 = .dkim := by
  obtain ⟨r, hr, rfl⟩ := List.mem_map.mp h
  unfold dkimReports at hr
  dsimp only at hr
  split at hr
  · rw [List.mem_singleton.mp hr]
    rfl
  · obtain ⟨row, -, rfl⟩ := List.mem_map.mp hr
    rw [key_gradeDkim]

theorem map_key_checkRecords (tables : Tables) (net : Network) (domain : String) :
    (checkRecords tables net domain).map RecordReport.key =
      (dkimReports tables net domain).map RecordReport.key ++
        [(.spf, ""), (.dmarc, ""), (.mx, ""), (.tlsRpt, ""), (.mtaSts, ""), (.bimi, "")] := by
  unfold checkRecords
  simp only [List.map_append, List.map_cons, List.map_nil, spfReport, stsReport, dmarcReports,
    key_gradeSpf, key_gradeDmarc, key_gradeMx, key_gradeTlsRpt, key_gradeMtaSts, key_gradeBimi]

/-- **The rows of a report do not collide**, and one of them is its SPF record. -/
theorem Made.keys {now : JsDate} {report : DomainReport} (h : Made now report) :
    (report.records.map RecordReport.key).Nodup ∧
      (.spf, "") ∈ report.records.map RecordReport.key := by
  cases h with
  | checked tables net domain =>
    show ((checkRecords tables net domain).map _).Nodup ∧ _ ∈ (checkRecords _ _ _).map _
    rw [map_key_checkRecords]
    refine ⟨List.nodup_append.mpr ⟨nodup_dkim tables net domain, by decide, ?_⟩, ?_⟩
    · intro a ha b hb heq
      have hkind := dkim_of_mem ha
      rw [heq] at hkind
      simp only [List.mem_cons, List.not_mem_nil, or_false] at hb
      rcases hb with rfl | rfl | rfl | rfl | rfl | rfl
      all_goals cases hkind
    · exact List.mem_append_right _ List.mem_cons_self
  | failed domain message => exact ⟨List.pairwise_singleton _ _, List.mem_singleton.mpr rfl⟩

theorem Made.status {now : JsDate} {report : DomainReport} (h : Made now report) :
    report.status = rollup report.records ∧ report.checkedAt = String.ofList now.1.1.iso := by
  cases h with
  | checked | failed => exact ⟨rfl, rfl⟩

/-- The key that every report has, whatever its domain: the SPF record's. -/
def spfKey (_ : String) : RecordKind × String := (.spf, "")

theorem anchored (calls : Nat → PersistCheck) (t : Nat) :
    spfKey ((plan calls).part t) ∈ ((plan calls).rows t).map (·.1) := by
  show _ ∈ ((calls t).report.records.map _).map _
  rw [List.map_map]
  exact (calls t).made.keys.2

/-! ## Reading the cache -/

/-- A record as it comes out of the cache: an empty selector is none. -/
def stored (r : RecordReport) : RecordReport := { r with selector := r.selector.filter (· ≠ "") }

theorem recordOf_rowOf (domain : String) (now : JsDate) (r : RecordReport) :
    recordOf (rowOf domain now r) = stored r := by
  obtain ⟨record, selector, status, found, expected, detail, fix⟩ := r
  unfold recordOf rowOf stored
  cases selector with
  | none => rfl
  | some selector =>
    by_cases hempty : selector = ""
    · subst hempty
      rfl
    · simp only [Option.getD_some, Option.filter_some, ne_eq, hempty, not_false_eq_true,
        decide_true, if_true, if_false]

theorem rollup_congr {l l' : List RecordReport}
    (h : ∀ st, (∃ r ∈ l, r.status = st) ↔ ∃ r ∈ l', r.status = st) : rollup l = rollup l' := by
  have hany : ∀ st, l.any (·.status = st) = l'.any (·.status = st) := by
    intro st
    rw [Bool.eq_iff_iff]
    simpa only [List.any_eq_true, decide_eq_true_eq] using h st
  unfold rollup
  rw [hany, hany]

theorem rollup_perm {l l' : List RecordReport} (h : l.Perm l') : rollup l = rollup l' := by
  refine rollup_congr fun st => ?_
  simp only [h.mem_iff]

theorem rollup_stored (l : List RecordReport) : rollup (l.map stored) = rollup l := by
  refine rollup_congr fun st => ?_
  simp only [List.mem_map, exists_exists_and_eq_and]
  rfl

/-- What the loop of `readCachedMap` has made of the rows of a domain. -/
def gathered (domain : String) : List CheckRow → Option DomainReport
  | [] => none
  | r :: rs =>
    some { domain := domain, checkedAt := String.ofList r.checkedAt.1.1.iso, status := .ok
           records := (r :: rs).map recordOf }

/-- The report of a domain after one more row. -/
theorem find_addRow (reports : List DomainReport) (r : CheckRow) (d : String) :
    (addRow reports r).find? (·.domain = d) =
      if r.domain = d then
        some (((reports.find? (·.domain = d)).map fun rep =>
          { rep with records := rep.records ++ [recordOf r] }).getD
            { domain := r.domain, checkedAt := String.ofList r.checkedAt.1.1.iso, status := .ok
              records := [recordOf r] })
      else reports.find? (·.domain = d) := by
  by_cases hany : reports.any (·.domain = r.domain) = true
  · rw [addRow, if_pos hany, List.find?_map]
    have hsame : (fun rep : DomainReport => decide (rep.domain = d)) ∘ (fun rep : DomainReport =>
        if rep.domain = r.domain then { rep with records := rep.records ++ [recordOf r] }
        else rep) = fun rep => decide (rep.domain = d) := by
      funext rep
      by_cases hrep : rep.domain = r.domain
      · simp only [Function.comp_apply, if_pos hrep]
      · simp only [Function.comp_apply, if_neg hrep]
    rw [hsame]
    cases hfind : reports.find? (·.domain = d) with
    | none =>
      have hne : ¬r.domain = d := by
        rintro rfl
        obtain ⟨rep, hrep, hdom⟩ := List.any_eq_true.mp hany
        exact List.find?_eq_none.mp hfind rep hrep hdom
      rw [if_neg hne]
      rfl
    | some rep =>
      have hdom : rep.domain = d := of_decide_eq_true
        (List.find?_some (p := fun rep : DomainReport => decide (rep.domain = d)) hfind)
      by_cases hd : r.domain = d
      · rw [if_pos hd, Option.map_some, if_pos (hdom.trans hd.symm)]
        rfl
      · rw [if_neg hd, Option.map_some, if_neg fun heq => hd (heq.symm.trans hdom)]
  · rw [addRow, if_neg hany, List.find?_append]
    by_cases hd : r.domain = d
    · have hnone : reports.find? (·.domain = d) = none := by
        refine List.find?_eq_none.mpr fun rep hrep hdom => hany ?_
        exact List.any_eq_true.mpr ⟨rep, hrep, hd ▸ hdom⟩
      rw [if_pos hd, hnone, List.find?_singleton, if_pos (decide_eq_true hd)]
      rfl
    · rw [if_neg hd, List.find?_singleton, if_neg fun heq => hd (of_decide_eq_true heq),
        Option.or_none]

/-- The loop keeps the reports of the domains apart, each with the rows of its domain in order. -/
theorem find_foldl_addRow (rows : List CheckRow) (d : String) :
    (rows.foldl addRow []).find? (·.domain = d) = gathered d (rows.filter (·.domain = d)) := by
  induction rows using List.reverseRecOn with
  | nil => rfl
  | append_singleton rows r ih =>
    rw [List.foldl_concat, find_addRow, ih, List.filter_append]
    by_cases hd : r.domain = d
    · rw [if_pos hd, List.filter_cons, if_pos (decide_eq_true hd), List.filter_nil]
      cases rows.filter (·.domain = d) with
      | nil =>
        rw [← hd]
        rfl
      | cons r₀ rs => simp only [gathered, Option.map_some, Option.getD_some, List.cons_append,
          List.map_cons, List.map_append, List.map_nil]
    · rw [if_neg hd, List.filter_cons, if_neg fun heq => hd (of_decide_eq_true heq),
        List.filter_nil, List.append_nil]

/-- Both ways to read a domain from the cache give the same. -/
theorem cachedReport_eq_readOne (rows : List CheckRow) (d : String) :
    cachedReport rows d = readOne rows d := by
  unfold cachedReport readCachedMap readOne
  rw [List.find?_map]
  show ((rows.foldl addRow []).find? (·.domain = d)).map _ = _
  rw [find_foldl_addRow]
  cases rows.filter (·.domain = d) with
  | nil => rfl
  | cons r rs => rfl

/-! ## Two readers that find a domain uncached -/

/-- A moment of the example. -/
def moment : JsDate := ⟨⟨⟨2026, 1, 2, 3, 4, 5, 0, 0⟩, by decide⟩, by decide⟩

/-- The first reader's check timed out, that of every other was refused. -/
def uncached (t : Nat) : PersistCheck where
  report := failedCheck "example.com" (if t = 0 then "timeout" else "refused") moment
  now := moment
  made := .failed ..

/-- Both delete nothing; the second has to wait for the key, and fails when the first commits. -/
theorem exists_overlap : ∃ s, s.live.map (·.row.2) = [rowOf "example.com" moment
      { record := .spf, status := .error, found := none, detail := "check failed: timeout" }] ∧
    Trace (system (plan uncached)) anyStep
      [.start 0, .start 1, .deleted 0, .deleted 1, .insert 0, .commit 0, .abort 1] s := by
  have hinit : (system (plan uncached)).init ⟨[], fun _ => .idle⟩ := ⟨rfl, fun _ => rfl⟩
  refine ⟨_, ?_, (Trace.init hinit).extend (.cons (.start rfl (.refl _)) (.cons (.start rfl (.refl _))
    (.cons (.deleted rfl) (.cons (.deleted rfl) (.cons (.insert rfl ?_ ?_ List.not_mem_nil ?_)
      (.cons (.commit rfl) (.cons (.abort ?_) (.nil _))))))))⟩
  · rfl
  · show CheckRow.storable _ = true
    decide
  · exact List.forall_mem_nil _
  · intro u hu _
    by_cases h1 : u = 1
    · subst h1
      exact List.not_mem_nil
    · rw [move_ne _ _ h1, move_ne _ _ hu, move_ne _ _ h1, move_ne _ _ hu]
      exact List.not_mem_nil
  · intro h
    cases h

/-! ## The cache over all interleavings -/

/-- A report read back: the same check, with its records in some order. -/
structure Recalls (rep report : DomainReport) : Prop where
  domain : rep.domain = report.domain
  checkedAt : rep.checkedAt = report.checkedAt
  status : rep.status = report.status
  records : rep.records.Perm (report.records.map stored)

/-- The rows of a report, in any order and among those of other domains, give it back. -/
theorem Made.recalled {now : JsDate} {report : DomainReport} (h : Made now report)
    {rows : List CheckRow} (hrows : (rows.filter (·.domain = report.domain)).Perm
      (report.records.map (rowOf report.domain now))) :
    ∃ rep, cachedReport rows report.domain = some rep ∧ Recalls rep report := by
  rw [cachedReport_eq_readOne]
  unfold readOne
  have hrecords : ((rows.filter (·.domain = report.domain)).map recordOf).Perm
      (report.records.map stored) := by
    refine (hrows.map recordOf).trans ?_
    rw [List.map_map]
    refine List.Perm.of_eq (List.map_congr_left fun r _ => ?_)
    exact recordOf_rowOf report.domain now r
  cases hmine : rows.filter (·.domain = report.domain) with
  | nil =>
    -- a report has at least its SPF record
    rw [hmine, List.nil_perm, List.map_eq_nil_iff] at hrows
    have hspf := h.keys.2
    rw [hrows] at hspf
    cases hspf
  | cons r rs =>
    rw [hmine] at hrecords hrows
    obtain ⟨hstatus, hchecked⟩ := h.status
    refine ⟨_, rfl, rfl, ?_, ?_, hrecords⟩
    · obtain ⟨r', -, hr'⟩ := List.mem_map.mp (hrows.mem_iff.mp List.mem_cons_self)
      rw [hchecked, ← hr']
      rfl
    · rw [hstatus, rollup_perm hrecords, rollup_stored]

section

variable {calls : Nat → PersistCheck} {es : List (ReadCommitted.Event Nat)}
  {s : ReadCommitted.State Nat (RecordKind × String) CheckRow}
  {ok : ReadCommitted.State Nat (RecordKind × String) CheckRow → ReadCommitted.Event Nat → Prop}

/-- What a reader finds of a domain: the rows of the last call for it that has committed. -/
theorem rows_of_trace (h : Trace (system (plan calls)) ok es s) {rows : List CheckRow}
    (hrows : rows.Perm (s.live.map (·.row.2))) (d : String) :
    (rows.filter (·.domain = d)).Perm
      ((content (plan calls) (lastCommit (plan calls) es d)).map (·.row.2)) := by
  have hinv := inv_of_trace (anchored calls) h
  refine (hrows.filter _).trans (List.Perm.of_eq ?_)
  rw [List.filter_map, ← table_of_trace (anchored calls) h d, State.table]
  refine congrArg _ (List.filter_congr fun v hv => ?_)
  obtain ⟨p, hp, hv⟩ := List.mem_map.mp (hinv.mem_content hv)
  obtain ⟨r, -, rfl⟩ := List.mem_map.mp hp
  rw [← hv]
  rfl

/-- **Reports do not mix.**  However the calls of `persistCheck` overlap, and whichever of them
    fail, a reader at any time gets for each domain the whole report of the last call that has
    committed, and none where none has. -/
theorem cached_report (h : Trace (system (plan calls)) ok es s) {rows : List CheckRow}
    (hrows : rows.Perm (s.live.map (·.row.2))) (d : String) :
    Option.Rel Recalls (cachedReport rows d)
      ((lastCommit (plan calls) es d).map fun t => (calls t).report) := by
  have hfound := rows_of_trace h hrows d
  have hinv := inv_of_trace (anchored calls) h
  cases hlast : lastCommit (plan calls) es d with
  | none =>
    rw [hlast] at hfound
    rw [cachedReport_eq_readOne, readOne, List.perm_nil.mp hfound]
    exact .none
  | some t =>
    obtain rfl : (calls t).report.domain = d := (hinv.ended d t hlast).2
    rw [hlast] at hfound
    have hrows' : (rows.filter (·.domain = (calls t).report.domain)).Perm
        ((calls t).report.records.map (rowOf (calls t).report.domain (calls t).now)) := by
      refine hfound.trans (List.Perm.of_eq ?_)
      show (((calls t).report.records.map _).map _).map _ = _
      rw [List.map_map, List.map_map]
      rfl
    obtain ⟨rep, hrep, hrecalls⟩ := (calls t).made.recalled hrows'
    rw [hrep]
    exact .some hrecalls

/-- Of two readers that found the domain uncached, the first one's report is there. -/
theorem cached_report_overlap : ∃ es s rows, Trace (system (plan uncached)) anyStep es s ∧
    rows.Perm (s.live.map (·.row.2)) ∧ rows.length = 1 ∧
    Option.Rel Recalls (cachedReport rows "example.com")
      ((lastCommit (plan uncached) es "example.com").map fun t => (uncached t).report) := by
  obtain ⟨s, hlive, htrace⟩ := exists_overlap
  exact ⟨_, s, _, htrace, .refl _, congrArg List.length hlive, cached_report htrace (.refl _) _⟩

/-- The columns take every row of the report. -/
def PersistCheck.storable (call : PersistCheck) : Bool :=
  call.report.records.all fun r => (rowOf call.report.domain call.now r).storable

theorem takes_rows (calls : Nat → PersistCheck) (t : Nat) :
    (∀ r ∈ (plan calls).rows t, (plan calls).takes r.2) ↔ (calls t).storable = true := by
  unfold PersistCheck.storable
  rw [List.all_eq_true]
  exact List.forall_mem_map

/-- **A report gets into the cache**: a call that meets no other commits unless a text of its report
    has a NUL, whatever keys and answers it is made of, and from then on the report is what is
    read. -/
theorem persistCheck_alone (h : Trace (system (plan calls)) anyStep es s) {t : Nat}
    (hidle : s.phase t = .idle) (hquiet : Quiet s t) :
    ((∃ es' s', (∀ e ∈ es', e.tx = t) ∧
      Trace (system (plan calls)) anyStep (es ++ es' ++ [.commit t]) s') ↔
        (calls t).storable = true) ∧
    ∀ es' s', Trace (system (plan calls)) anyStep (es ++ es' ++ [.commit t]) s' →
      ∀ rows : List CheckRow, rows.Perm (s'.live.map (·.row.2)) →
        ∃ rep, cachedReport rows (calls t).report.domain = some rep ∧
          Recalls rep (calls t).report := by
  have hkeys : (((plan calls).rows t).map (·.1)).Nodup := by
    show (((calls t).report.records.map _).map _).Nodup
    rw [List.map_map]
    exact (calls t).made.keys.1
  refine ⟨?_, fun es' s' h' rows hrows => ?_⟩
  · rw [commits_alone_iff (anchored calls) h hidle hquiet, and_iff_right hkeys, takes_rows]
  have hlast : lastCommit (plan calls) (es ++ es' ++ [.commit t]) (calls t).report.domain =
      some t := by
    rw [lastCommit_concat]
    exact Function.update_self ..
  have hrel := cached_report h' hrows (calls t).report.domain
  rw [hlast] at hrel
  cases hrep : cachedReport rows (calls t).report.domain with
  | none =>
    rw [hrep] at hrel
    cases hrel
  | some rep =>
    rw [hrep] at hrel
    cases hrel with
    | some hrecalls => exact ⟨rep, rfl, hrecalls⟩

/-- A call on the empty table gets its report in. -/
theorem persistCheck_alone_empty : ∃ es s, Trace (system (plan uncached)) anyStep es s ∧
    ∀ rows : List CheckRow, rows.Perm (s.live.map (·.row.2)) →
      ∃ rep, cachedReport rows "example.com" = some rep ∧
        Recalls rep (failedCheck "example.com" "timeout" moment) := by
  have hinit : (system (plan uncached)).init ⟨[], fun _ => .idle⟩ := ⟨rfl, fun _ => rfl⟩
  obtain ⟨hiff, hread⟩ :=
    persistCheck_alone (Trace.init hinit) (t := 0) rfl fun _ _ => ⟨rfl, rfl⟩
  have hstorable : (uncached 0).storable = true := by decide
  obtain ⟨es', s', -, htrace⟩ := hiff.mpr hstorable
  exact ⟨_, s', htrace, hread es' s' htrace⟩

/-- An answer with a NUL is a report that is not stored. -/
example : (rowOf "example.com" moment
    (gradeSpf ["v=spf1" ++ String.singleton (Char.ofNat 0) ++ " -all"] [])).storable = false := by
  decide

end

end Novamail.Deliverability

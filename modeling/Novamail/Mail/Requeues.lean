/-
  Requeue and the job it repeats.

  The first job of a submission is built from the session, the job of a requeue from the row.  The
  row keeps the envelope and the body reference, so these two agree in every run.  It does not keep
  the DSN parameters, and the domains are read off the addresses again, by another function: the Go
  services take what follows the LAST `@`, the Admin API what stands between the first two.  The one
  lowercases with Go's `strings.ToLower`, the other with JavaScript's `toLowerCase`; outside ASCII
  the two differ, so they are parameters here, and `lower` is one case of each.

  `Session.Restorable` says which submissions lose nothing by this.
-/
import Novamail.System.Play
import Novamail.System.Producers

namespace Novamail

open Novamail.Core

/-! ## Two readings of a domain -/

theorem splitOn_ne_nil (c : Char) (l : List Char) : splitOn c l ≠ [] := by
  cases l with
  | nil => exact List.cons_ne_nil _ _
  | cons x xs =>
    unfold splitOn
    split
    · exact List.cons_ne_nil _ _
    · split <;> exact List.cons_ne_nil _ _

/-- The one part of a text without the separator is the text. -/
theorem splitOn_eq_singleton {c : Char} {l w : List Char} (h : splitOn c l = [w]) : w = l := by
  induction l generalizing w with
  | nil =>
    cases h
    rfl
  | cons x xs ih =>
    unfold splitOn at h
    cases hs : splitOn c xs with
    | nil => exact absurd hs (splitOn_ne_nil c xs)
    | cons v vs =>
      rw [hs] at h
      dsimp only at h
      split at h
      · cases h
      · cases h
        rw [ih hs]

/-- What follows the last `c` is the last part, if there are several. -/
theorem afterLast_eq (c : Char) (l : List Char) :
    afterLast c l = (splitOn c l).tail.getLast? := by
  induction l with
  | nil => rfl
  | cons x xs ih =>
    unfold afterLast splitOn
    rw [ih]
    cases hs : splitOn c xs with
    | nil => exact absurd hs (splitOn_ne_nil c xs)
    | cons w ws =>
      by_cases hx : x = c
      · simp only [if_pos hx, List.tail_cons]
        cases ws with
        | nil =>
          rw [splitOn_eq_singleton hs]
          rfl
        | cons v vs =>
          rw [List.getLast?_cons_cons]
          cases hl : (v :: vs).getLast? with
          | none => exact absurd (List.getLast?_eq_none_iff.mp hl) (List.cons_ne_nil v vs)
          | some t => rfl
      · simp only [if_neg hx, List.tail_cons]
        cases ws.getLast? with
        | none => rfl
        | some t => rfl

/-- `domainOf` of one address, where `strings.ToLower` is `go`. -/
def goDomain (go : String → String) (addr : String) : String :=
  match afterLast '@' addr.toList with
  | some t => go (String.ofList t)
  | none => ""

/-- `addr.split("@")[1]`, where `toLowerCase` is `js`. -/
def jsDomain (js : String → String) (addr : String) : String :=
  match splitOn '@' addr.toList with
  | _ :: d :: _ => js (String.ofList d)
  | _ => ""

/-- The address has no `@`, or what stands between its first two is in JavaScript's lowercase what
    follows the last one is in Go's.  With one `@` these are the same text. -/
def OneDomain (go js : String → String) (addr : String) : Prop :=
  match splitOn '@' addr.toList with
  | _ :: d :: rest => js (String.ofList d) = go (String.ofList (rest.getLast?.getD d))
  | _ => True

/-- **The two readings agree** exactly on such addresses. -/
theorem jsDomain_eq_iff (go js : String → String) (addr : String) :
    jsDomain js addr = goDomain go addr ↔ OneDomain go js addr := by
  unfold jsDomain goDomain OneDomain
  rw [afterLast_eq]
  cases splitOn '@' addr.toList with
  | nil => exact iff_of_true rfl trivial
  | cons w ws =>
    cases ws with
    | nil => exact iff_of_true rfl trivial
    | cons d rest =>
      rw [List.tail_cons, List.getLast?_cons]

/-- An address with one `@` has one domain, where the two languages agree on it. -/
theorem oneDomain_of_agree {go js : String → String} {addr : String} {w d : List Char}
    (haddr : splitOn '@' addr.toList = [w, d])
    (hagree : js (String.ofList d) = go (String.ofList d)) : OneDomain go js addr := by
  unfold OneDomain
  rw [haddr]
  exact hagree

/-! ## The job of a requeue -/

/-- The job of `Data`, where `strings.ToLower` is `go`. -/
def Ingress.relayJobIn (go : String → String) (s : Ingress.Session) (id : MsgId) : RelayJob :=
  { Ingress.relayJob s id with
    routingHints :=
      { recipientDomain := (s.rcpts.head?.map (goDomain go)).getD ""
        senderDomain := goDomain go s.sender } }

/-- The job of the requeue endpoint, where `toLowerCase` is `js`. -/
def Admin.requeueJobIn (js : String → String) (id : MsgId) (m : Row) : RelayJob :=
  { Admin.requeueJob id m with
    routingHints :=
      { recipientDomain := (m.envelope.rcptTo.head?.map (jsDomain js)).getD ""
        senderDomain := jsDomain js m.envelope.mailFrom } }

theorem Ingress.relayJobIn_lower (s : Ingress.Session) (id : MsgId) :
    Ingress.relayJobIn lower s id = Ingress.relayJob s id := by
  unfold Ingress.relayJobIn Ingress.relayJob domainOf
  cases s.rcpts <;> rfl

theorem Admin.requeueJobIn_lower (id : MsgId) (m : Row) :
    Admin.requeueJobIn lower id m = Admin.requeueJob id m := by
  unfold Admin.requeueJobIn Admin.requeueJob Admin.firstDomain
  cases m.envelope.rcptTo <;> rfl

/-- The two jobs agree on every field that their handling goes by, and the second starts afresh. -/
structure RelayJob.Repeats (j' j : RelayJob) : Prop where
  envelope : j'.envelope = j.envelope
  bodyRef : j'.bodyRef = j.bodyRef
  routingHints : j'.routingHints = j.routingHints
  dsnReturn : j'.dsnReturn = j.dsnReturn
  dsnSuppress : j'.dsnSuppress = j.dsnSuppress
  attempt : j'.attempt = 0

/-- Nothing of the submission is missing from its row: neither DSN parameter was given, and its
    addresses read the same in both languages. -/
structure Ingress.Session.Restorable (s : Ingress.Session) (go js : String → String) : Prop where
  sender : OneDomain go js s.sender
  rcpt : ∀ a ∈ s.rcpts.head?, OneDomain go js a
  ret : s.dsnReturn = ""
  notify : ¬(0 < s.rcptN ∧ s.neverN = s.rcptN)

theorem firstDomain_eq_iff (go js : String → String) (addrs : List String) :
    (addrs.head?.map (jsDomain js)).getD "" = (addrs.head?.map (goDomain go)).getD "" ↔
      ∀ a ∈ addrs.head?, OneDomain go js a := by
  cases addrs with
  | nil => exact iff_of_true rfl fun a ha => by cases ha
  | cons a rest =>
    simp only [List.head?_cons, Option.map_some, Option.getD_some, jsDomain_eq_iff, Option.mem_def,
      Option.some.injEq, forall_eq']

/-- The job built from the row of a submission repeats its first job exactly if nothing is
    missing. -/
theorem requeueJob_repeats_iff {s : Ingress.Session} {id : MsgId} {row : Row}
    (henv : row.envelope = (Ingress.relayJob s id).envelope)
    (href : row.bodyRef = (Ingress.relayJob s id).bodyRef) (go js : String → String) :
    (Admin.requeueJobIn js id row).Repeats (Ingress.relayJobIn go s id) ↔ s.Restorable go js := by
  have hrow : row.envelope = ⟨s.sender, s.rcpts⟩ := henv
  have hhints : (Admin.requeueJobIn js id row).routingHints =
      (Ingress.relayJobIn go s id).routingHints ↔
        (∀ a ∈ s.rcpts.head?, OneDomain go js a) ∧ OneDomain go js s.sender := by
    rw [← firstDomain_eq_iff, ← jsDomain_eq_iff]
    simp [Admin.requeueJobIn, Ingress.relayJobIn, hrow]
  constructor
  · intro h
    obtain ⟨hrcpt, hsender⟩ := hhints.mp h.routingHints
    have hnotify : false = decide (0 < s.rcptN ∧ s.neverN = s.rcptN) := h.dsnSuppress
    exact ⟨hsender, hrcpt, h.dsnReturn.symm, of_decide_eq_false hnotify.symm⟩
  · intro h
    exact ⟨henv, href, hhints.mpr ⟨h.rcpt, h.sender⟩, h.ret.symm,
      (decide_eq_false h.notify).symm, rfl⟩

section
variable {site : Site} {ok : Cluster → Label → Prop} {c : Cluster} {ls : List Label}

/-- A submission brings in its one job. -/
theorem Task.Brings.of_submit {t : Task} {id : MsgId} {body b : Bytes} {j : RelayJob}
    {s : Ingress.Session} (h : t.Brings site id body j) (ht : t = .submit s b) :
    j = Ingress.relayJob s id := by
  cases h with
  | submit =>
    cases ht
    rfl
  | bounce | alert => cases ht

/-- **Requeue preserves the job**, in any run and whatever happened to the message in between,
    exactly when the row of the submission misses nothing: what was published is built from the
    session and from that row, and whatever the lowercase of the two languages, the one job repeats
    the other iff the submission is restorable. -/
theorem requeue_preserves_job (h : Trace (cluster site) ok ls c) {s : Ingress.Session}
    {body : Bytes} {j j' : RelayJob} (hpub : Published ls (.submit s body) j)
    (hreq : Published ls (.requeue j.messageID) j') :
    ∃ row, j = Ingress.relayJobIn lower s j.messageID ∧
      j' = Admin.requeueJobIn lower j.messageID row ∧
      ∀ go js, (Admin.requeueJobIn js j.messageID row).Repeats
        (Ingress.relayJobIn go s j.messageID) ↔ s.Restorable go js := by
  obtain ⟨hdrew, b, hone⟩ := hpub.produced h rfl
  obtain ⟨-, t, row, hdrew', ⟨b', j₀, hone', henv, href⟩, hj'⟩ := hreq.requeued h
  have hwho : t = .submit s body := (drawers h).once hdrew' hdrew
  have hj : j = Ingress.relayJob s j.messageID := hone.of_submit rfl
  have hj₀ : j₀ = Ingress.relayJob s j.messageID := hone'.of_submit hwho
  refine ⟨row, ?_, ?_, requeueJob_repeats_iff (hj₀ ▸ henv) (hj₀ ▸ href)⟩
  · rw [Ingress.relayJobIn_lower]
    exact hj
  · rw [Admin.requeueJobIn_lower]
    exact hj'

end

/-! ## One submission, requeued -/

/-- A message is submitted, and an operator requeues it. -/
def requeueScript (s : Ingress.Session) : List Cue :=
  [.start (.submit s [])] ++ Cue.calls 0 "m1" 7 ++ [.start (.requeue "m1")] ++ Cue.calls 0 "" 3

/-- The sender asked for no bounce: `RCPT TO:<b@r.test> NOTIFY=NEVER`. -/
def neverSession : Ingress.Session :=
  (Ingress.rcpt none { sender := "a@s.test" } "b@r.test" [.never]).2

theorem requeueScript_run {s : Ingress.Session} {k : RelayJob}
    (hplay : (Stage.script (plainSite anyReply) deliveringOracle {} (requeueScript s)).any
      (fun s => .accepted "m1" ∈ s.world.log) = true)
    (hpub : (Stage.labels (plainSite anyReply) deliveringOracle {} (requeueScript s)).any
      (Label.hands (.submit s []) (Ingress.relayJob s "m1")) = true)
    (hreq : (Stage.labels (plainSite anyReply) deliveringOracle {} (requeueScript s)).any
      (Label.hands (.requeue "m1") k) = true) :
    ∃ ls c, Trace (cluster (plainSite anyReply)) calm ls c ∧ .accepted "m1" ∈ c.world.log ∧
      Published ls (.submit s []) (Ingress.relayJob s "m1") ∧
        Published ls (.requeue "m1") k := by
  obtain ⟨s', hs, hend⟩ := (Option.any_eq_true _ _).mp hplay
  have hcalm : ∀ q ∈ requeueScript s, q.isCalm = true := List.all_eq_true.mp rfl
  exact ⟨_, s'.cluster, Stage.script_calm_trace hcalm hs, of_decide_eq_true hend,
    .of_any hpub, .of_any hreq⟩

/-- A message without DSN parameters is requeued as it was, whatever `go` and `js` make of other
    domains. -/
theorem requeue_preserves_job_plain : ∃ ls c, Trace (cluster (plainSite anyReply)) calm ls c ∧
    .accepted "m1" ∈ c.world.log ∧ ∃ j j' row, Published ls (.submit oneRecipient []) j ∧
      Published ls (.requeue j.messageID) j' ∧
      j' = Admin.requeueJobIn lower j.messageID row ∧
      ∀ go js, js "s.test" = go "s.test" → js "r.test" = go "r.test" →
        (Admin.requeueJobIn js j.messageID row).Repeats
          (Ingress.relayJobIn go oneRecipient j.messageID) := by
  obtain ⟨ls, c, htrace, hacc, hpub, hreq⟩ :=
    requeueScript_run (s := oneRecipient) (k := Ingress.relayJob oneRecipient "m1")
      (by decide) (by decide) (by decide)
  obtain ⟨row, -, hj', hrepeats⟩ := requeue_preserves_job htrace hpub hreq
  refine ⟨ls, c, htrace, hacc, _, _, row, hpub, hreq, hj', fun go js hs hr => ?_⟩
  refine (hrepeats go js).mpr ⟨?_, ?_, rfl, by decide⟩
  · exact oneDomain_of_agree (w := ['a']) (d := "s.test".toList) (by decide) hs
  · intro a ha
    cases ha
    exact oneDomain_of_agree (w := ['b']) (d := "r.test".toList) (by decide) hr

/-- **A requeue loses `NOTIFY=NEVER`**: the submission was accepted with its bounce suppressed, and
    the job the requeue published does not suppress it. -/
theorem requeue_loses_never :
    ¬ ∀ (site : Site) (ls : List Label) (c : Cluster), Trace (cluster site) calm ls c →
      ∀ (s : Ingress.Session) (body : Bytes) (j j' : RelayJob), Published ls (.submit s body) j →
        .accepted j.messageID ∈ c.world.log → Published ls (.requeue j.messageID) j' →
          j'.Repeats j := by
  intro hclaim
  obtain ⟨ls, c, htrace, hacc, hpub, hreq⟩ :=
    requeueScript_run (s := neverSession)
      (k := { Ingress.relayJob neverSession "m1" with dsnSuppress := false })
      (by decide) (by decide) (by decide)
  have hsame := hclaim _ ls c htrace neverSession [] _ _ hpub hacc hreq
  have hflag : false = true := hsame.dsnSuppress
  cases hflag

end Novamail

/-
  Bounces do not bounce.

  What marks a bounce is its null sender, and nothing else: `gen.handle` looks at the envelope of the
  job it is given, not at where the job came from.  The marker is in the job, and the job goes
  through the wait tiers and the DLQ; it is in the row, and a requeue builds a new job from the row.
  Both copies are made by the bounce generator under an id that it drew, no other task writes under
  that id, and no task changes an envelope.

  So each bounce that is published is paid for by a job with a sender that was put into the DLQ.
-/
import Novamail.System.Producers
import Novamail.System.Tally
import Novamail.Mail.Once

namespace Novamail

open Novamail.Core

/-! ## The null sender of a bounce -/

/-- A bounce generator brings in the bounce of a job with a sender. -/
theorem Task.Brings.of_bounce {site : Site} {t : Task} {id : MsgId} {body : Bytes}
    {j orig : RelayJob} (h : t.Brings site id body j) (ht : t = .bounce (.job orig)) :
    orig.envelope.mailFrom ≠ "" ∧ j = Dsn.dsnJob orig id := by
  cases h with
  | submit | alert => cases ht
  | bounce hf =>
    cases ht
    exact ⟨hf, rfl⟩

/-- The row of a bounce has a null sender. -/
theorem Task.Wrote.null {site : Site} {id : MsgId} {row : Row} {orig : RelayJob}
    (h : (Task.bounce (.job orig)).Wrote site id row) : row.envelope.mailFrom = "" := by
  obtain ⟨body, j, hone, henv, -⟩ := h
  rw [henv, (hone.of_bounce rfl).2]
  rfl

section
variable {site : Site} {ok : Cluster → Label → Prop} {c c' : Cluster} {l : Label} {id : MsgId}
  {ls : List Label}

/-- A bounce generator publishes only if the job it was given has a sender. -/
theorem Step.notifying (hr : Reach (cluster site) ok c) {p : Proc} {q : Queue} {j orig : RelayJob}
    {r : Bool} {f : Fate} (hst : Step site c (.op p (.write (.publish q j)) r f) c')
    (ht : p.task = .bounce (.job orig)) : orig.envelope.mailFrom ≠ "" := by
  obtain ⟨s, body, -, hone⟩ := hst.producing hr (by rw [ht]; rfl)
  exact (hone.of_bounce ht).1

/-! ## What becomes of a bounce -/

/-- The bounce generator published `j` for the job `orig`. -/
def DsnPublished (ls : List Label) (orig j : RelayJob) : Prop :=
  ∃ p q r f, Label.op p (.write (.publish q j)) r f ∈ ls ∧ p.task = .bounce (.job orig) ∧
    f.applied = true

/-- `j'` is `j`, or a job that was made from it: a delivery of it published its successor, to a
    wait tier or the DLQ, or a requeue of its message published a new job. -/
inductive Descends (ls : List Label) (j : RelayJob) : RelayJob → Prop where
  | self : Descends ls j j
  | moved {j₁ j₂ : RelayJob} {p : Proc} {q : Queue} {r : Bool} {f : Fate} (h : Descends ls j j₁)
      (hl : .op p (.write (.publish q j₂)) r f ∈ ls) (ht : p.task = .deliver (.job j₁)) :
      Descends ls j j₂
  | requeued {j₁ j₂ : RelayJob} {p : Proc} {r : Bool} {f : Fate} (h : Descends ls j j₁)
      (hl : .op p (.write (.publishRelayJob j₂)) r f ∈ ls) (ht : p.task = .requeue j₁.messageID) :
      Descends ls j j₂

/-- The bounce generator suppresses only for a job with a sender. -/
theorem Turn.not_suppresses {t : Task} {ph ph' : Phase} {addr reason source : String}
    {detail : Option String} {r : Bool} {j : RelayJob}
    (h : Turn t ph (.write (.addSuppression addr reason source detail)) r ph')
    (ht : t = .bounce (.job j)) (hf : j.envelope.mailFrom = "") : False := by
  subst ht
  cases h with
  | suppress hs =>
    cases hs with
    | bounced hb hne =>
      cases hb
      exact hne hf
    | feedback hb => cases hb

theorem DsnPublished.facts (h : Trace (cluster site) ok ls c) {orig j : RelayJob}
    (hd : DsnPublished ls orig j) :
    Drew ls (.bounce (.job orig)) j.messageID ∧ j = Dsn.dsnJob orig j.messageID := by
  obtain ⟨p, q, r, f, hl, ht, -⟩ := hd
  have hpub : Published ls (.bounce (.job orig)) j := ⟨p, _, q, r, f, hl, ht, rfl⟩
  obtain ⟨hdrew, body, hone⟩ := hpub.produced h rfl
  exact ⟨hdrew, (hone.of_bounce rfl).2⟩

/-- What descends from a bounce has its id and a null sender. -/
theorem Descends.null (h : Trace (cluster site) ok ls c) {orig j j' : RelayJob}
    (hd : DsnPublished ls orig j) (hj : Descends ls j j') :
    j'.messageID = j.messageID ∧ j'.envelope.mailFrom = "" := by
  obtain ⟨hdrew, hdsn⟩ := hd.facts h
  induction hj with
  | self =>
    refine ⟨rfl, ?_⟩
    rw [hdsn]
    rfl
  | @moved j₁ j₂ p q r f _ hl ht ih =>
    obtain ⟨ls₁, c₁, c₂, -, htrace, -, hst⟩ := h.of_mem hl
    obtain ⟨-, hturn⟩ := hst.turn htrace.reach
    cases hturn.publisher rfl with
    | worker ht' hj =>
      rw [ht] at ht'
      cases ht'
      subst hj
      exact ih
    | producer _ _ _ ht' =>
      rw [ht] at ht'
      cases ht'
    | operator ht' =>
      rw [ht] at ht'
      cases ht'
  | @requeued j₁ j₂ p r f _ hl ht ih =>
    -- the requeue published what it had read off the row of the bounce
    have hpub : Published ls (.requeue j₁.messageID) j₂ := ⟨p, _, .work, r, f, hl, ht, rfl⟩
    obtain ⟨hid, t, row, hwho, hwrote, hj⟩ := hpub.requeued h
    have ht₀ : t = .bounce (.job orig) := (drawers h).once hwho (ih.1 ▸ hdrew)
    subst ht₀
    refine ⟨hid.trans ih.1, ?_⟩
    rw [hj]
    exact hwrote.null

/-! ## Bounces and dead letters -/

/-- The message on the broker is the job of a message with a sender. -/
def Wire.hasSender : Wire → Bool
  | .job j => j.envelope.mailFrom ≠ ""
  | .garbage => false

/-- The task generates the bounce of a message with a sender. -/
def Task.answers : Task → Bool
  | .bounce w => w.hasSender
  | _ => false

/-- The step published a bounce. -/
def Label.publishesDsn : Label → Bool
  | .op p (.write (.publish _ _)) _ f =>
    match p.task with
    | .bounce _ => f.applied
    | _ => false
  | _ => false

/-- The step put a job with a sender into the DLQ. -/
def Label.deadLetters : Label → Bool
  | .op _ (.write (.publish .dlq j)) _ f => f.applied && (Wire.job j).hasSender
  | _ => false

/-- What may still become a bounce: a job with a sender in the DLQ, and a generator that has one and
    has neither published its bounce nor given it back. -/
def unanswered : Weights where
  job d := (d.1 = .dlq && d.2.hasSender).toNat
  proc p := (p.task.answers && p.phase.holds).toNat

/-- A generator that has not settled its job yet had not settled it before. -/
theorem Turn.holds_of {t : Task} {ph ph' : Phase} {o : Op} {r : o.Ret} (h : Turn t ph o r ph')
    (ht : t.answers = true) (hph : ph'.holds = true) : ph.holds = true := by
  cases h with
  | read | undelivered | relayed | bounced | unsent | orphan | attempt | suppress | prune
  | announce => exact hph
  | requeue ht' =>
    rw [ht'] at ht
    cases ht
  | swept | close | ack => cases hph
  | _ => rfl

/-- What is put back was not settled. -/
theorem Turn.holds_of_requeues {t : Task} {ph ph' : Phase} {v : Verdict}
    {r : (Op.settle v).Ret} (h : Turn t ph (.settle v) r ph') (hv : v.requeues = true) :
    ph.holds = true := by
  cases h with
  | ack | garbage => cases hv
  | retry | regenerate => rfl

/-- So a call adds no weight to its task. -/
theorem Turn.unanswered_le {t : Task} {ph ph' : Phase} {o : Op} {r : o.Ret}
    (h : Turn t ph o r ph') :
    (t.answers && ph'.holds).toNat ≤ (t.answers && ph.holds).toNat := by
  refine toNat_le_of_imp fun hb => ?_
  obtain ⟨ht, hph⟩ := Bool.and_eq_true_iff.mp hb
  rw [ht, h.holds_of ht hph]
  rfl

/-- A bounce that is published takes the weight of the job it answers off its task. -/
theorem Turn.publishesDsn_le {p : Proc} {ph' : Phase} {q : Queue} {j : RelayJob} {f : Fate}
    {w : World} (h : Turn p.task p.phase (.write (.publish q j)) f.reported ph')
    (hnot : ∀ {orig : RelayJob}, p.task = .bounce (.job orig) → orig.envelope.mailFrom ≠ "")
    (hposs : (Write.publish q j).possible w f = true) :
    (Label.publishesDsn (.op p (.write (.publish q j)) f.reported f)).toNat +
      (p.task.answers && ph'.holds).toNat ≤ (p.task.answers && p.phase.holds).toNat := by
  obtain ⟨t, held, ph, m⟩ := p
  dsimp only at h hnot ⊢
  have hle := h.unanswered_le
  cases h with
  | successor ht | submission ht =>
    subst ht
    exact Nat.le_refl 0
  | @dsn orig id _ _ ht =>
    have hsend : (Wire.job orig).hasSender = true := decide_eq_true (hnot ht)
    subst ht
    cases f with
    | lost => cases hposs
    | failed =>
      show 0 + ((Wire.job orig).hasSender && true).toNat ≤ _
      rw [Nat.zero_add]
      exact hle
    | ok =>
      show 1 + ((Wire.job orig).hasSender && false).toNat ≤ ((Wire.job orig).hasSender && true).toNat
      rw [hsend]
      decide

/-- A publish weighs what it put into the DLQ. -/
theorem unanswered_publish (q : Queue) (j : RelayJob) (p : Proc) (r : Bool) (f : Fate) :
    (if f.applied then unanswered.job (q, .job j) else 0) =
      (Label.deadLetters (.op p (.write (.publish q j)) r f)).toNat := by
  cases f <;> cases q <;> rfl

/-- A job that is given back weighs what it weighed with its generator. -/
theorem unanswered_held {t : Task} {ph : Phase} {held : Option (Queue × Wire)}
    (hheld : held = none ∨ held = t.delivery) (hph : ph.holds = true) :
    held.elim 0 unanswered.job ≤ (t.answers && ph.holds).toNat := by
  rcases hheld with rfl | rfl
  · exact Nat.zero_le _
  · rw [hph, Bool.and_true]
    cases t with
    | deliver w => exact Nat.zero_le _
    | bounce w => exact le_rfl
    | _ => exact Nat.zero_le _

/-- **What one call adds** is what it put into the DLQ; a bounce is paid for by the job it answers. -/
theorem Step.unanswered_op (hr : Reach (cluster site) ok c) {p : Proc} {o : Op}
    {k : o.Ret → Handler Bool} {r : o.Ret} {f : Fate} {n : Conf}
    (hst : Step site c (.op p o r f) c') (hin : p ∈ c.procs) (hk : p.prog = .call o k)
    (hx : Exec site.net p.task (p.conf c.world) o r f n) :
    (Label.publishesDsn (.op p o r f)).toNat +
        (n.world.tally unanswered + unanswered.proc (p.resume n (k r))) ≤
      (Label.deadLetters (.op p o r f)).toNat +
        (c.world.tally unanswered + unanswered.proc p) := by
  have hok := procs_ok hr p hin
  have hturn := hok.turn_to hk hx
  have hown : unanswered.proc (p.resume n (k r)) ≤ unanswered.proc p := hturn.unanswered_le
  cases hx with
  | @write wr f hposs =>
    show _ + ((c.world.after p.task wr f).tally unanswered + _) ≤ _
    rw [World.tally_after]
    cases wr with
    | publish q j =>
      show _ + ((if f.applied then unanswered.job (q, .job j) else 0) + _ + _) ≤ _
      rw [unanswered_publish q j p f.reported f]
      have hturn : Turn p.task p.phase (.write (.publish q j)) f.reported
          (p.phase.nextWrite f.reported (.publish q j)) := hturn
      have hpay := hturn.publishesDsn_le (hst.notifying hr) hposs
      show _ + (_ + c.world.tally unanswered +
          (p.task.answers && (p.phase.nextWrite f.reported (.publish q j)).holds).toNat) ≤
        _ + (c.world.tally unanswered + (p.task.answers && p.phase.holds).toNat)
      omega
    | publishRelayJob j =>
      show 0 + ((if f.applied then 0 else 0) + c.world.tally unanswered + _) ≤
        0 + (c.world.tally unanswered + _)
      rw [ite_self]
      omega
    | _ =>
      show 0 + ((if f.applied then 0 else 0) + c.world.tally unanswered + _) ≤
        0 + (c.world.tally unanswered + _)
      rw [ite_self]
      omega
  | ask | newID =>
    show 0 + (c.world.tally unanswered + _) ≤ 0 + _
    omega
  | @settle v =>
    have hdone : ∀ w, unanswered.proc (p.resume ⟨w, none, .done⟩ (k ())) = 0 :=
      fun _ => congrArg Bool.toNat (Bool.and_false _)
    rw [hdone]
    dsimp only
    split
    · rename_i hv
      have hback := c.world.tally_giveBack p.held unanswered
      have hheld := unanswered_held (hok.held.imp_right And.left) (hturn.holds_of_requeues hv)
      show 0 + ((c.world.giveBack p.held).tally unanswered + 0) ≤
        0 + (c.world.tally unanswered + (p.task.answers && p.phase.holds).toNat)
      omega
    · show 0 + (c.world.tally unanswered + 0) ≤ 0 + (c.world.tally unanswered + _)
      omega

/-- A step without process death and lost connection. -/
theorem Step.unanswered_le (hr : Reach (cluster site) ok c) (hcalm : calm c l)
    (hst : Step site c l c') :
    l.publishesDsn.toNat + c'.tally unanswered ≤ l.deadLetters.toNat + c.tally unanswered := by
  refine hst.tally_le unanswered (fun hl => ?_) (fun t _ => ?_) ?_ (fun _ _ _ _ => Nat.zero_le _)
    (fun p hl => ?_) fun p hl => ?_
  · cases l with
    | op p o r f => exact absurd rfl (hl p o r f)
    | _ => exact Nat.le_refl 0
  · show (t.answers && true).toNat ≤ _
    cases t with
    | bounce w =>
      rw [Bool.and_true]
      exact le_rfl
    | _ => exact Nat.zero_le _
  · rintro p o k r f n rfl hin hk hx
    exact hst.unanswered_op hr hin hk hx
  · rw [hl] at hcalm
    exact hcalm.elim
  · rw [hl] at hcalm
    exact hcalm.elim

/-- **Bounces are paid for**: with what may still become a bounce they are no more than the jobs
    with a sender that were put into the DLQ. -/
theorem bounces_paid (h : Trace (cluster site) calm ls c) :
    ls.countP Label.publishesDsn + c.tally unanswered ≤ ls.countP Label.deadLetters := by
  refine h.invariant (I := fun ls c =>
    ls.countP Label.publishesDsn + c.tally unanswered ≤ ls.countP Label.deadLetters) ?_ ?_
  · rintro c rfl
    exact Nat.le_refl 0
  · intro ls c l c' ht ih hok hst
    have hstep := Step.unanswered_le ht.reach hok hst
    rw [List.countP_append, List.countP_append, countP_one, countP_one]
    omega

/-- **No bounce loops.**  In every run without process death and lost connection, whatever calls
    fail, are redelivered or requeued: what the bounce generator publishes has a null sender and the
    original sender as its one recipient; a generator that is given such a job, or one that descends
    from it, neither publishes nor suppresses; and the bounces published are no more than the jobs
    with a sender that were put into the DLQ. -/
theorem no_bounce_loops (h : Trace (cluster site) calm ls c) :
    (∀ orig j, DsnPublished ls orig j →
        j.envelope = { mailFrom := "", rcptTo := [orig.envelope.mailFrom] }) ∧
      (∀ orig j j', DsnPublished ls orig j → Descends ls j j' → ∀ p o r f, .op p o r f ∈ ls →
        p.task = .bounce (.job j') → (∀ q k, o ≠ .write (.publish q k)) ∧
          ∀ addr reason source detail, o ≠ .write (.addSuppression addr reason source detail)) ∧
      ls.countP Label.publishesDsn ≤ ls.countP Label.deadLetters := by
  refine ⟨fun orig j hd => ?_, fun orig j j' hd hj p o r f hl ht => ?_, ?_⟩
  · rw [(hd.facts h).2]
    rfl
  · have hnull := (hj.null h hd).2
    obtain ⟨ls₁, c₁, c₂, -, htrace, -, hst⟩ := h.of_mem hl
    obtain ⟨-, hturn⟩ := hst.turn htrace.reach
    constructor
    · rintro q k rfl
      exact hst.notifying htrace.reach ht hnull
    · rintro addr reason source detail rfl
      exact hturn.not_suppresses ht hnull
  · exact (Nat.le_add_right _ _).trans (bounces_paid h)

end

/-! ## A bounce that cannot be delivered -/

/-- One provider for every domain, which refuses whatever it is given. -/
def refusingOracle : Oracle anyReply :=
  plainOracle
    { engine := { dflt := some ["p1"] }
      instances := fun id => if id = "p1" then some (newDirect ⟨"mx", "", tls12⟩) else none }
    (fun _ _ => { outcome := .fail, detail := "550 no such user" }) fun _ _ => trivial

/-- A message is refused and bounced; so is its bounce, under the id `d1`. -/
def doubleBounceScript : List Cue :=
  let job := Ingress.relayJob oneRecipient "m1"
  let dsn := Dsn.dsnJob job "d1"
  [.start (.submit oneRecipient [])] ++ Cue.calls 0 "m1" 7 ++
    [.start (.deliver (.job job))] ++ Cue.calls 0 "" 10 ++
    [.start (.bounce (.job job))] ++ Cue.calls 0 "d1" 12 ++
    [.start (.deliver (.job dsn))] ++ Cue.calls 0 "" 10 ++
    [.start (.bounce (.job dsn))] ++ Cue.calls 0 "" 5

/-- The bounce of the message was published, and that of its bounce was not. -/
theorem no_bounce_loops_double : ∃ ls c, Trace (cluster (plainSite anyReply)) calm ls c ∧
    .dsnPublished "m1" ∈ c.world.log ∧ .dsnSuppressed "d1" ∈ c.world.log ∧
      ls.countP Label.publishesDsn ≤ ls.countP Label.deadLetters := by
  have hplay : (Stage.script (plainSite anyReply) refusingOracle {} doubleBounceScript).any
      (fun s => .dsnPublished "m1" ∈ s.world.log ∧ .dsnSuppressed "d1" ∈ s.world.log) = true := by
    decide
  obtain ⟨s, hs, hend⟩ := (Option.any_eq_true _ _).mp hplay
  obtain ⟨hpub, hsup⟩ := of_decide_eq_true hend
  obtain ⟨ls, htrace⟩ := (Stage.script_calm (by decide) hs).trace
  exact ⟨ls, s.cluster, htrace, hpub, hsup, (no_bounce_loops htrace).2.2⟩

end Novamail

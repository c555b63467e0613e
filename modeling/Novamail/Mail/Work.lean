/-
  What one job can cost.

  A deferral raises the attempt of a job, an exhausted job goes to the DLQ, a dead letter makes one
  bounce at most, and a bounce makes none.  So the deliveries that a job may still be acked in are
  bounded by what it says: its attempt, the queue it is in, and whether it has a sender.  `effort`
  is that bound as a weight of the deployment.  Every ack uses up one unit of it; only a job from
  outside, or a delivery that a broken connection or a dead process puts back, brings new weight.
  A nack uses up nothing: a job may be nacked again and again.

  The acks of a run are therefore linear in what was put in and what broke, whatever the order of
  the steps (`work_bounded`).
-/
import Novamail.Mail.Bounces
import Novamail.Mail.Retries

namespace Novamail

open Novamail.Core

/-! ## The weight of a job -/

/-- The deliveries from the work queue that a job with this attempt has before it, if none of them
    succeeds. -/
def tries (attempt : Int) : Nat := if 0 ≤ attempt ∧ attempt < 4 then (4 - attempt).toNat else 1

theorem tries_pos (a : Int) : 1 ≤ tries a := by
  unfold tries
  split <;> omega

theorem tries_le (a : Int) : tries a ≤ 4 := by
  unfold tries
  split <;> omega

/-- A deferral to a tier uses up one delivery. -/
theorem tries_tier {a : Int} {tier : WaitTier} (h : tierForAttempt (a + 1) = some tier) :
    1 + tries (a + 1) ≤ tries a := by
  have hrange : 0 ≤ a ∧ a < 3 := by
    unfold tierForAttempt at h
    dsimp only at h
    split at h
    · cases h
    · rename_i hout
      have hlen : waitTiers.length = 3 := rfl
      omega
  unfold tries
  rw [if_pos (by omega), if_pos (by omega)]
  omega

/-- The deliveries from the DLQ on: the dead letter itself, and those of its bounce, which has no
    sender and is not answered by another one. -/
def RelayJob.afterwards (j : RelayJob) : Nat := if j.envelope.mailFrom = "" then 1 else 6

theorem RelayJob.afterwards_pos (j : RelayJob) : 1 ≤ j.afterwards := by
  unfold afterwards
  split <;> omega

/-- The acks a job on the broker may still lead to. -/
def effortOf : Queue × Wire → Nat
  | (.dlq, .job j) => j.afterwards
  | (_, .job j) => tries j.attempt + j.afterwards
  | (_, .garbage) => 0

theorem effortOf_job {q : Queue} (hq : q ≠ .dlq) (j : RelayJob) :
    effortOf (q, .job j) = tries j.attempt + j.afterwards := by
  cases q with
  | dlq => exact absurd rfl hq
  | work | wait30s | wait5m | wait30m => rfl

theorem effortOf_le (d : Queue × Wire) : effortOf d ≤ 10 := by
  obtain ⟨q, w⟩ := d
  cases w with
  | garbage => cases q <;> exact Nat.zero_le _
  | job j =>
    have htries := tries_le j.attempt
    have hrest : j.afterwards ≤ 6 := by
      unfold RelayJob.afterwards
      split <;> omega
    by_cases hq : q = .dlq
    · subst hq
      show j.afterwards ≤ 10
      omega
    · rw [effortOf_job hq]
      omega

/-- A consumer holds the weight of its delivery until it has discharged it, and then one ack. -/
def Task.effort (t : Task) (ph : Phase) : Nat :=
  if ph.holds then t.delivery.elim 0 effortOf
  else if ph = .done then 0
  else t.job.elim 0 fun _ => 1

/-- The acks a deployment may still lead to. -/
def effort : Weights where
  job := effortOf
  proc p := p.task.effort p.phase

namespace Task

theorem effort_holds {t : Task} {ph : Phase} (h : ph.holds = true) :
    t.effort ph = t.delivery.elim 0 effortOf := if_pos h

theorem effort_outside {t : Task} (h : t.delivery = none) (ph : Phase) : t.effort ph = 0 := by
  have hjob : t.job = none := by
    cases t with
    | deliver w | bounce w => cases h
    | _ => rfl
  unfold effort
  rw [h, hjob]
  split
  · rfl
  · split <;> rfl

/-- A phase that holds the delivery weighs at least as much as any other. -/
theorem effort_le_holds {t : Task} {ph ph' : Phase} (h : ph.holds = true) :
    t.effort ph' ≤ t.effort ph := by
  rw [effort_holds h]
  unfold effort
  split
  · exact le_rfl
  · split
    · exact Nat.zero_le _
    · cases hj : t.job with
      | none => exact Nat.zero_le _
      | some j =>
        have hpos := j.afterwards_pos
        rcases of_job hj with rfl | rfl
        · show 1 ≤ tries j.attempt + j.afterwards
          omega
        · exact hpos

end Task

/-! ## One call -/

/-- The step acked a delivery. -/
def Label.acks : Label → Bool
  | .op _ (.settle .ack) _ _ => true
  | _ => false

/-- The step put a job on the broker that no delivery was turned into: a submission, an alert, or a
    requeue. -/
def Label.enters : Label → Bool
  | .op p (.write wr) _ f => f.applied && wr.publishes.isSome && p.task.delivery.isNone
  | _ => false

/-- The broker took a delivery back: its consumer lost the connection, or died. -/
def Label.breaks : Label → Bool
  | .lose p | .crash p => p.held.isSome
  | _ => false

/-- Neither a publish nor a verdict adds to the weight of its task. -/
theorem Turn.effort_le {t : Task} {ph ph' : Phase} {o : Op} {r : o.Ret} (h : Turn t ph o r ph')
    (hpub : ∀ q j, o ≠ .write (.publish q j)) : t.effort ph' ≤ t.effort ph := by
  cases h with
  | read | relayed | bounced | unsent | orphan | suppress | prune | announce => exact le_rfl
  | selected | queried | undelivered | delivered | suppressed | draw | redraw | put | insertBody
  | oversized | insert | attempt | note | alert | retry | regenerate | garbage =>
    exact Task.effort_le_holds rfl
  | swept ht | requeue ht =>
    subst ht
    rw [Task.effort_outside rfl]
    exact Nat.zero_le _
  | close ht =>
    subst ht
    exact le_rfl
  | ack => exact Nat.zero_le _
  | successor | submission | dsn => exact absurd rfl (hpub _ _)

/-- A publish of a consumer is paid for by the weight that its task gives up. -/
theorem Turn.effort_publish {p : Proc} {ph' : Phase} {q : Queue} {j : RelayJob} {f : Fate}
    {w : World} (h : Turn p.task p.phase (.write (.publish q j)) f.reported ph')
    (hnot : ∀ {orig : RelayJob}, p.task = .bounce (.job orig) → orig.envelope.mailFrom ≠ "")
    (hposs : (Write.publish q j).possible w f = true) :
    (if f.applied then effortOf (q, .job j) else 0) + p.task.effort ph' ≤
      10 * (Label.enters (.op p (.write (.publish q j)) f.reported f)).toNat +
        p.task.effort p.phase := by
  obtain ⟨t, held, ph, m⟩ := p
  dsimp only at h hnot ⊢
  cases f with
  | lost => cases hposs
  | failed =>
    show 0 + t.effort ph' ≤ 0 + t.effort ph
    rw [Nat.zero_add, Nat.zero_add]
    cases h with
    | successor | submission | dsn => exact Task.effort_le_holds rfl
  | ok =>
    cases h with
    | @successor j₀ _ a _ ht hq hm =>
      subst ht
      show effortOf (q, .job { j₀ with attempt := a }) + 1 ≤
        0 + (tries j₀.attempt + j₀.afterwards)
      have hpos := tries_pos j₀.attempt
      by_cases hdlq : q = .dlq
      · subst hdlq
        show j₀.afterwards + 1 ≤ _
        omega
      · obtain ⟨tier, htier, -, rfl⟩ := hm.tier_of_ne hdlq
        have htries := tries_tier htier
        rw [effortOf_job hdlq]
        show tries (j₀.attempt + 1) + j₀.afterwards + 1 ≤ _
        omega
    | submission ht =>
      subst ht
      have hle := effortOf_le (.work, .job j)
      show effortOf (.work, .job j) + 0 ≤ 10 * 1 + 0
      omega
    | @dsn orig id _ _ ht hid hk hf hj =>
      -- the dead letter has a sender, so its weight covers the bounce
      have hsend := hnot ht
      subst ht
      have hown : orig.afterwards = 6 := if_neg hsend
      have hbounce : effortOf (.work, .job j) = 5 := by
        rw [hj]
        rfl
      show effortOf (.work, .job j) + 1 ≤ 0 + orig.afterwards
      omega

/-- Only an alert and a requeue publish over the Admin API. -/
theorem Turn.injects {t : Task} {ph ph' : Phase} {r : Bool} {wr : Write} {j : RelayJob}
    (h : Turn t ph (.write wr) r ph') (hw : wr = .publishRelayJob j) : t.delivery = none := by
  cases h with
  | alert ht | requeue ht =>
    rw [ht]
    rfl
  | _ => cases hw

/-- An ack needs a job that was discharged. -/
theorem Turn.effort_ack {t : Task} {ph ph' : Phase} {r : (Op.settle .ack).Ret}
    (h : Turn t ph (.settle .ack) r ph') : t.effort ph = 1 := by
  cases h with
  | ack h =>
    cases h with
    | relayed ht | moved ht | bounced ht | suppressed ht =>
      subst ht
      rfl

section
variable {site : Site} {ok : Cluster → Label → Prop} {c c' : Cluster} {l : Label}
  {ls : List Label}

/-- What is put back has the weight its task gives up. -/
theorem effort_giveBack {t : Task} {ph : Phase} {held : Option (Queue × Wire)}
    (hheld : held = none ∨ held = t.delivery) (hph : ph.holds = true) :
    held.elim 0 effortOf ≤ t.effort ph := by
  rw [Task.effort_holds hph]
  rcases hheld with rfl | rfl
  · exact Nat.zero_le _
  · exact le_rfl

/-- **What one call adds** is a job from outside; an ack is paid for. -/
theorem Step.effort_op (hr : Reach (cluster site) ok c) {p : Proc} {o : Op}
    {k : o.Ret → Handler Bool} {r : o.Ret} {f : Fate} {n : Conf}
    (hst : Step site c (.op p o r f) c') (hin : p ∈ c.procs) (hk : p.prog = .call o k)
    (hx : Exec site.net p.task (p.conf c.world) o r f n) :
    (Label.acks (.op p o r f)).toNat + (n.world.tally effort + effort.proc (p.resume n (k r))) ≤
      10 * (Label.enters (.op p o r f)).toNat + (c.world.tally effort + effort.proc p) := by
  have hok := procs_ok hr p hin
  have hturn := hok.turn_to hk hx
  cases hx with
  | @write wr f hposs =>
    show 0 + ((c.world.after p.task wr f).tally effort + _) ≤ _
    rw [World.tally_after]
    cases wr with
    | publish q j =>
      have hpay := Turn.effort_publish (p := p) hturn (hst.notifying hr) hposs
      show 0 + ((if f.applied then effortOf (q, .job j) else 0) + c.world.tally effort +
        p.task.effort (p.phase.nextWrite f.reported (.publish q j))) ≤
          _ + (c.world.tally effort + p.task.effort p.phase)
      have hpay : (if f.applied then effortOf (q, .job j) else 0) +
        p.task.effort (p.phase.nextWrite f.reported (.publish q j)) ≤
          10 * (Label.enters (.op p (.write (.publish q j)) f.reported f)).toNat +
            p.task.effort p.phase := hpay
      omega
    | publishRelayJob j =>
      have hown := hturn.effort_le fun _ _ h => by cases h
      have hout : p.task.delivery = none := hturn.injects rfl
      have hle := effortOf_le (.work, .job j)
      show 0 + ((if f.applied then effortOf (.work, .job j) else 0) + c.world.tally effort +
        p.task.effort _) ≤ 10 * (f.applied && true && p.task.delivery.isNone).toNat +
          (c.world.tally effort + p.task.effort p.phase)
      have hown : p.task.effort (p.phase.nextWrite f.reported (.publishRelayJob j)) ≤
        p.task.effort p.phase := hown
      rw [hout]
      cases f.applied with
      | false =>
        show 0 + (0 + _ + p.task.effort (p.phase.nextWrite f.reported (.publishRelayJob j))) ≤
          10 * 0 + _
        omega
      | true =>
        show 0 + (effortOf (.work, .job j) + _ +
          p.task.effort (p.phase.nextWrite f.reported (.publishRelayJob j))) ≤ 10 * 1 + _
        omega
    | _ =>
      have hown := hturn.effort_le fun _ _ h => by cases h
      show 0 + ((if f.applied then 0 else 0) + c.world.tally effort + p.task.effort _) ≤
        10 * (f.applied && false && p.task.delivery.isNone).toNat +
          (c.world.tally effort + p.task.effort p.phase)
      rw [ite_self]
      exact (by omega : ∀ {a b : Nat}, a ≤ b → 0 + (0 + c.world.tally effort + a) ≤
        10 * (f.applied && false && p.task.delivery.isNone).toNat +
          (c.world.tally effort + b)) hown
  | ask | newID =>
    have hown := hturn.effort_le fun _ _ h => by cases h
    show 0 + (c.world.tally effort + _) ≤ 10 * 0 + (c.world.tally effort + p.task.effort p.phase)
    refine (by omega : ∀ {a b : Nat}, a ≤ b → 0 + (c.world.tally effort + a) ≤
      10 * 0 + (c.world.tally effort + b)) ?_
    exact hown
  | @settle v =>
    show (Label.acks (.op p (.settle v) () .ok)).toNat +
      (World.tally (if v.requeues then c.world.giveBack p.held else c.world) effort + 0) ≤
        10 * 0 + (c.world.tally effort + p.task.effort p.phase)
    cases hv : v.requeues with
    | true =>
      have hquiet : Label.acks (.op p (.settle v) () .ok) = false := by
        cases v with
        | ack => cases hv
        | nack | reject => rfl
      have hback := c.world.tally_giveBack p.held effort
      have hheld := effort_giveBack (hok.held.imp_right And.left) (hturn.holds_of_requeues hv)
      rw [hquiet, if_pos rfl, hback]
      show 0 + (p.held.elim 0 effortOf + c.world.tally effort + 0) ≤ _
      omega
    | false =>
      rw [if_neg Bool.false_ne_true]
      cases v with
      | ack =>
        have hone := Turn.effort_ack hturn
        show 1 + (c.world.tally effort + 0) ≤ _
        omega
      | nack | reject =>
        show 0 + (c.world.tally effort + 0) ≤ _
        omega

/-- **What a step adds.**  A delivery that is put back by a fault weighs ten at most. -/
theorem Step.effort_le (hr : Reach (cluster site) ok c) (hst : Step site c l c') :
    l.acks.toNat + c'.tally effort ≤
      10 * (l.enters.toNat + l.breaks.toNat) + c.tally effort := by
  have hfault : ∀ {p : Proc} {ps ps' : Multiset Proc}, c.procs = p ::ₘ ps →
      procsTally ps' effort ≤ effort.proc p + procsTally ps effort →
      0 + Cluster.tally ⟨c.world.giveBack p.held, ps'⟩ effort ≤
        10 * (0 + p.held.isSome.toNat) + c.tally effort := by
    intro p ps ps' hp hps
    have hback := c.world.tally_giveBack p.held effort
    have hten : p.held.elim 0 effort.job ≤ 10 * p.held.isSome.toNat := by
      cases p.held with
      | none => exact Nat.zero_le _
      | some d => exact effortOf_le d
    rw [Cluster.tally_cons hp]
    show 0 + ((c.world.giveBack p.held).tally effort + procsTally ps' effort) ≤ _
    omega
  have hrest : (∀ p, l ≠ .lose p) → (∀ p, l ≠ .crash p) → l.acks.toNat + c'.tally effort ≤
      10 * (l.enters.toNat + l.breaks.toNat) + c.tally effort := by
    intro hlose hcrash
    refine hst.tally_le effort (fun hl => ?_) (fun t _ => le_rfl) ?_ (fun q w _ hq => ?_)
      (fun p hl => absurd hl (hlose p)) fun p hl => absurd hl (hcrash p)
    · cases l with
      | op p o r f => exact absurd rfl (hl p o r f)
      | _ => exact Nat.zero_le _
    · rintro p o k r f n rfl hin hk hx
      exact hst.effort_op hr hin hk hx
    · have hne : q ≠ .dlq := by
        rintro rfl
        cases hq
      cases w with
      | garbage => exact Nat.zero_le _
      | job j =>
        show effortOf (.work, .job j) ≤ effortOf (q, .job j)
        rw [effortOf_job hne]
        exact le_rfl
  cases hst with
  | @lose p ps hp hh =>
    refine hfault hp ?_
    rw [procsTally_cons]
    exact le_rfl
  | @crash p ps hp => exact hfault hp (Nat.le_add_left _ _)
  | start | op | finish | expire | tick =>
    exact hrest (fun p hl => Label.noConfusion hl) fun p hl => Label.noConfusion hl

/-- **Work is bounded.**  In every run, whatever fails, dies, is redelivered or requeued: the
    deliveries acked, with all that the jobs on the broker and the running tasks may still lead to,
    are at most ten for each job that was put in by a submission, an alert or a requeue, and ten for
    each delivery that a lost connection or a dead process put back. -/
theorem work_bounded (h : Trace (cluster site) ok ls c) :
    ls.countP Label.acks + c.tally effort ≤
      10 * (ls.countP Label.enters + ls.countP Label.breaks) := by
  refine h.invariant (I := fun ls c => ls.countP Label.acks + c.tally effort ≤
    10 * (ls.countP Label.enters + ls.countP Label.breaks)) ?_ ?_
  · rintro c rfl
    exact Nat.le_refl 0
  · intro ls c l c' ht ih hok hst
    have hstep := Step.effort_le ht.reach hst
    rw [List.countP_append, List.countP_append, List.countP_append, countP_one, countP_one,
      countP_one]
    omega

end

/-! ## The bound is reached -/

/-- A job is deferred through every tier, and goes to the DLQ. -/
def exhausting (job : RelayJob) : List Cue :=
  let after (attempt : Int) : Wire := .job { job with attempt := attempt }
  [.start (.deliver (after 0))] ++ Cue.calls 0 "" 7 ++
    [.expire .wait30s (after 1), .start (.deliver (after 1))] ++ Cue.calls 0 "" 7 ++
    [.expire .wait5m (after 2), .start (.deliver (after 2))] ++ Cue.calls 0 "" 7 ++
    [.expire .wait30m (after 3), .start (.deliver (after 3))] ++ Cue.calls 0 "" 7

/-- A message is never routed, and neither is its bounce. -/
def unroutedScript : List Cue :=
  let job := Ingress.relayJob oneRecipient "m1"
  let dsn := Dsn.dsnJob { job with attempt := 4 } "d1"
  [.start (.submit oneRecipient [])] ++ Cue.calls 0 "m1" 7 ++ exhausting job ++
    [.start (.bounce (.job { job with attempt := 4 }))] ++ Cue.calls 0 "d1" 12 ++
    exhausting dsn ++ [.start (.bounce (.job { dsn with attempt := 4 }))] ++ Cue.calls 0 "" 5

/-- One submission, ten acks, and nothing left to do. -/
theorem work_bounded_unrouted : ∃ ls c, Trace (cluster (plainSite anyReply)) calm ls c ∧
    ls.countP Label.acks = 10 ∧ ls.countP Label.enters = 1 ∧ ls.countP Label.breaks = 0 ∧
      c.tally effort = 0 := by
  have hplay : (Stage.script (plainSite anyReply) deferringOracle {} unroutedScript).isSome :=
    by decide
  obtain ⟨s, hs⟩ := Option.isSome_iff_exists.mp hplay
  have htrace := Stage.script_calm_trace (by decide) hs
  have hacks : (Stage.labels (plainSite anyReply) deferringOracle {} unroutedScript).countP
      Label.acks = 10 := by decide
  have henters : (Stage.labels (plainSite anyReply) deferringOracle {} unroutedScript).countP
      Label.enters = 1 := by decide
  have hbreaks : (Stage.labels (plainSite anyReply) deferringOracle {} unroutedScript).countP
      Label.breaks = 0 := by decide
  have hbound := work_bounded htrace
  refine ⟨_, s.cluster, htrace, hacks, henters, hbreaks, ?_⟩
  omega

end Novamail

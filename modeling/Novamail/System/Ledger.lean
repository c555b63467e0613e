/-
  The ledger of a message: where its jobs are, and what became of them.

  For every id, the jobs on the broker, plus the consumers that hold an undischarged one, plus the
  discharges on record (a Delivered report, a bounce published, a bounce deliberately not sent),
  add up to the jobs that were ever put in (by a producer, or by an operator).  One call of one
  task moves an entry between these columns and never changes the sum; that is `Exec.balance`, one
  case per turn.  It needs no process death and no lost connection, since either of them copies a
  job that may already be discharged.
-/
import Mathlib.Algebra.BigOperators.Group.Multiset.Basic
import Novamail.System.Cluster

namespace Novamail

open Novamail.Core

/-! ## The columns -/

/-- The event puts a job with this id in. -/
def Event.inflow (id : MsgId) : Event → Bool
  | .submitted i | .requeued i => i = id
  | _ => false

/-- The event discharges a job with this id. -/
def Event.outflow (id : MsgId) : Event → Bool
  | .delivered i | .dsnPublished i | .dsnSuppressed i => i = id
  | _ => false

/-- The jobs ever put in under an id. -/
def World.injected (w : World) (id : MsgId) : Nat := w.log.countP (Event.inflow id)

/-- The discharges on record for an id. -/
def World.discharged (w : World) (id : MsgId) : Nat := w.log.countP (Event.outflow id)

/-- A task holds an undischarged job with this id. -/
def Task.load (t : Task) (ph : Phase) (id : MsgId) : Nat := (t.carries id && ph.holds).toNat

/-- The tasks that hold an undischarged job with this id. -/
def Cluster.load (c : Cluster) (id : MsgId) : Nat :=
  (c.procs.map fun p => p.task.load p.phase id).sum

/-- **The ledger** of an id. -/
def Cluster.Ledger (c : Cluster) (id : MsgId) : Prop :=
  c.world.jobs id + c.load id + c.world.discharged id = c.world.injected id

/-- What a task holds when no connection was lost: its delivery until it is settled. -/
def Proc.Calm (p : Proc) : Prop := p.held = if p.phase = .done then none else p.task.delivery

/-! ## Columns and steps -/

namespace World

theorem jobs_cons {w w' : World} {d : Queue × Wire} (h : w'.bus = d ::ₘ w.bus) (id : MsgId) :
    w'.jobs id = w.jobs id + (d.2.carries id).toNat := by
  unfold jobs
  rw [h, Multiset.countP_cons]
  cases d.2.carries id <;> rfl

theorem jobs_erase {w w' : World} {d : Queue × Wire} (hd : d ∈ w.bus)
    (h : w'.bus = w.bus.erase d) (id : MsgId) :
    w'.jobs id + (d.2.carries id).toNat = w.jobs id := by
  have hw : w.bus = d ::ₘ w'.bus := by rw [h, Multiset.cons_erase hd]
  exact (jobs_cons hw id).symm

theorem injected_record (w : World) (es : List Event) (id : MsgId) :
    (w.record es).injected id = w.injected id + es.countP (Event.inflow id) := by
  unfold injected
  rw [record_log, List.countP_append]

theorem discharged_record (w : World) (es : List Event) (id : MsgId) :
    (w.record es).discharged id = w.discharged id + es.countP (Event.outflow id) := by
  unfold discharged
  rw [record_log, List.countP_append]

theorem injected_after (w : World) (t : Task) (wr : Write) (f : Fate) (id : MsgId) :
    (w.after t wr f).injected id =
      w.injected id + (t.markWrite f wr).countP (Event.inflow id) := by
  unfold injected
  rw [after_log, List.countP_append]

theorem discharged_after (w : World) (t : Task) (wr : Write) (f : Fate) (id : MsgId) :
    (w.after t wr f).discharged id =
      w.discharged id + (t.markWrite f wr).countP (Event.outflow id) := by
  unfold discharged
  rw [after_log, List.countP_append]

theorem jobs_after_none {w : World} {t : Task} {wr : Write} {f : Fate}
    (hp : wr.publishes = none) (id : MsgId) : (w.after t wr f).jobs id = w.jobs id := by
  unfold jobs
  rw [after_bus, hp]
  split <;> rfl

theorem jobs_after_some {w : World} {t : Task} {wr : Write} {f : Fate} {d : Queue × Wire}
    (hp : wr.publishes = some d) (id : MsgId) :
    (w.after t wr f).jobs id = w.jobs id + (f.applied && d.2.carries id).toNat := by
  have hbus := w.after_bus t wr f
  rw [hp] at hbus
  cases hf : f.applied with
  | true =>
    rw [hf, if_pos rfl] at hbus
    exact jobs_cons hbus id
  | false =>
    rw [hf, if_neg Bool.false_ne_true] at hbus
    exact congrArg (Multiset.countP _) hbus

end World

/-! ## The flow on record -/

theorem countP_one {α : Type} (p : α → Bool) (e : α) : [e].countP p = (p e).toNat := by
  rw [List.countP_singleton]
  cases p e <;> rfl

namespace Task

/-- A write that publishes nothing puts nothing into the flow of jobs. -/
theorem markWrite_flow_none {t : Task} {wr : Write} (f : Fate) (id : MsgId)
    (hp : wr.publishes = none) :
    (t.markWrite f wr).countP (Event.inflow id) = 0 ∧
      (t.markWrite f wr).countP (Event.outflow id) = 0 := by
  cases wr with
  | publish q j => cases hp
  | publishRelayJob j => cases hp
  | put | insertBody | delete | pruneOld | publishConfig => exact ⟨rfl, rfl⟩
  | insertMessage => cases f <;> exact ⟨rfl, rfl⟩
  | recordAttempt i st =>
    dsimp only [markWrite]
    rw [List.countP_append, List.countP_append]
    constructor <;> (split <;> split <;> rfl)
  | addSuppression addr reason =>
    dsimp only [markWrite]
    split
    · cases SuppressReason.ofText reason <;> exact ⟨rfl, rfl⟩
    · exact ⟨rfl, rfl⟩

/-- The record of a publish. -/
theorem markWrite_publish {t : Task} {wr : Write} {f : Fate} {q : Queue} {j : RelayJob}
    (hp : wr.publishes = some (q, .job j)) :
    t.markWrite f wr = (if f.applied then t.handedOver j else []) ++
      (if t.produces && !f.reported then [.writeFailed j.messageID] else []) := by
  cases wr <;> first | (cases hp; rfl) | cases hp

/-- A publish puts in what its task hands over, if it took effect. -/
theorem markWrite_flow_some {t : Task} {wr : Write} {q : Queue} {j : RelayJob} (f : Fate)
    (id : MsgId) (hp : wr.publishes = some (q, .job j)) :
    (t.markWrite f wr).countP (Event.inflow id) =
        (if f.applied then t.handedOver j else []).countP (Event.inflow id) ∧
      (t.markWrite f wr).countP (Event.outflow id) =
        (if f.applied then t.handedOver j else []).countP (Event.outflow id) := by
  have hfail : ∀ p : Event → Bool, p (.writeFailed j.messageID) = false →
      (if t.produces && !f.reported then [Event.writeFailed j.messageID] else []).countP p = 0 := by
    intro p h
    split
    · rw [countP_one, h]
      rfl
    · rfl
  rw [markWrite_publish hp, List.countP_append, List.countP_append, hfail _ rfl, hfail _ rfl]
  exact ⟨rfl, rfl⟩

/-- A query other than a send and a settlement records nothing. -/
theorem markQuery_nil {t : Task} {q : Query} {r : q.Ret} (hq : ∀ p m, q ≠ .send p m)
    (hi : q ≠ .inc .suppressed) : t.markQuery q r = [] := by
  unfold markQuery
  split
  · exact absurd rfl (hq _ _)
  · exact absurd rfl hi
  · rfl

/-- A send discharges the job when it reports Delivered. -/
theorem markQuery_send_flow {t : Task} {j : RelayJob} (ht : t.job = some j) (p : Provider)
    (m : Message) (r : SendReply) (id : MsgId) :
    (t.markQuery (.send p m) r).countP (Event.inflow id) = 0 ∧
      (t.markQuery (.send p m) r).countP (Event.outflow id) =
        (r.isDelivered && (Wire.job j).carries id).toNat := by
  dsimp only [markQuery]
  rw [ht, List.countP_append, List.countP_append]
  have hin : ((some j).toList.flatMap fun j =>
      r.refused.toList.map (Event.refused j.messageID)).countP (Event.inflow id) = 0 := by
    cases r.refused <;> rfl
  have hout : ((some j).toList.flatMap fun j =>
      r.refused.toList.map (Event.refused j.messageID)).countP (Event.outflow id) = 0 := by
    cases r.refused <;> rfl
  rw [hin, hout]
  cases r.isDelivered with
  | false => exact ⟨rfl, rfl⟩
  | true =>
    refine ⟨rfl, ?_⟩
    show [Event.delivered j.messageID].countP _ + 0 = _
    rw [countP_one, Bool.true_and]
    rfl

/-! ## The entry of a task -/

/-- The entry of a task depends on the phase only through `holds`. -/
theorem load_congr {t : Task} {ph ph' : Phase} (h : ph'.holds = ph.holds) (id : MsgId) :
    t.load ph' id = t.load ph id := by
  unfold load
  rw [h]

theorem load_of_job_none {t : Task} (h : t.job = none) (ph : Phase) (id : MsgId) :
    t.load ph id = 0 := by
  unfold load carries
  rw [h]
  rfl

theorem load_of_not_holds {t : Task} {ph : Phase} (h : ph.holds = false) (id : MsgId) :
    t.load ph id = 0 := by
  unfold load
  rw [h, Bool.and_false]
  rfl

theorem load_of_job {t : Task} {j : RelayJob} {ph : Phase} (h : t.job = some j)
    (hph : ph.holds = true) (id : MsgId) : t.load ph id = ((Wire.job j).carries id).toNat := by
  unfold load carries
  rw [h, hph, Bool.and_true]
  rfl

end Task

/-! ## One call -/

/-- The sum of the columns is the same before and after a call. -/
def Balanced (t : Task) (w : World) (ph : Phase) (w' : World) (ph' : Phase) (id : MsgId) : Prop :=
  w'.jobs id + t.load ph' id + w'.discharged id + w.injected id =
    w.jobs id + t.load ph id + w.discharged id + w'.injected id

section
variable {t : Task} {w : World} {ph ph' : Phase} {id : MsgId}

/-- A write that publishes nothing keeps the sum when the task's own entry stays. -/
theorem balanced_quiet_write {wr : Write} (f : Fate) (hp : wr.publishes = none)
    (hl : t.load ph' id = t.load ph id) : Balanced t w ph (w.after t wr f) ph' id := by
  obtain ⟨hin, hout⟩ := t.markWrite_flow_none f id hp
  unfold Balanced
  rw [World.jobs_after_none hp, World.injected_after, World.discharged_after]
  omega

/-- So does a publish that failed. -/
theorem balanced_unpublished {wr : Write} {f : Fate} {q : Queue} {j : RelayJob}
    (hp : wr.publishes = some (q, .job j)) (hf : f.applied = false)
    (hl : t.load ph' id = t.load ph id) : Balanced t w ph (w.after t wr f) ph' id := by
  obtain ⟨hin, hout⟩ := t.markWrite_flow_some f id hp
  unfold Balanced
  rw [World.jobs_after_some hp, World.injected_after, World.discharged_after, hin, hout, hf, hl]
  rfl

/-- A publish keeps the sum when what its task hands over accounts for the change. -/
theorem balanced_published {wr : Write} {f : Fate} {q : Queue} {j : RelayJob}
    (hp : wr.publishes = some (q, .job j)) (hf : f.applied = true)
    (h : ((Wire.job j).carries id).toNat + t.load ph' id +
        (t.handedOver j).countP (Event.outflow id) =
      t.load ph id + (t.handedOver j).countP (Event.inflow id)) :
    Balanced t w ph (w.after t wr f) ph' id := by
  obtain ⟨hin, hout⟩ := t.markWrite_flow_some f id hp
  unfold Balanced
  rw [World.jobs_after_some hp, World.injected_after, World.discharged_after, hin, hout, hf,
    if_pos rfl, Bool.true_and]
  dsimp only
  omega

/-- A task that consumes nothing hands over one job. -/
theorem handedOver_balance {j : RelayJob} (hj : t.job = none)
    (ht : t.handedOver j = [.submitted j.messageID] ∨ t.handedOver j = [.requeued j.messageID]) :
    ((Wire.job j).carries id).toNat + t.load ph' id +
        (t.handedOver j).countP (Event.outflow id) =
      t.load ph id + (t.handedOver j).countP (Event.inflow id) := by
  rw [Task.load_of_job_none hj, Task.load_of_job_none hj]
  rcases ht with ht | ht
  · rw [ht, countP_one, countP_one]
    exact (Nat.zero_add _).symm
  · rw [ht, countP_one, countP_one]
    exact (Nat.zero_add _).symm

/-- A query keeps the sum when what it records accounts for the change. -/
theorem balanced_query {es : List Event}
    (h : t.load ph' id + es.countP (Event.outflow id) =
      t.load ph id + es.countP (Event.inflow id)) : Balanced t w ph (w.record es) ph' id := by
  have hjobs : (w.record es).jobs id = w.jobs id := rfl
  unfold Balanced
  rw [World.injected_record, World.discharged_record]
  omega

/-- A delivery that is put back goes from its task to the broker. -/
theorem balanced_giveBack {d : Queue × Wire}
    (h : t.load ph id = (d.2.carries id).toNat) :
    Balanced t w ph (w.giveBack (some d)) .done id := by
  have hjobs : (w.giveBack (some d)).jobs id = w.jobs id + (d.2.carries id).toNat :=
    World.jobs_cons rfl id
  have hload : t.load .done id = 0 := Task.load_of_not_holds rfl id
  have hin : (w.giveBack (some d)).injected id = w.injected id := rfl
  have hout : (w.giveBack (some d)).discharged id = w.discharged id := rfl
  unfold Balanced
  omega

end

/-- **One call keeps the ledger.** -/
theorem Exec.balance {net : Net} {t : Task} {w : World} {held : Option (Queue × Wire)}
    {ph ph' : Phase} {o : Op} {r : o.Ret} {f : Fate} {c' : Conf}
    (hx : Exec net t ⟨w, held, ph⟩ o r f c') (hturn : Turn t ph o r ph') (id : MsgId)
    (hheld : held = if ph = .done then none else t.delivery) :
    Balanced t w ph c'.world ph' id := by
  cases hturn with
  | read hq hi =>
    cases hx
    rw [Task.markQuery_nil hq hi]
    exact balanced_query rfl
  | selected ht | queried ht | swept ht =>
    cases hx
    subst ht
    exact balanced_query rfl
  | @undelivered j p m r ht h =>
    cases hx
    subst ht
    obtain ⟨hin, hout⟩ := Task.markQuery_send_flow (t := .deliver (.job j)) rfl p m r id
    rw [h] at hout
    exact balanced_query (by rw [hin, hout]; rfl)
  | @delivered j p m r ht h =>
    cases hx
    subst ht
    obtain ⟨hin, hout⟩ := Task.markQuery_send_flow (t := .deliver (.job j)) rfl p m r id
    rw [h, Bool.true_and] at hout
    refine balanced_query ?_
    rw [Task.load_of_not_holds rfl, Task.load_of_job rfl rfl]
    omega
  | @suppressed j ht =>
    cases hx
    subst ht
    refine balanced_query ?_
    rw [Task.load_of_not_holds rfl, Task.load_of_job rfl rfl]
    show 0 + [Event.dsnSuppressed j.messageID].countP _ = _ + 0
    rw [countP_one, Nat.zero_add]
    rfl
  | draw | redraw =>
    cases hx
    exact congrArg (fun n => w.jobs id + n + _ + _) (Task.load_congr rfl id)
  | put | insertBody | insert =>
    cases hx
    refine balanced_quiet_write f rfl (Task.load_congr ?_ id)
    split <;> rfl
  | oversized | note | close =>
    cases hx
    exact balanced_quiet_write f rfl (Task.load_congr rfl id)
  | relayed | bounced | unsent | orphan | attempt | suppress | prune | announce =>
    cases hx
    exact balanced_quiet_write f rfl rfl
  | @successor j q a ok ht hq =>
    -- the delivery's own entry moves to the queue
    cases hx with
    | write hposs =>
      subst ht
      cases f with
      | lost => cases hposs
      | failed => exact balanced_unpublished rfl rfl rfl
      | ok =>
        refine balanced_published rfl rfl ?_
        show _ + (Task.deliver (.job j)).load .moved id + 0 = _ + 0
        rw [Task.load_of_not_holds rfl, Task.load_of_job rfl rfl]
        rfl
  | @submission s body i j ok ht hid hk =>
    cases hx with
    | write hposs =>
      subst ht
      cases f with
      | lost => cases hposs
      | failed => exact balanced_unpublished rfl rfl rfl
      | ok => exact balanced_published rfl rfl (handedOver_balance rfl (.inl rfl))
  | @dsn orig i j ok ht hid hk hf =>
    -- the entry of the original is discharged by the job of its bounce
    cases hx with
    | write hposs =>
      subst ht
      cases f with
      | lost => cases hposs
      | failed => exact balanced_unpublished rfl rfl (Task.load_congr rfl id)
      | ok =>
        refine balanced_published rfl rfl ?_
        show _ + (Task.bounce (.job orig)).load (.published i) id +
          ([Event.submitted j.messageID] ++ [Event.dsnPublished orig.messageID]).countP _ =
            _ + ([Event.submitted j.messageID] ++ [Event.dsnPublished orig.messageID]).countP _
        rw [Task.load_of_not_holds rfl, Task.load_of_job rfl rfl, List.countP_append,
          List.countP_append, countP_one, countP_one, countP_one, countP_one]
        show ((Wire.job j).carries id).toNat + 0 + (0 + ((Wire.job orig).carries id).toNat) =
          ((Wire.job orig).carries id).toNat + (((Wire.job j).carries id).toNat + 0)
        omega
  | @alert rs subject text i j ok ht hid hk =>
    cases hx with
    | write hposs =>
      subst ht
      cases f with
      | failed => exact balanced_unpublished rfl rfl rfl
      | ok | lost => exact balanced_published rfl rfl (handedOver_balance rfl (.inl rfl))
  | @requeue row j ok ht hl hr he =>
    cases hx with
    | write hposs =>
      subst ht
      cases f with
      | failed => exact balanced_unpublished rfl rfl rfl
      | ok | lost => exact balanced_published rfl rfl (handedOver_balance rfl (.inr rfl))
  | ack h =>
    cases hx
    show w.jobs id + t.load .done id + _ + _ = _
    rw [Task.load_of_not_holds rfl]
    have hload : t.load ph id = 0 := by
      cases h <;> exact Task.load_of_not_holds rfl id
    rw [hload]
    rfl
  | @retry j ht | @regenerate j ht =>
    cases hx
    subst ht
    subst hheld
    exact balanced_giveBack (Task.load_of_job rfl rfl id)
  | garbage ht =>
    cases hx
    have hjob : t.job = none := by
      rcases ht with rfl | rfl <;> rfl
    show w.jobs id + t.load .done id + _ + _ = w.jobs id + t.load .start id + _ + _
    rw [Task.load_of_job_none hjob, Task.load_of_job_none hjob]
    rfl

/-! ## Runs -/

namespace Task

theorem markStart_flow {t : Task} {id : MsgId} :
    t.markStart.countP (Event.inflow id) = 0 ∧ t.markStart.countP (Event.outflow id) = 0 := by
  cases t with
  | feedback provider body =>
    constructor <;>
    · refine List.countP_eq_zero.mpr fun e he => ?_
      obtain ⟨a, -, rfl⟩ := List.mem_map.mp he
      exact Bool.false_ne_true
  | _ => exact ⟨rfl, rfl⟩

theorem markEnd_flow {t : Task} {ph : Phase} {ok : Bool} {id : MsgId} :
    (t.markEnd ph ok).countP (Event.inflow id) = 0 ∧
      (t.markEnd ph ok).countP (Event.outflow id) = 0 := by
  unfold markEnd
  split
  · cases ok <;> exact ⟨rfl, rfl⟩
  · exact ⟨rfl, rfl⟩

/-- A task is started with the job it is handed. -/
theorem load_start {t : Task} {id : MsgId} :
    t.load .start id = (t.delivery.elim false fun d => d.2.carries id).toNat := by
  cases t with
  | deliver w => cases w <;> exact congrArg Bool.toNat (Bool.and_true _)
  | bounce w => cases w <;> exact congrArg Bool.toNat (Bool.and_true _)
  | _ => rfl

end Task

theorem World.jobs_starting {w : World} {t : Task} (h : ∀ d, t.delivery = some d → d ∈ w.bus)
    (id : MsgId) : (w.starting t).jobs id + t.load .start id = w.jobs id := by
  rw [Task.load_start]
  cases hd : t.delivery with
  | none =>
    unfold jobs starting handOut
    rw [hd]
    rfl
  | some d =>
    refine jobs_erase (h d hd) ?_ id
    unfold starting handOut
    rw [hd]
    rfl

/-- An expired job changes its queue, not its number. -/
theorem World.jobs_expire {w : World} {q : Queue} {wire : Wire} (h : (q, wire) ∈ w.bus)
    (id : MsgId) :
    World.jobs { w with bus := (.work, wire) ::ₘ w.bus.erase (q, wire) } id = w.jobs id := by
  have hrem : jobs { w with bus := w.bus.erase (q, wire) } id + (wire.carries id).toNat =
      w.jobs id := jobs_erase h rfl id
  have hadd : jobs { w with bus := (.work, wire) ::ₘ w.bus.erase (q, wire) } id =
      jobs { w with bus := w.bus.erase (q, wire) } id + (wire.carries id).toNat :=
    jobs_cons (d := (.work, wire)) rfl id
  omega

/-- A finished task holds nothing. -/
theorem Proc.Ok.load_finished {p : Proc} {ok : Bool} (h : p.Ok) (hk : p.prog = .pure ok)
    (id : MsgId) : p.task.load p.phase id = 0 := by
  have hfin := h.obeys
  rw [hk] at hfin
  cases hd : p.task.delivery with
  | none =>
    refine Task.load_of_job_none ?_ _ _
    cases ht : p.task <;> first | rfl | (rw [ht] at hd; cases hd)
  | some d =>
    have hdone : p.phase = .done := hfin.settled (by rw [hd]; rfl)
    rw [hdone]
    exact Task.load_of_not_holds rfl id

theorem Cluster.load_cons {c : Cluster} {p : Proc} {ps : Multiset Proc}
    (h : c.procs = p ::ₘ ps) (w : World) (id : MsgId) :
    c.load id = p.task.load p.phase id + Cluster.load ⟨w, ps⟩ id := by
  unfold load
  rw [h, Multiset.map_cons, Multiset.sum_cons]

theorem Exec.calm {net : Net} {t : Task} {c c' : Conf} {o : Op} {r : o.Ret} {f : Fate}
    (hx : Exec net t c o r f c') (hturn : Turn t c.phase o r c'.phase)
    (h : c.held = if c.phase = .done then none else t.delivery) :
    c'.held = if c'.phase = .done then none else t.delivery := by
  cases hx with
  | settle => rfl
  | write | ask | newID =>
    rw [if_congr (hturn.done_iff fun v => Op.noConfusion) rfl rfl]
    exact h

/-- While no connection is lost, every task holds its delivery until it is settled. -/
theorem procs_calm {site : Site} {c : Cluster} (h : Reach (cluster site) calm c) :
    ∀ p ∈ c.procs, p.Calm := by
  refine procs_invariant (Q := fun _ p => p.Calm) (fun _ _ _ _ hp => hp) (fun _ _ _ => rfl) ?_
    (fun _ hcalm _ _ => hcalm.elim) h
  exact fun hr _ hin hk hx hp => hx.calm ((procs_ok hr _ hin).turn_to hk hx) hp

/-- **The ledger balances in every run without a process death or a lost connection.** -/
theorem ledger {site : Site} {c : Cluster} (h : Reach (cluster site) calm c) (id : MsgId) :
    c.Ledger id := by
  refine h.invariant (I := fun c => c.Ledger id) ?_ ?_
  · rintro c rfl
    rfl
  · intro c l c' hr ih hcalm hst
    cases hst with
    | start t h =>
      have hload : Cluster.load ⟨c.world.starting t, t.launch site ::ₘ c.procs⟩ id =
          t.load .start id + c.load id := Cluster.load_cons (p := t.launch site) rfl c.world id
      have hjobs := World.jobs_starting h id
      have hin : (c.world.starting t).injected id = c.world.injected id := by
        rw [World.starting, World.injected_record, Task.markStart_flow.1]
        rfl
      have hout : (c.world.starting t).discharged id = c.world.discharged id := by
        rw [World.starting, World.discharged_record, Task.markStart_flow.2]
        rfl
      unfold Cluster.Ledger at ih ⊢
      rw [hload]
      dsimp only
      omega
    | @op p ps o k r f c' hp hk hx =>
      have hin : p ∈ c.procs := hp ▸ Multiset.mem_cons_self _ _
      have hbal := hx.balance ((procs_ok hr p hin).turn_to hk hx) id (procs_calm hr p hin)
      have hload := Cluster.load_cons hp c.world id
      have hload' : Cluster.load ⟨c'.world, p.resume c' (k r) ::ₘ ps⟩ id =
          p.task.load c'.phase id + Cluster.load ⟨c.world, ps⟩ id :=
        Cluster.load_cons (p := p.resume c' (k r)) rfl c.world id
      unfold Cluster.Ledger at ih ⊢
      unfold Balanced at hbal
      rw [hload] at ih
      rw [hload']
      dsimp only at hbal ⊢
      omega
    | @finish p ps ok hp hk =>
      have hin : p ∈ c.procs := hp ▸ Multiset.mem_cons_self _ _
      have hload := Cluster.load_cons hp c.world id
      have hfin := (procs_ok hr p hin).load_finished hk id
      unfold Cluster.Ledger at ih ⊢
      rw [World.injected_record, World.discharged_record, Task.markEnd_flow.1,
        Task.markEnd_flow.2]
      rw [hload, hfin, Nat.zero_add] at ih
      exact ih
    | @expire q wire hq hm =>
      have hjobs := World.jobs_expire hm id
      unfold Cluster.Ledger at ih ⊢
      rw [hjobs]
      exact ih
    | tick => exact ih
    | lose | crash => exact hcalm.elim

end Novamail

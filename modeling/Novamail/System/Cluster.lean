/-
  The deployment as a transition system.

  A state is the world and a bag of running tasks, each with the delivery it holds, its phase and
  the rest of its program.  A step lets one task make its next call, starts or ends a task, lets a
  TTL expire, or breaks something: a consumer may lose its connection (the broker takes the job
  back, the handler runs on) or its process may die.  Any number of tasks of any kind interleave.

  `Exec` is one call of one task.  It is also the step relation of a handler run without
  interruption (`atomic_steps`), so that a system in which whole handlers are single steps is
  contained in this one.
-/
import Novamail.Core.System
import Novamail.System.Obeys
import Novamail.System.Turn

namespace Novamail

open Novamail.Core

/-! ## What is put on record -/

namespace Task

/-- A new job, seen from the task that published it. -/
def handedOver (t : Task) (j : RelayJob) : List Event :=
  match t with
  | .submit _ _ | .alert _ _ _ => [.submitted j.messageID]
  | .bounce (.job orig) => [.submitted j.messageID, .dsnPublished orig.messageID]
  | .requeue _ => [.requeued j.messageID]
  | _ => []

/-- The message whose bounce the task generates. -/
def bounced : Task → Option MsgId
  | .bounce (.job orig) => some orig.messageID
  | _ => none

/-- The record of a write.  A failure is recorded when it can leave the row of a message without
    its job: of the insert, of the first publish, and of the attempt that closes the message. -/
def markWrite (t : Task) (f : Fate) : Write → List Event
  | .publish _ j | .publishRelayJob j =>
    (if f.applied then t.handedOver j else []) ++
      (if t.produces && !f.reported then [.writeFailed j.messageID] else [])
  | .insertMessage id _ _ _ _ => if f.reported then [] else [.writeFailed id]
  | .recordAttempt id st _ _ _ =>
    (if f.applied then [.recorded id st] else []) ++
      (if !f.reported && (st = .relayed || st = .bounced) then [.writeFailed id] else [])
  | .addSuppression addr reason _ _ =>
    if f.applied then
      (SuppressReason.ofText reason).toList.map fun r => .listed (lower addr) r t.bounced
    else []
  | _ => []

/-- The record of a query. -/
def markQuery (t : Task) : (q : Query) → q.Ret → List Event
  | .send _ _, r =>
    (if r.isDelivered then t.job.toList.map fun j => .delivered j.messageID else []) ++
      t.job.toList.flatMap fun j => r.refused.toList.map (.refused j.messageID)
  | .inc .suppressed, _ => t.job.toList.map fun j => .dsnSuppressed j.messageID
  | _, _ => []

/-- The recipients a feedback body reports as permanently bounced.  A plain list has no bounce
    type: it reports what its reason says, a hard bounce when it has none. -/
def permanent : Admin.Feedback → List String
  | .bounce ty addrs => if ty = "Permanent" then addrs else []
  | .addresses addrs reason => if reason.getD "hard_bounce" = "hard_bounce" then addrs else []
  | _ => []

/-- The record of a task's start. -/
def markStart : Task → List Event
  | .feedback _ body => (permanent body).map fun a => .notified (lower a)
  | _ => []

/-- The record of a task's end. -/
def markEnd (t : Task) (ph : Phase) (ok : Bool) : List Event :=
  match t, ph with
  | .submit _ _, .published id => if ok then [.accepted id] else []
  | _, _ => []

end Task

namespace Task

theorem mem_handedOver {t : Task} {j : RelayJob} {e : Event} (h : e ∈ t.handedOver j) :
    e = .submitted j.messageID ∨ e = .requeued j.messageID ∨
      ∃ orig, t = .bounce (.job orig) ∧ e = .dsnPublished orig.messageID := by
  unfold handedOver at h
  split at h
  · exact .inl (List.mem_singleton.mp h)
  · exact .inl (List.mem_singleton.mp h)
  · rcases List.mem_cons.mp h with h | h
    · exact .inl h
    · exact .inr (.inr ⟨_, rfl, List.mem_singleton.mp h⟩)
  · exact .inr (.inl (List.mem_singleton.mp h))
  · cases h

/-- What a write can put on record. -/
theorem mem_markWrite {t : Task} {f : Fate} {wr : Write} {e : Event}
    (h : e ∈ t.markWrite f wr) :
    (∃ j, e ∈ t.handedOver j) ∨ (∃ id, e = .writeFailed id) ∨
      (∃ id st kind provider detail, wr = .recordAttempt id st kind provider detail ∧
        e = .recorded id st) ∨
      ∃ addr reason source detail r, wr = .addSuppression addr reason source detail ∧
        SuppressReason.ofText reason = some r ∧ e = .listed (lower addr) r t.bounced := by
  have hpub : ∀ j : RelayJob, e ∈ (if f.applied then t.handedOver j else []) ++
      (if t.produces && !f.reported then [.writeFailed j.messageID] else []) →
      (∃ j, e ∈ t.handedOver j) ∨ ∃ id, e = .writeFailed id := by
    intro j h
    rcases List.mem_append.mp h with h | h
    · split at h
      · exact .inl ⟨j, h⟩
      · cases h
    · split at h
      · exact .inr ⟨_, List.mem_singleton.mp h⟩
      · cases h
  cases wr with
  | publish q j => exact (hpub j h).imp_right .inl
  | publishRelayJob j => exact (hpub j h).imp_right .inl
  | insertMessage =>
    dsimp only [markWrite] at h
    split at h
    · cases h
    · exact .inr (.inl ⟨_, List.mem_singleton.mp h⟩)
  | recordAttempt id st kind provider detail =>
    dsimp only [markWrite] at h
    rcases List.mem_append.mp h with h | h
    · split at h
      · exact .inr (.inr (.inl ⟨id, st, kind, provider, detail, rfl, List.mem_singleton.mp h⟩))
      · cases h
    · split at h
      · exact .inr (.inl ⟨_, List.mem_singleton.mp h⟩)
      · cases h
  | addSuppression addr reason source detail =>
    dsimp only [markWrite] at h
    split at h
    · obtain ⟨r, hr, rfl⟩ := List.mem_map.mp h
      exact .inr (.inr (.inr ⟨addr, reason, source, detail, r, rfl, Option.mem_toList.mp hr, rfl⟩))
    · cases h
  | put | insertBody | delete | pruneOld | publishConfig => cases h

/-- What a query can put on record. -/
theorem mem_markQuery {t : Task} {q : Query} {r : q.Ret} {e : Event}
    (h : e ∈ t.markQuery q r) :
    (∃ id, e = .delivered id) ∨ (∃ id addr, e = .refused id addr) ∨
      ∃ id, e = .dsnSuppressed id := by
  unfold markQuery at h
  split at h
  · rcases List.mem_append.mp h with h | h
    · split at h
      · obtain ⟨j, -, rfl⟩ := List.mem_map.mp h
        exact .inl ⟨_, rfl⟩
      · cases h
    · obtain ⟨j, -, h⟩ := List.mem_flatMap.mp h
      obtain ⟨a, -, rfl⟩ := List.mem_map.mp h
      exact .inr (.inl ⟨_, _, rfl⟩)
  · obtain ⟨j, -, rfl⟩ := List.mem_map.mp h
    exact .inr (.inr ⟨_, rfl⟩)
  · cases h

/-- What the end of a task can put on record. -/
theorem mem_markEnd {t : Task} {ph : Phase} {ok : Bool} {e : Event} (h : e ∈ t.markEnd ph ok) :
    ∃ id, ph = .published id ∧ e = .accepted id := by
  unfold markEnd at h
  split at h
  · split at h
    · exact ⟨_, rfl, List.mem_singleton.mp h⟩
    · cases h
  · cases h

/-- What the start of a task can put on record. -/
theorem mem_markStart {t : Task} {e : Event} (h : e ∈ t.markStart) :
    ∃ provider body a, t = .feedback provider body ∧ a ∈ permanent body ∧
      e = .notified (lower a) := by
  cases t with
  | feedback provider body =>
    obtain ⟨a, ha, rfl⟩ := List.mem_map.mp h
    exact ⟨provider, body, a, rfl, ha, rfl⟩
  | _ => cases h

end Task

/-! ## One call -/

/-- The broker takes a delivery back into its queue. -/
def World.giveBack (w : World) (held : Option (Queue × Wire)) : World :=
  { w with bus := held.elim w.bus fun d => d ::ₘ w.bus }

/-- The broker hands a delivery to a consumer. -/
def World.handOut (w : World) (d : Option (Queue × Wire)) : World :=
  { w with bus := d.elim w.bus fun d => w.bus.erase d }

/-- The verdict puts the delivery back. -/
def Verdict.requeues : Verdict → Bool
  | .ack => false
  | .nack b => b
  | .reject b => b

/-- What one task sees: the world, the delivery it holds, its phase. -/
structure Conf where
  world : World
  held : Option (Queue × Wire)
  phase : Phase

/-- The world after a write. -/
def World.after (w : World) (t : Task) (wr : Write) (f : Fate) : World :=
  (if f.applied then wr.apply w else w).record (t.markWrite f wr)

/-- One call of a task, with its answer; the fate is that of a write. -/
inductive Exec (net : Net) (t : Task) : Conf → (o : Op) → o.Ret → Fate → Conf → Prop where
  | write {c : Conf} {w : Write} {f : Fate} (h : w.possible c.world f = true) :
      Exec net t c (.write w) f.reported f
        { c with world := c.world.after t w f, phase := c.phase.nextWrite f.reported w }
  | ask {c : Conf} {q : Query} {r : q.Ret} (h : q.Answers net c.world r) :
      Exec net t c (.ask q) r .ok
        { c with world := c.world.record (t.markQuery q r), phase := c.phase.nextQuery q r }
  | settle {c : Conf} {v : Verdict} :
      Exec net t c (.settle v) () .ok
        { world := if v.requeues then c.world.giveBack c.held else c.world
          held := none
          phase := .done }
  | newID {c : Conf} {id : MsgId} (h : id ∉ c.world.ids) :
      Exec net t c .newID id .ok
        { c with world := { c.world with ids := id :: c.world.ids }, phase := .drawn id }

theorem World.after_log (w : World) (t : Task) (wr : Write) (f : Fate) :
    (w.after t wr f).log = w.log ++ t.markWrite f wr := by
  unfold after
  rw [record_log]
  split
  · rw [Write.apply_log]
  · rfl

/-- A call adds to the record what its write or its query puts there. -/
theorem Exec.log_eq {net : Net} {t : Task} {c c' : Conf} {o : Op} {r : o.Ret} {f : Fate}
    (h : Exec net t c o r f c') :
    (∃ wr, o = .write wr ∧ c'.world.log = c.world.log ++ t.markWrite f wr) ∨
      (∃ q r', o = .ask q ∧ c'.world.log = c.world.log ++ t.markQuery q r') ∨
        c'.world.log = c.world.log := by
  cases h with
  | write h => exact .inl ⟨_, rfl, World.after_log _ _ _ _⟩
  | ask h => exact .inr (.inl ⟨_, _, rfl, rfl⟩)
  | settle => exact .inr (.inr (by dsimp only; split <;> rfl))
  | newID h => exact .inr (.inr rfl)

/-- The record only grows. -/
theorem Exec.log_subset {net : Net} {t : Task} {c c' : Conf} {o : Op} {r : o.Ret} {f : Fate}
    (h : Exec net t c o r f c') {e : Event} (he : e ∈ c.world.log) : e ∈ c'.world.log := by
  rcases h.log_eq with ⟨wr, -, hl⟩ | ⟨q, r', -, hl⟩ | hl
  · exact hl ▸ List.mem_append_left _ he
  · exact hl ▸ List.mem_append_left _ he
  · exact hl ▸ he

/-- The phase after a call is the one the discipline computes. -/
theorem Exec.phase_eq {net : Net} {t : Task} {c c' : Conf} {o : Op} {r : o.Ret} {f : Fate}
    (h : Exec net t c o r f c') : c'.phase = c.phase.next o r := by
  cases h with
  | write h => rfl
  | ask h => rfl
  | settle => rfl
  | newID h => rfl

/-! ## Steps -/

/-- A running task. -/
structure Proc where
  task : Task
  held : Option (Queue × Wire)
  phase : Phase
  prog : Handler Bool

/-- The deployment. -/
structure Cluster where
  world : World := {}
  procs : Multiset Proc := 0

/-- What a step was. -/
inductive Label where
  | start (t : Task)
  | op (p : Proc) (o : Op) (r : o.Ret) (f : Fate)
  | finish (p : Proc) (ok : Bool)
  | expire (q : Queue) (w : Wire)
  | lose (p : Proc)
  | crash (p : Proc)
  | tick (n : Nat)

/-- A task that was just started. -/
def Task.launch (site : Site) (t : Task) : Proc :=
  { task := t, held := t.delivery, phase := .start, prog := t.program site }

/-- The world in which a task starts. -/
def World.starting (w : World) (t : Task) : World := (w.handOut t.delivery).record t.markStart

/-- What a running task sees of a world. -/
def Proc.conf (p : Proc) (w : World) : Conf := { world := w, held := p.held, phase := p.phase }

/-- A task goes on with the rest of its program. -/
def Proc.resume (p : Proc) (c : Conf) (prog : Handler Bool) : Proc :=
  { p with held := c.held, phase := c.phase, prog := prog }

/-- The steps of the deployment. -/
inductive Step (site : Site) : Cluster → Label → Cluster → Prop where
  /-- A request, a delivery or a sweep begins. -/
  | start {c : Cluster} (t : Task) (h : ∀ d, t.delivery = some d → d ∈ c.world.bus) :
      Step site c (.start t) ⟨c.world.starting t, t.launch site ::ₘ c.procs⟩
  /-- A task makes its next call. -/
  | op {c : Cluster} {p : Proc} {ps : Multiset Proc} {o : Op} {k : o.Ret → Handler Bool}
      {r : o.Ret} {f : Fate} {c' : Conf} (hp : c.procs = p ::ₘ ps) (hk : p.prog = .call o k)
      (hx : Exec site.net p.task (p.conf c.world) o r f c') :
      Step site c (.op p o r f) ⟨c'.world, p.resume c' (k r) ::ₘ ps⟩
  /-- A task is over. -/
  | finish {c : Cluster} {p : Proc} {ps : Multiset Proc} {ok : Bool} (hp : c.procs = p ::ₘ ps)
      (hk : p.prog = .pure ok) :
      Step site c (.finish p ok) ⟨c.world.record (p.task.markEnd p.phase ok), ps⟩
  /-- The TTL of a job in a wait queue is over: it is dead-lettered to the work queue. -/
  | expire {c : Cluster} {q : Queue} {w : Wire} (hq : q.isWait = true)
      (hm : (q, w) ∈ c.world.bus) :
      Step site c (.expire q w)
        { c with world := { c.world with bus := (.work, w) ::ₘ c.world.bus.erase (q, w) } }
  /-- A consumer loses its connection: its delivery is put back, its handler goes on. -/
  | lose {c : Cluster} {p : Proc} {ps : Multiset Proc} (hp : c.procs = p ::ₘ ps)
      (hh : p.held ≠ none) :
      Step site c (.lose p) ⟨c.world.giveBack p.held, { p with held := none } ::ₘ ps⟩
  /-- A process dies: its delivery is put back. -/
  | crash {c : Cluster} {p : Proc} {ps : Multiset Proc} (hp : c.procs = p ::ₘ ps) :
      Step site c (.crash p) ⟨c.world.giveBack p.held, ps⟩
  /-- Time passes. -/
  | tick {c : Cluster} (n : Nat) :
      Step site c (.tick n) { c with world := { c.world with clock := c.world.clock + n } }

/-- The deployment, from an empty installation. -/
def cluster (site : Site) : LTS Cluster Label where
  init c := c = {}
  step := Step site

/-- No process dies and no connection is lost. -/
def calm : Cluster → Label → Prop
  | _, .lose _ => False
  | _, .crash _ => False
  | _, _ => True

/-! ## What holds of every running task -/

/-- The rest of the program obeys the discipline, and what the task holds is the delivery it was
    started with, not yet settled. -/
structure Proc.Ok (p : Proc) : Prop where
  obeys : p.prog.Obeys p.task.discipline p.task.Fin p.phase
  held : p.held = none ∨ p.held = p.task.delivery ∧ p.phase ≠ .done

theorem Task.launch_ok (site : Site) (t : Task) : (t.launch site).Ok where
  obeys := t.program_obeys site
  held := .inr ⟨rfl, Phase.noConfusion⟩

/-- The next call of a task is one of its turns. -/
theorem Proc.Ok.turn {p : Proc} {o : Op} {k : o.Ret → Handler Bool} (h : p.Ok)
    (hk : p.prog = .call o k) (r : o.Ret) : Turn p.task p.phase o r (p.phase.next o r) := by
  have hob := h.obeys
  rw [hk] at hob
  exact Task.allow.turn hob.1 r

/-- The same, with the phase the call ends in. -/
theorem Proc.Ok.turn_to {p : Proc} {o : Op} {k : o.Ret → Handler Bool} {net : Net} {w : World}
    {r : o.Ret} {f : Fate} {c' : Conf} (h : p.Ok) (hk : p.prog = .call o k)
    (hx : Exec net p.task (p.conf w) o r f c') : Turn p.task p.phase o r c'.phase := by
  rw [hx.phase_eq]
  exact h.turn hk r

theorem Proc.Ok.resume {p : Proc} {o : Op} {k : o.Ret → Handler Bool} {net : Net} {w : World}
    {r : o.Ret} {f : Fate} {c' : Conf} (h : p.Ok) (hk : p.prog = .call o k)
    (hx : Exec net p.task (p.conf w) o r f c') : (p.resume c' (k r)).Ok where
  obeys := by
    have hob := h.obeys
    rw [hk] at hob
    have hr := hob.2 r
    show Prog.Obeys _ _ c'.phase _
    rw [hx.phase_eq]
    exact hr
  held := by
    have hturn := h.turn hk r
    have hph := hx.phase_eq
    show c'.held = none ∨ c'.held = p.task.delivery ∧ c'.phase ≠ .done
    rw [hph]
    rcases h.held with hn | ⟨hd, hne⟩
    · refine .inl ?_
      cases hx with
      | write | ask | newID => exact hn
      | settle => rfl
    · cases hx with
      | settle => exact .inl rfl
      | write | ask | newID =>
        refine .inr ⟨hd, fun hc => hne ((hturn.done_iff fun v hv => ?_).mp hc)⟩
        exact Op.noConfusion hv

section
variable {site : Site} {ok : Cluster → Label → Prop}

/-- **The invariant rule for running tasks.**  What a task has when it starts, keeps over its own
    calls and over the steps of everything else, and keeps when its connection is lost, every
    running task has. -/
theorem procs_invariant {Q : World → Proc → Prop}
    (hstable : ∀ {c : Cluster} {l : Label} {c' : Cluster} {p : Proc}, Reach (cluster site) ok c →
      ok c l → Step site c l c' → p ∈ c.procs → Q c.world p → Q c'.world p)
    (hstart : ∀ {c : Cluster} {t : Task}, Reach (cluster site) ok c → ok c (.start t) →
      (∀ d, t.delivery = some d → d ∈ c.world.bus) → Q (c.world.starting t) (t.launch site))
    (hop : ∀ {c : Cluster} {p : Proc} {o : Op} {k : o.Ret → Handler Bool} {r : o.Ret} {f : Fate}
      {c' : Conf}, Reach (cluster site) ok c → ok c (.op p o r f) → p ∈ c.procs →
      p.prog = .call o k → Exec site.net p.task (p.conf c.world) o r f c' → Q c.world p →
      Q c'.world (p.resume c' (k r)))
    (hlose : ∀ {c : Cluster} {p : Proc}, Reach (cluster site) ok c → ok c (.lose p) →
      p ∈ c.procs → Q c.world p → Q (c.world.giveBack p.held) { p with held := none })
    {c : Cluster} (h : Reach (cluster site) ok c) : ∀ p ∈ c.procs, Q c.world p := by
  refine h.invariant (I := fun c => ∀ p ∈ c.procs, Q c.world p) ?_ ?_
  · rintro c rfl p hp
    exact absurd hp (Multiset.notMem_zero p)
  · intro c l c' hr ih hok hst p' hp'
    have hkeep := fun q hq => hstable hr hok hst hq (ih q hq)
    cases hst with
    | start t h =>
      rcases Multiset.mem_cons.mp hp' with rfl | hp'
      · exact hstart hr hok h
      · exact hkeep p' hp'
    | @op p ps o k r f c' hp hk hx =>
      have hin : p ∈ c.procs := hp ▸ Multiset.mem_cons_self _ _
      rcases Multiset.mem_cons.mp hp' with rfl | hp'
      · exact hop hr hok hin hk hx (ih p hin)
      · exact hkeep p' (hp ▸ Multiset.mem_cons_of_mem hp')
    | finish hp hk => exact hkeep p' (hp ▸ Multiset.mem_cons_of_mem hp')
    | expire | tick => exact hkeep p' hp'
    | @lose p ps hp hh =>
      have hin : p ∈ c.procs := hp ▸ Multiset.mem_cons_self _ _
      rcases Multiset.mem_cons.mp hp' with rfl | hp'
      · exact hlose hr hok hin (ih p hin)
      · exact hkeep p' (hp ▸ Multiset.mem_cons_of_mem hp')
    | crash hp => exact hkeep p' (hp ▸ Multiset.mem_cons_of_mem hp')

/-- Every running task is in order, whatever has happened. -/
theorem procs_ok {c : Cluster} (h : Reach (cluster site) ok c) : ∀ p ∈ c.procs, p.Ok := by
  refine procs_invariant (Q := fun _ p => p.Ok) (fun _ _ _ _ hp => hp)
    (fun _ _ _ => Task.launch_ok site _) (fun _ _ _ hk hx hp => hp.resume hk hx) ?_ h
  exact fun _ _ _ hp => ⟨hp.obeys, .inl rfl⟩

end

/-- A step adds to the record. -/
theorem Step.log_subset {site : Site} {c c' : Cluster} {l : Label} (h : Step site c l c')
    {e : Event} (he : e ∈ c.world.log) : e ∈ c'.world.log := by
  cases h with
  | start | finish => exact List.mem_append_left _ he
  | op hp hk hx => exact hx.log_subset he
  | expire | lose | crash | tick => exact he

/-- Where an entry of the record comes from. -/
theorem Step.event_cases {site : Site} {c c' : Cluster} {l : Label} (h : Step site c l c')
    {e : Event} (he : e ∈ c'.world.log) :
    e ∈ c.world.log ∨ (∃ t, l = .start t ∧ e ∈ t.markStart) ∨
      (∃ p wr r f, l = .op p (.write wr) r f ∧ e ∈ p.task.markWrite f wr) ∨
      (∃ p q r f, l = .op p (.ask q) r f ∧ e ∈ p.task.markQuery q r) ∨
      ∃ p ok, l = .finish p ok ∧ e ∈ p.task.markEnd p.phase ok := by
  cases h with
  | start t h =>
    rcases List.mem_append.mp he with he | he
    · exact .inl he
    · exact .inr (.inl ⟨t, rfl, he⟩)
  | op hp hk hx =>
    cases hx with
    | write hposs =>
      dsimp only at he
      rw [World.after_log] at he
      rcases List.mem_append.mp he with he | he
      · exact .inl he
      · exact .inr (.inr (.inl ⟨_, _, _, _, rfl, he⟩))
    | ask hans =>
      rcases List.mem_append.mp he with he | he
      · exact .inl he
      · exact .inr (.inr (.inr (.inl ⟨_, _, _, _, rfl, he⟩)))
    | settle =>
      dsimp only at he
      split at he
      · exact .inl he
      · exact .inl he
    | newID => exact .inl he
  | finish hp hk =>
    rcases List.mem_append.mp he with he | he
    · exact .inl he
    · exact .inr (.inr (.inr (.inr ⟨_, _, rfl, he⟩)))
  | expire | lose | crash | tick => exact .inl he

/-- A step of a task is one of its turns. -/
theorem Step.turn {site : Site} {ok : Cluster → Label → Prop} {c c' : Cluster} {p : Proc} {o : Op}
    {r : o.Ret} {f : Fate} (hr : Reach (cluster site) ok c) (h : Step site c (.op p o r f) c') :
    p ∈ c.procs ∧ Turn p.task p.phase o r (p.phase.next o r) := by
  cases h with
  | op hp hk hx =>
    have hin : p ∈ c.procs := hp ▸ Multiset.mem_cons_self _ _
    exact ⟨hin, (procs_ok hr p hin).turn hk r⟩

/-! ## What becomes of a job and of a task in one step -/

/-- The broker after a write: a publish that took effect adds its job. -/
theorem World.after_bus (w : World) (t : Task) (wr : Write) (f : Fate) :
    (w.after t wr f).bus =
      if f.applied then wr.publishes.elim w.bus fun d => d ::ₘ w.bus else w.bus := by
  unfold after
  rw [record_bus]
  split
  · exact Write.apply_bus w wr
  · rfl

theorem World.after_ids (w : World) (t : Task) (wr : Write) (f : Fate) :
    (w.after t wr f).ids = w.ids := by
  unfold after
  rw [record_ids]
  split
  · exact Write.apply_ids w wr
  · rfl

theorem World.mem_giveBack {w : World} {held : Option (Queue × Wire)} {d : Queue × Wire}
    (hd : d ∈ w.bus) : d ∈ (w.giveBack held).bus := by
  cases held with
  | none => exact hd
  | some d' => exact Multiset.mem_cons_of_mem hd

/-- A call takes nothing off the broker. -/
theorem Exec.bus_subset {net : Net} {t : Task} {c c' : Conf} {o : Op} {r : o.Ret} {f : Fate}
    (h : Exec net t c o r f c') {d : Queue × Wire} (hd : d ∈ c.world.bus) : d ∈ c'.world.bus := by
  cases h with
  | @write wr hposs =>
    dsimp only
    rw [World.after_bus]
    split
    · cases wr.publishes with
      | none => exact hd
      | some d' => exact Multiset.mem_cons_of_mem hd
    · exact hd
  | ask | newID => exact hd
  | settle =>
    dsimp only
    split
    · exact World.mem_giveBack hd
    · exact hd

/-- A job that is on the broker after a call was there before, or was published, or put back. -/
theorem Exec.job_cases {net : Net} {t : Task} {c n : Conf} {o : Op} {r : o.Ret} {f : Fate}
    (hx : Exec net t c o r f n) {d : Queue × Wire} (hd : d ∈ n.world.bus) :
    d ∈ c.world.bus ∨
      (∃ wr, o = .write wr ∧ f.applied = true ∧ wr.publishes = some d) ∨
        ∃ v, o = .settle v ∧ v.requeues = true ∧ c.held = some d := by
  cases hx with
  | @write wr f hposs =>
    dsimp only at hd
    rw [World.after_bus] at hd
    split at hd
    · rename_i hf
      cases hpub : wr.publishes with
      | none =>
        rw [hpub] at hd
        exact .inl hd
      | some d' =>
        rw [hpub] at hd
        rcases Multiset.mem_cons.mp hd with rfl | hd
        · exact .inr (.inl ⟨wr, rfl, hf, hpub⟩)
        · exact .inl hd
    · exact .inl hd
  | ask | newID => exact .inl hd
  | @settle v =>
    dsimp only at hd
    split at hd
    · rename_i hv
      cases hh : c.held with
      | none =>
        rw [hh] at hd
        exact .inl hd
      | some d' =>
        rw [hh] at hd
        rcases Multiset.mem_cons.mp hd with rfl | hd
        · exact .inr (.inr ⟨v, rfl, hv, rfl⟩)
        · exact .inl hd
    · exact .inl hd

section
variable {site : Site} {c c' : Cluster} {l : Label}

/-- A job on the broker stays there, or expires into the work queue, or is handed to a task. -/
theorem Step.job_kept (h : Step site c l c') {d : Queue × Wire} (hd : d ∈ c.world.bus) :
    d ∈ c'.world.bus ∨ (d.1.isWait = true ∧ (.work, d.2) ∈ c'.world.bus) ∨
      ∃ t : Task, t.delivery = some d ∧ t.launch site ∈ c'.procs := by
  cases h with
  | start t ht =>
    by_cases hdel : t.delivery = some d
    · exact .inr (.inr ⟨t, hdel, Multiset.mem_cons_self _ _⟩)
    · refine .inl ?_
      show d ∈ (c.world.handOut t.delivery).bus
      cases hd' : t.delivery with
      | none => exact hd
      | some d' =>
        refine (Multiset.mem_erase_of_ne fun he => hdel ?_).mpr hd
        rw [hd', he]
  | op hp hk hx => exact .inl (hx.bus_subset hd)
  | @expire q w hq hm =>
    by_cases he : d = (q, w)
    · subst he
      exact .inr (.inl ⟨hq, Multiset.mem_cons_self _ _⟩)
    · exact .inl (Multiset.mem_cons_of_mem ((Multiset.mem_erase_of_ne he).mpr hd))
  | lose | crash => exact .inl (World.mem_giveBack hd)
  | finish | tick => exact .inl hd

/-- Where a job on the broker comes from: it was there, or was published, or its TTL is over, or a
    task gave it back. -/
theorem Step.job_cases (h : Step site c l c') {d : Queue × Wire} (hd : d ∈ c'.world.bus) :
    d ∈ c.world.bus ∨
      (∃ p wr r f, l = .op p (.write wr) r f ∧ f.applied = true ∧ wr.publishes = some d) ∨
      (∃ q, q.isWait = true ∧ (q, d.2) ∈ c.world.bus ∧ d.1 = .work) ∨
      ∃ p ∈ c.procs, p.held = some d ∧ (l = .lose p ∨ l = .crash p ∨
        ∃ v r f, l = .op p (.settle v) r f ∧ v.requeues = true) := by
  have hgive : ∀ {p : Proc} {w : World}, w = c.world → d ∈ (w.giveBack p.held).bus →
      d ∈ c.world.bus ∨ p.held = some d := by
    rintro p w rfl hm
    cases hh : p.held with
    | none =>
      rw [hh] at hm
      exact .inl hm
    | some d' =>
      rw [hh] at hm
      rcases Multiset.mem_cons.mp hm with rfl | hm
      · exact .inr rfl
      · exact .inl hm
  cases h with
  | start t ht =>
    refine .inl ?_
    have hd : d ∈ (c.world.handOut t.delivery).bus := hd
    cases hdel : t.delivery with
    | none =>
      rw [hdel] at hd
      exact hd
    | some d' =>
      rw [hdel] at hd
      exact Multiset.mem_of_mem_erase hd
  | @op p ps o k r f n hp hk hx =>
    have hin : p ∈ c.procs := hp ▸ Multiset.mem_cons_self _ _
    rcases hx.job_cases hd with hold | ⟨wr, rfl, hf, hpub⟩ | ⟨v, rfl, hv, hheld⟩
    · exact .inl hold
    · exact .inr (.inl ⟨p, wr, r, f, rfl, hf, hpub⟩)
    · exact .inr (.inr (.inr ⟨p, hin, hheld, .inr (.inr ⟨v, r, f, rfl, hv⟩)⟩))
  | @expire q w hq hm =>
    rcases Multiset.mem_cons.mp hd with rfl | hd
    · exact .inr (.inr (.inl ⟨q, hq, hm, rfl⟩))
    · exact .inl (Multiset.mem_of_mem_erase hd)
  | @lose p ps hp =>
    exact (hgive rfl hd).imp_right fun hh =>
      .inr (.inr ⟨p, hp ▸ Multiset.mem_cons_self _ _, hh, .inl rfl⟩)
  | @crash p ps hp =>
    exact (hgive rfl hd).imp_right fun hh =>
      .inr (.inr ⟨p, hp ▸ Multiset.mem_cons_self _ _, hh, .inr (.inl rfl)⟩)
  | finish | tick => exact .inl hd

/-- Where a running task comes from, with its phase and program: it was running and nothing
    happened to it, or it was started, or made a call, or lost its connection. -/
theorem Step.proc_cases (h : Step site c l c') {p' : Proc} (hp' : p' ∈ c'.procs) :
    p' ∈ c.procs ∨
      (∃ t, l = .start t ∧ p' = t.launch site ∧ ∀ d, t.delivery = some d → d ∈ c.world.bus) ∨
      (∃ p o k r f n, l = .op p o r f ∧ p ∈ c.procs ∧ p.prog = .call o k ∧
        Exec site.net p.task (p.conf c.world) o r f n ∧ p' = p.resume n (k r)) ∨
      ∃ p ∈ c.procs, l = .lose p ∧ p' = { p with held := none } := by
  cases h with
  | start t ht =>
    rcases Multiset.mem_cons.mp hp' with rfl | hp'
    · exact .inr (.inl ⟨t, rfl, rfl, ht⟩)
    · exact .inl hp'
  | @op p ps o k r f n hp hk hx =>
    rcases Multiset.mem_cons.mp hp' with rfl | hp'
    · have hin : p ∈ c.procs := hp ▸ Multiset.mem_cons_self _ _
      exact .inr (.inr (.inl ⟨p, o, k, r, f, n, rfl, hin, hk, hx, rfl⟩))
    · exact .inl (hp ▸ Multiset.mem_cons_of_mem hp')
  | @lose p ps hp hh =>
    rcases Multiset.mem_cons.mp hp' with rfl | hp'
    · exact .inr (.inr (.inr ⟨p, hp ▸ Multiset.mem_cons_self _ _, rfl, rfl⟩))
    · exact .inl (hp ▸ Multiset.mem_cons_of_mem hp')
  | finish hp | crash hp => exact .inl (hp ▸ Multiset.mem_cons_of_mem hp')
  | expire | tick => exact .inl hp'

/-- Where a running task comes from. -/
theorem Step.task_cases (h : Step site c l c') {p' : Proc} (hp' : p' ∈ c'.procs) :
    (∃ p ∈ c.procs, p'.task = p.task) ∨
      (l = .start p'.task ∧ ∀ d, p'.task.delivery = some d → d ∈ c.world.bus) := by
  cases h with
  | start t ht =>
    rcases Multiset.mem_cons.mp hp' with rfl | hp'
    · exact .inr ⟨rfl, ht⟩
    · exact .inl ⟨p', hp', rfl⟩
  | @op p ps o k r f n hp hk hx =>
    rcases Multiset.mem_cons.mp hp' with rfl | hp'
    · exact .inl ⟨p, hp ▸ Multiset.mem_cons_self _ _, rfl⟩
    · exact .inl ⟨p', hp ▸ Multiset.mem_cons_of_mem hp', rfl⟩
  | @lose p ps hp hh =>
    rcases Multiset.mem_cons.mp hp' with rfl | hp'
    · exact .inl ⟨p, hp ▸ Multiset.mem_cons_self _ _, rfl⟩
    · exact .inl ⟨p', hp ▸ Multiset.mem_cons_of_mem hp', rfl⟩
  | finish hp | crash hp => exact .inl ⟨p', hp ▸ Multiset.mem_cons_of_mem hp', rfl⟩
  | expire | tick => exact .inl ⟨p', hp', rfl⟩

/-- A task goes on as it is, or makes a call, or ends, or loses its connection, or dies. -/
theorem Step.proc_kept (h : Step site c l c') {p : Proc} (hin : p ∈ c.procs) :
    p ∈ c'.procs ∨
      (∃ o k r f n, l = .op p o r f ∧ p.prog = .call o k ∧
        Exec site.net p.task (p.conf c.world) o r f n ∧ c'.world = n.world ∧
        p.resume n (k r) ∈ c'.procs) ∨
      (∃ ok, l = .finish p ok ∧ p.prog = .pure ok) ∨ l = .lose p ∨ l = .crash p := by
  cases h with
  | start t ht => exact .inl (Multiset.mem_cons_of_mem hin)
  | op hp hk hx =>
    rcases Multiset.mem_cons.mp (hp ▸ hin) with rfl | hps
    · exact .inr (.inl ⟨_, _, _, _, _, rfl, hk, hx, rfl, Multiset.mem_cons_self _ _⟩)
    · exact .inl (Multiset.mem_cons_of_mem hps)
  | finish hp hk =>
    rcases Multiset.mem_cons.mp (hp ▸ hin) with rfl | hps
    · exact .inr (.inr (.inl ⟨_, rfl, hk⟩))
    · exact .inl hps
  | lose hp hh =>
    rcases Multiset.mem_cons.mp (hp ▸ hin) with rfl | hps
    · exact .inr (.inr (.inr (.inl rfl)))
    · exact .inl (Multiset.mem_cons_of_mem hps)
  | crash hp =>
    rcases Multiset.mem_cons.mp (hp ▸ hin) with rfl | hps
    · exact .inr (.inr (.inr (.inr rfl)))
    · exact .inl hps
  | expire | tick => exact .inl hin

end

end Novamail

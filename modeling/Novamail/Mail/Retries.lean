/-
  The retry schedule.

  `defer_` increments the attempt of the job it holds and then publishes; when the publish fails,
  the delivery itself goes back, with the attempt it had.  So the attempt that is on the broker is
  the number of publishes that succeeded, if there is only ever one job of the message before the
  DLQ.  That is what the ledger says of a run without process death, lost connection and requeue,
  and with it the schedule is an induction: the one job there is moves from tier to tier.
-/
import Novamail.Mail.Conservation
import Novamail.Mail.Once
import Novamail.System.Origins

namespace Novamail

open Novamail.Core

/-! ## The tiers of a run -/

/-- The wait queue that a step puts a job of the message into. -/
def Label.visits (id : MsgId) : Label → Option Queue
  | .op _ (.write (.publish q j)) _ f =>
    if f.applied && q.isWait && j.messageID = id then some q else none
  | _ => none

/-- The wait queues the message was put into, one for each publish to a tier that succeeded. -/
def visited (id : MsgId) (ls : List Label) : List Queue := ls.filterMap (Label.visits id)

/-- The wait queues in their order. -/
def schedule : List Queue := [.wait30s, .wait5m, .wait30m]

theorem schedule_eq : schedule = waitTiers.map (·.queue) := rfl

theorem visited_append (id : MsgId) (ls : List Label) (l : Label) :
    visited id (ls ++ [l]) = visited id ls ++ (l.visits id).toList := List.filterMap_append

theorem visited_quiet {id : MsgId} {ls : List Label} {l : Label} (h : l.visits id = none) :
    visited id (ls ++ [l]) = visited id ls := by
  rw [visited_append, h]
  exact List.append_nil _

/-- The tier of the attempt after `n` visits is the next of the schedule. -/
theorem schedule_next {v : List Queue} {tier : WaitTier} (hv : v <+: schedule)
    (ht : tierForAttempt ((v.length : Int) + 1) = some tier) : v ++ [tier.queue] <+: schedule := by
  obtain ⟨rest, hrest⟩ := hv
  have hidx : waitTiers[v.length]? = some tier := by
    unfold tierForAttempt at ht
    dsimp only at ht
    split at ht
    · cases ht
    · rwa [Int.add_sub_cancel, Int.toNat_natCast] at ht
  have hget : schedule[v.length]? = some tier.queue := by
    rw [schedule_eq, List.getElem?_map, hidx]
    rfl
  rw [← hrest, List.getElem?_append_right le_rfl, Nat.sub_self] at hget
  cases rest with
  | nil => cases hget
  | cons q rest =>
    cases hget
    exact ⟨rest, by rw [← hrest, List.append_assoc]; rfl⟩

/-! ## One job -/

section
variable {site : Site} {c c' : Cluster} {l : Label} {id : MsgId}

/-- Without requeues a message has at most one undischarged job, and none while it is brought in. -/
theorem single_job (h : Reach (cluster site) calmNoRequeue c) (id : MsgId) :
    c.world.jobs id + c.load id ≤ c.world.submissions id ∧
      c.world.submissions id + c.pending id ≤ 1 := by
  have hledger := ledger (h.mono fun _ _ hok => hok.1) id
  have hreq : c.world.requeues id = 0 := List.count_eq_zero.mpr ((unrequeued h).log id)
  have hin := c.world.injected_eq id
  have honce := (fresh h id).once
  unfold Cluster.Ledger at hledger
  omega

theorem World.one_le_jobs {w : World} {q : Queue} {j : RelayJob} (hd : (q, .job j) ∈ w.bus) :
    1 ≤ w.jobs j.messageID :=
  Multiset.countP_pos.mpr ⟨_, hd, decide_eq_true rfl⟩

/-- A job on the broker beside a consumer that holds one makes two. -/
theorem Cluster.one_le_load {p : Proc} {j : RelayJob} (hin : p ∈ c.procs)
    (ht : p.task.job = some j) (hph : p.phase.holds = true) : 1 ≤ c.load j.messageID := by
  obtain ⟨ps, hp⟩ := Multiset.exists_cons_of_mem hin
  have hload := Cluster.load_cons hp c.world j.messageID
  have hown := Task.load_of_job ht hph j.messageID
  rw [show (Wire.job j).carries j.messageID = true from decide_eq_true rfl] at hown
  rw [hload, hown]
  exact Nat.le_add_right _ _

/-! ## The invariant -/

/-- The message has visited `v`: its job, on the broker or with a worker that has not moved it,
    carries one attempt for each tier. -/
structure Cluster.OnSchedule (c : Cluster) (id : MsgId) (v : List Queue) : Prop where
  inOrder : v <+: schedule
  queued : ∀ {q : Queue} {j : RelayJob}, (q, .job j) ∈ c.world.bus → q ≠ .dlq → j.messageID = id →
    j.attempt = v.length
  working : ∀ p ∈ c.procs, ∀ j, p.task = .deliver (.job j) → p.phase = .start →
    j.messageID = id → j.attempt = v.length
  entered : v ≠ [] → .submitted id ∈ c.world.log

variable {v : List Queue}

/-- While a message is brought in it has visited nothing. -/
theorem Cluster.OnSchedule.coming (h : c.OnSchedule id v)
    (hr : Reach (cluster site) calmNoRequeue c) {p : Proc} (hin : p ∈ c.procs)
    (hph : p.phase.pending = some id) : v = [] := by
  by_contra hne
  have hsub : 0 < c.world.submissions id := List.count_pos_iff.mpr (h.entered hne)
  have honce := (single_job hr id).2
  obtain ⟨ps, hp⟩ := Multiset.exists_cons_of_mem hin
  have hpend := Cluster.pending_cons hp c.world id
  have hone : p.phase.carries id = 1 := by
    rw [Phase.carries_of_pending hph, decide_eq_true rfl]
    rfl
  omega

/-- A publish that puts the message into no tier leaves the DLQ or a first job. -/
theorem Cluster.OnSchedule.published (h : c.OnSchedule id v)
    (hr : Reach (cluster site) calmNoRequeue c) {p : Proc} {wr : Write} {r : Bool} {f : Fate}
    (hst : Step site c (.op p (.write wr) r f) c') (hf : f.applied = true) {q : Queue}
    {j : RelayJob} (hpub : wr.publishes = some (q, .job j)) (hid : j.messageID = id)
    (hl : Label.visits id (.op p (.write wr) r f) = none) (hq : q ≠ .dlq) :
    j.attempt = v.length := by
  obtain ⟨hin, hturn⟩ := hst.turn hr
  cases hturn.publisher hpub with
  | worker ht hj hph hm hw =>
    subst hw
    obtain ⟨tier, htier, rfl, -⟩ := hm.tier_of_ne hq
    have hwait := tierForAttempt_isWait htier
    dsimp only [Label.visits] at hl
    rw [hf, hwait, decide_eq_true hid] at hl
    cases hl
  | producer hph hwork ha =>
    rw [h.coming hr hin (hid ▸ Phase.pending_of_inserted hph), ha]
    rfl
  | operator ht => exact absurd ht ((unrequeued hr).procs p hin _)

/-- A step that puts the message into no tier. -/
theorem Cluster.OnSchedule.quiet (h : c.OnSchedule id v)
    (hr : Reach (cluster site) calmNoRequeue c) (hok : calmNoRequeue c l)
    (hst : Step site c l c') (hl : l.visits id = none) : c'.OnSchedule id v := by
  refine ⟨h.inOrder, fun {q j} hd hq hid => ?_, fun p' hp' j ht hph hid => ?_, fun hne => ?_⟩
  · rcases hst.job_cases hd with
      hold | ⟨p, wr, r, f, rfl, hf, hpub⟩ | ⟨q', hq', hold, -⟩ | ⟨p, hin, hheld, hback⟩
    · exact h.queued hold hq hid
    · exact h.published hr hst hf hpub hid hl hq
    · exact h.queued hold (by rintro rfl; cases hq') hid
    · rcases hback with rfl | rfl | ⟨verdict, r, f, rfl, hv⟩
      · exact hok.1.elim
      · exact hok.1.elim
      · rcases held_delivers hr hin hheld with ⟨-, ht⟩ | ⟨hdlq, -⟩
        · exact h.working p hin j ht ((hst.turn hr).2.of_requeues hv ht) hid
        · exact absurd hdlq hq
  · rcases hst.proc_cases hp' with
      hold | ⟨t, -, rfl, hdel⟩ | ⟨p, o, k, r, f, n, -, hin, hk, hx, rfl⟩ | ⟨p, -, rfl, -⟩
    · exact h.working p' hold j ht hph hid
    · have ht : t = .deliver (.job j) := ht
      subst ht
      exact h.queued (hdel _ rfl) nofun hid
    · have hturn := (procs_ok hr p hin).turn_to hk hx
      exact h.working p hin j ht (hturn.of_start hph) hid
    · exact hok.1.elim
  · exact hst.log_subset (h.entered hne)

/-- A publish to a tier: it is the next one, and there is no other job. -/
theorem Cluster.OnSchedule.moved (h : c.OnSchedule id v)
    (hr : Reach (cluster site) calmNoRequeue c) {p : Proc} {q : Queue} {j : RelayJob} {r : Bool}
    {f : Fate} (hst : Step site c (.op p (.write (.publish q j)) r f) c') (hf : f.applied = true)
    (hwait : q.isWait = true) (hid : j.messageID = id) : c'.OnSchedule id (v ++ [q]) := by
  obtain ⟨hin, hturn⟩ := hst.turn hr
  cases hturn.publisher rfl with
  | producer hph hwork =>
    rw [hwork] at hwait
    cases hwait
  | operator ht => exact absurd ht ((unrequeued hr).procs p hin _)
  | @worker j₀ a ht hj hph hm _ =>
    subst hj
    obtain ⟨tier, htier, rfl, ha⟩ := hm.tier_of_ne (by rintro rfl; cases hwait)
    have hid₀ : j₀.messageID = id := hid
    have hold : j₀.attempt = v.length := h.working p hin j₀ ht hph hid₀
    have hjob : p.task.job = some j₀ := by
      rw [ht]
      rfl
    have hholds : p.phase.holds = true := by
      rw [hph]
      rfl
    have hload : 1 ≤ c.load id := hid₀ ▸ Cluster.one_le_load hin hjob hholds
    obtain ⟨hone, honce⟩ := single_job hr id
    cases hst with
    | @op _ ps _ k _ _ n hp hk hx =>
      cases hx with
      | write hposs =>
        cases f with
        | failed => cases hf
        | lost => cases hposs
        | ok =>
          refine ⟨schedule_next h.inOrder (hold ▸ htier), fun {q j'} hd hq hid' => ?_,
            fun p' hp' j' ht' hph' hid' => ?_, fun _ => ?_⟩
          · rcases Multiset.mem_cons.mp hd with he | hd
            · cases he
              rw [ha, hold, List.length_append]
              rfl
            · -- another job beside the one this worker holds
              have hjobs : 1 ≤ c.world.jobs id := hid' ▸ World.one_le_jobs hd
              omega
          · rcases Multiset.mem_cons.mp hp' with rfl | hp'
            · have hmoved : p.phase.nextWrite true (.publish tier.queue { j₀ with attempt := a }) =
                  .start := hph'
              rw [hph] at hmoved
              cases hmoved
            · -- another worker beside this one
              have hcons := Cluster.load_cons hp c.world id
              have hown : p.task.load p.phase id = 1 := by
                rw [Task.load_of_job hjob hholds,
                  show (Wire.job j₀).carries id = true from decide_eq_true hid₀]
                rfl
              have hother : 1 ≤ Cluster.load ⟨c.world, ps⟩ id := hid' ▸
                Cluster.one_le_load hp' (by rw [ht']; rfl) (by rw [hph']; rfl)
              omega
          · have hsub : 0 < c.world.submissions id := by omega
            exact List.mem_append_left _ (List.count_pos_iff.mp hsub)

/-! ## Runs -/

/-- What a step that visits a tier is. -/
theorem Label.visits_some {q : Queue} (h : l.visits id = some q) :
    ∃ p j r f, l = .op p (.write (.publish q j)) r f ∧ f.applied = true ∧ q.isWait = true ∧
      j.messageID = id := by
  unfold visits at h
  split at h
  · split at h
    · rename_i hcond
      cases h
      obtain ⟨hcond, hid⟩ := Bool.and_eq_true_iff.mp hcond
      obtain ⟨hf, hwait⟩ := Bool.and_eq_true_iff.mp hcond
      exact ⟨_, _, _, _, rfl, hf, hwait, of_decide_eq_true hid⟩
    · cases h
  · cases h

theorem on_schedule {ls : List Label} (h : Trace (cluster site) calmNoRequeue ls c)
    (id : MsgId) : c.OnSchedule id (visited id ls) := by
  refine h.invariant (I := fun ls c => c.OnSchedule id (visited id ls)) ?_ ?_
  · rintro c rfl
    refine ⟨List.nil_prefix, fun {q j} hd => ?_, fun p hp => ?_, fun hne => absurd rfl hne⟩
    · exact absurd hd (Multiset.notMem_zero _)
    · exact absurd hp (Multiset.notMem_zero p)
  · intro ls c l c' ht ih hok hst
    cases hl : l.visits id with
    | none =>
      rw [visited_quiet hl]
      exact ih.quiet ht.reach hok hst hl
    | some q =>
      obtain ⟨p, j, r, f, rfl, hf, hwait, hid⟩ := Label.visits_some hl
      rw [visited_append, hl]
      exact ih.moved ht.reach hst hf hwait hid

/-- After the whole schedule a job is published to the DLQ only. -/
theorem Cluster.OnSchedule.last (h : c.OnSchedule id schedule)
    (hr : Reach (cluster site) calmNoRequeue c) {p : Proc} {q : Queue} {j : RelayJob} {r : Bool}
    {f : Fate} (hst : Step site c (.op p (.write (.publish q j)) r f) c')
    (hid : j.messageID = id) : q = .dlq := by
  obtain ⟨hin, hturn⟩ := hst.turn hr
  cases hturn.publisher rfl with
  | producer hph => cases h.coming hr hin (hid ▸ Phase.pending_of_inserted hph)
  | operator ht => exact absurd ht ((unrequeued hr).procs p hin _)
  | @worker j₀ a ht hj hph hm _ =>
    subst hj
    by_contra hq
    obtain ⟨tier, htier, -⟩ := hm.tier_of_ne hq
    rw [h.working p hin j₀ ht hph hid] at htier
    cases htier

/-- **The retry schedule.**  In every run without process death, lost connection and requeue,
    whatever the providers, the limiters and the broker answer: the attempt a job carries on the
    broker outside the DLQ, or with a worker that has not moved it yet, is the number of its
    publishes to a tier that succeeded; the tiers it visited are the first of the schedule, in order and each
    once; and after all three it is published to the DLQ only. -/
theorem retry_schedule {ls : List Label} (h : Trace (cluster site) calmNoRequeue ls c)
    (id : MsgId) :
    (∀ (q : Queue) (j : RelayJob), (q, .job j) ∈ c.world.bus → j.messageID = id → q ≠ .dlq →
        j.attempt = (visited id ls).length) ∧
      (∀ p ∈ c.procs, ∀ j : RelayJob, p.task = .deliver (.job j) → p.phase = .start →
        j.messageID = id → j.attempt = (visited id ls).length) ∧
      visited id ls <+: [.wait30s, .wait5m, .wait30m] ∧ (visited id ls).Nodup ∧
      ∀ p q j r f c', visited id ls = [.wait30s, .wait5m, .wait30m] →
        Step site c (.op p (.write (.publish q j)) r f) c' → j.messageID = id →
          q = .dlq ∧ (f.applied = true → (.dlq, .job j) ∈ c'.world.bus) := by
  have hon := on_schedule h id
  refine ⟨fun q j hd hid hq => hon.queued hd hq hid,
    fun p hp j ht hph hid => hon.working p hp j ht hph hid, hon.inOrder,
    hon.inOrder.sublist.nodup (by decide), fun p q j r f c' hall hst hid => ?_⟩
  rw [hall] at hon
  have hq : q = .dlq := hon.last h.reach hst hid
  refine ⟨hq, fun hf => ?_⟩
  cases hst with
  | op hp hk hx =>
    cases hx with
    | write hposs =>
      show _ ∈ (c.world.after _ _ _).bus
      rw [World.after_bus, if_pos hf, hq]
      exact Multiset.mem_cons_self _ _

end

/-- The task is an operator requeue. -/
def Task.requeues : Task → Bool
  | .requeue _ => true
  | _ => false

/-- A calm script in which nothing is requeued. -/
theorem Stage.script_noRequeue {site : Site} {ans : Oracle site.net} {qs : List Cue} {s : Stage}
    (hcalm : ∀ q ∈ qs, q.isCalm = true) (hreq : ∀ q ∈ qs, q.starts (fun t => !t.requeues) = true)
    (h : Stage.script site ans {} qs = some s) :
    Reach (Novamail.cluster site) calmNoRequeue s.cluster := by
  refine Stage.script_reach (fun t => !t.requeues) hreq (fun q hq _ l _ _ _ _ hl hab => ?_)
    Stage.empty_reach (fun p hp => absurd hp List.not_mem_nil) h
  refine ⟨q.calm_of_labels (hcalm q hq) hl, fun id hstart => ?_⟩
  subst hstart
  cases hab

/-- Nothing is routed, so every delivery is deferred. -/
def deferringOracle : Oracle anyReply :=
  plainOracle {} (fun _ _ => { outcome := .defer, detail := "" }) fun _ _ => trivial

/-- The job of a message after some deferrals. -/
def deferredJob (attempt : Int) : RelayJob :=
  { Ingress.relayJob oneRecipient "m1" with attempt := attempt }

/-- A message is submitted, and deferred through every tier. -/
def deferredScript : List Cue :=
  [.start (.submit oneRecipient [])] ++ Cue.calls 0 "m1" 7 ++
    [.start (.deliver (.job (deferredJob 0)))] ++ Cue.calls 0 "" 7 ++
    [.expire .wait30s (.job (deferredJob 1)), .start (.deliver (.job (deferredJob 1)))] ++
    Cue.calls 0 "" 7 ++
    [.expire .wait5m (.job (deferredJob 2)), .start (.deliver (.job (deferredJob 2)))] ++
    Cue.calls 0 "" 7 ++ [.expire .wait30m (.job (deferredJob 3))]

/-- A run through the whole schedule: the next deferral goes to the DLQ. -/
theorem retry_schedule_exhausted : ∃ ls c,
    Trace (cluster (plainSite anyReply)) calmNoRequeue ls c ∧
      (.work, .job (deferredJob 3)) ∈ c.world.bus ∧
      visited "m1" ls = [.wait30s, .wait5m, .wait30m] ∧
      ∀ p q j r f c', Step (plainSite anyReply) c (.op p (.write (.publish q j)) r f) c' →
        j.messageID = "m1" → q = .dlq := by
  have hplay : (Stage.script (plainSite anyReply) deferringOracle {} deferredScript).any
      (fun s => (.work, .job (deferredJob 3)) ∈ s.world.bus) = true := by decide
  obtain ⟨s, hs, hend⟩ := (Option.any_eq_true _ _).mp hplay
  obtain ⟨ls, htrace⟩ := (Stage.script_noRequeue (by decide) (by decide) hs).trace
  have hjob : (.work, .job (deferredJob 3)) ∈ s.cluster.world.bus := of_decide_eq_true hend
  obtain ⟨hqueued, -, hprefix, -, hlast⟩ := retry_schedule htrace "m1"
  have hlen : (3 : Int) = (visited "m1" ls).length := hqueued .work _ hjob rfl nofun
  have hall : visited "m1" ls = [.wait30s, .wait5m, .wait30m] :=
    hprefix.eq_of_length (Int.ofNat_inj.mp hlen).symm
  exact ⟨ls, s.cluster, htrace, hjob, hall,
    fun p q j r f c' hst hid => (hlast p q j r f c' hall hst hid).1⟩

end Novamail

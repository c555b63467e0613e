/-
  Conservation of accepted mail.

  The ledger says that the jobs of an id, wherever they are, and its discharges add up to the jobs
  put in; freshness says that a producer puts in one.  Without operator requeues that leaves
  exactly three places for an accepted message when nothing is running: on the broker, delivered,
  or settled by the bounce generator.
-/
import Novamail.System.Fresh
import Novamail.System.Play

namespace Novamail

open Novamail.Core

/-! ## The two sides of the ledger -/

/-- The requeues on record for an id. -/
def World.requeues (w : World) (id : MsgId) : Nat := w.log.count (.requeued id)

/-- The Delivered reports on record for an id. -/
def World.deliveries (w : World) (id : MsgId) : Nat := w.log.count (.delivered id)

/-- The bounces settled for an id: published, or deliberately not sent. -/
def World.settlements (w : World) (id : MsgId) : Nat :=
  w.log.count (.dsnPublished id) + w.log.count (.dsnSuppressed id)

/-- The jobs in one queue that carry an id. -/
def World.jobsIn (w : World) (q : Queue) (id : MsgId) : Nat :=
  w.bus.countP fun d => d.1 = q ∧ d.2.carries id = true

/-- Counting an event, one entry at a time. -/
theorem count_cons_eq (e x : Event) (l : List Event) :
    (x :: l).count e = l.count e + if x = e then 1 else 0 := by
  rw [List.count_cons]
  by_cases h : x = e
  · rw [if_pos h, h, beq_self_eq_true, if_pos rfl]
  · rw [if_neg h, beq_false_of_ne h, if_neg Bool.false_ne_true]

theorem countP_inflow (l : List Event) (id : MsgId) :
    l.countP (Event.inflow id) = l.count (.submitted id) + l.count (.requeued id) := by
  induction l with
  | nil => rfl
  | cons x l ih =>
    rw [List.countP_cons, ih, count_cons_eq, count_cons_eq]
    cases x with
    | submitted i | requeued i =>
      by_cases h : i = id
      · simp only [Event.inflow, h, decide_true, if_true, reduceCtorEq, if_false, Nat.add_zero]
        omega
      · simp [Event.inflow, h]
    | _ => simp [Event.inflow]

theorem countP_outflow (l : List Event) (id : MsgId) :
    l.countP (Event.outflow id) =
      l.count (.delivered id) + (l.count (.dsnPublished id) + l.count (.dsnSuppressed id)) := by
  induction l with
  | nil => rfl
  | cons x l ih =>
    rw [List.countP_cons, ih, count_cons_eq, count_cons_eq, count_cons_eq]
    cases x with
    | delivered i | dsnPublished i | dsnSuppressed i =>
      by_cases h : i = id
      · simp only [Event.outflow, h, decide_true, if_true, reduceCtorEq, if_false, Nat.add_zero]
        omega
      · simp [Event.outflow, h]
    | _ => simp [Event.outflow]

theorem World.injected_eq (w : World) (id : MsgId) :
    w.injected id = w.submissions id + w.requeues id := countP_inflow w.log id

theorem World.discharged_eq (w : World) (id : MsgId) :
    w.discharged id = w.deliveries id + w.settlements id := countP_outflow w.log id

/-- One job with an id on the broker is one job in one queue. -/
theorem World.jobs_eq_one {w : World} {id : MsgId} (h : w.jobs id = 1) :
    ∃ q, w.jobsIn q id = 1 ∧ ∀ q', q' ≠ q → w.jobsIn q' id = 0 := by
  have hpos : 0 < w.bus.countP fun d => d.2.carries id = true := by
    unfold jobs at h
    omega
  obtain ⟨d, hd, hcar⟩ := Multiset.countP_pos.mp hpos
  have hrest : (w.bus.erase d).countP (fun d => d.2.carries id = true) = 0 := by
    have hcons := congrArg (Multiset.countP fun d => d.2.carries id = true)
      (Multiset.cons_erase hd)
    rw [Multiset.countP_cons, if_pos hcar] at hcons
    unfold jobs at h
    omega
  have hzero : ∀ q, (w.bus.erase d).countP (fun d => d.1 = q ∧ d.2.carries id = true) = 0 := by
    intro q
    refine Multiset.countP_eq_zero.mpr fun x hx hq => ?_
    exact Multiset.countP_eq_zero.mp hrest x hx hq.2
  have hin : ∀ q, w.jobsIn q id = if d.1 = q then 1 else 0 := by
    intro q
    unfold jobsIn
    rw [← Multiset.cons_erase hd, Multiset.countP_cons, hzero q]
    by_cases hq : d.1 = q
    · rw [if_pos ⟨hq, hcar⟩, if_pos hq]
    · rw [if_neg (fun hc => hq hc.1), if_neg hq]
  refine ⟨d.1, ?_, fun q' hq' => ?_⟩
  · rw [hin, if_pos rfl]
  · rw [hin, if_neg (Ne.symm hq')]

/-! ## Runs without requeues -/

/-- Nothing was requeued, and nobody is requeueing. -/
structure Cluster.Unrequeued (c : Cluster) : Prop where
  procs : ∀ p ∈ c.procs, ∀ id, p.task ≠ .requeue id
  log : ∀ id, .requeued id ∉ c.world.log

/-- A call records a requeue only in a requeue task. -/
theorem Exec.requeued_notMem {net : Net} {t : Task} {c c' : Conf} {o : Op} {r : o.Ret} {f : Fate}
    (h : Exec net t c o r f c') (ht : ∀ id, t ≠ .requeue id) {id : MsgId}
    (hr : .requeued id ∉ c.world.log) : .requeued id ∉ c'.world.log := by
  intro hmem
  rcases h.log_eq with ⟨wr, -, hl⟩ | ⟨q, r', -, hl⟩ | hl
  · rw [hl] at hmem
    rcases List.mem_append.mp hmem with hmem | hmem
    · exact hr hmem
    · rcases Task.mem_markWrite hmem with
        ⟨j, hj⟩ | ⟨i, hi⟩ | ⟨_, _, _, _, _, -, hi⟩ | ⟨_, _, _, _, _, -, -, hi⟩
      · unfold Task.handedOver at hj
        split at hj
        · cases List.mem_singleton.mp hj
        · cases List.mem_singleton.mp hj
        · rcases List.mem_cons.mp hj with hj | hj
          · cases hj
          · cases List.mem_singleton.mp hj
        · exact ht _ rfl
        · cases hj
      · cases hi
      · cases hi
      · cases hi
  · rw [hl] at hmem
    rcases List.mem_append.mp hmem with hmem | hmem
    · exact hr hmem
    · rcases Task.mem_markQuery hmem with ⟨_, hi⟩ | ⟨_, _, hi⟩ | ⟨_, hi⟩ <;> cases hi
  · exact hr (hl ▸ hmem)

theorem unrequeued {site : Site} {c : Cluster} (h : Reach (cluster site) calmNoRequeue c) :
    c.Unrequeued := by
  refine h.invariant (I := fun c => c.Unrequeued) ?_ ?_
  · rintro c rfl
    exact ⟨fun p hp => absurd hp (Multiset.notMem_zero p), fun id => List.not_mem_nil⟩
  · intro c l c' _ ih hok hst
    cases hst with
    | start t h =>
      refine ⟨fun p hp id => ?_, fun id hmem => ?_⟩
      · rcases Multiset.mem_cons.mp hp with rfl | hp
        · exact fun ht => hok.2 id (congrArg Label.start ht)
        · exact ih.procs p hp id
      · rcases List.mem_append.mp hmem with hmem | hmem
        · exact ih.log id hmem
        · obtain ⟨_, _, _, -, -, he⟩ := Task.mem_markStart hmem
          cases he
    | @op p ps o k r f c' hp hk hx =>
      have hin : p ∈ c.procs := hp ▸ Multiset.mem_cons_self _ _
      refine ⟨fun p' hp' => ?_, fun id => hx.requeued_notMem (ih.procs p hin) (ih.log id)⟩
      rcases Multiset.mem_cons.mp hp' with rfl | hp'
      · exact ih.procs p hin
      · exact ih.procs p' (hp ▸ Multiset.mem_cons_of_mem hp')
    | finish hp hk =>
      refine ⟨fun p' hp' => ih.procs p' (hp ▸ Multiset.mem_cons_of_mem hp'), fun id hmem => ?_⟩
      rcases List.mem_append.mp hmem with hmem | hmem
      · exact ih.log id hmem
      · obtain ⟨_, -, he⟩ := Task.mem_markEnd hmem
        cases he
    | expire | tick => exact ⟨ih.procs, ih.log⟩
    | lose | crash => exact hok.1.elim

/-! ## Conservation -/

/-- The ledger of an accepted message when nothing is running: one entry, somewhere. -/
theorem accepted_ledger {site : Site} {w : World} (h : Reach (handlers site) noRequeue w)
    {id : MsgId} (ha : .accepted id ∈ w.log) :
    w.jobs id + w.deliveries id + w.settlements id = 1 := by
  have hc := handlers_noRequeue h
  have hledger := ledger (hc.mono fun _ _ hok => hok.1) id
  have hfresh := (fresh hc id).once
  have hsub : 0 < w.submissions id := List.count_pos_iff.mpr ((recorded hc).accepted id ha)
  have hreq : w.requeues id = 0 := List.count_eq_zero.mpr ((unrequeued hc).log id)
  have hin := w.injected_eq id
  have hout := w.discharged_eq id
  unfold Cluster.Ledger at hledger
  have hload : Cluster.load ⟨w, 0⟩ id = 0 := rfl
  dsimp only at hledger hfresh
  omega

/-- **Conservation of accepted mail.**  With whole handlers as steps, in every run without requeue,
    whatever providers answer and whatever calls fail: an accepted message has exactly one job, in
    exactly one queue; or no job and one Delivered report; or no job and one settled bounce. -/
theorem accepted_mail_conserved {site : Site} {w : World}
    (h : Reach (handlers site) noRequeue w) {id : MsgId} (ha : .accepted id ∈ w.log) :
    ((∃ q, w.jobsIn q id = 1 ∧ ∀ q', q' ≠ q → w.jobsIn q' id = 0) ∧
        w.deliveries id = 0 ∧ w.settlements id = 0) ∨
      (w.jobs id = 0 ∧ w.deliveries id = 1 ∧ w.settlements id = 0) ∨
      (w.jobs id = 0 ∧ w.deliveries id = 0 ∧ w.settlements id = 1) := by
  have hone := accepted_ledger h ha
  by_cases hjobs : w.jobs id = 1
  · refine .inl ⟨w.jobs_eq_one hjobs, ?_, ?_⟩ <;> omega
  · by_cases hdel : w.deliveries id = 1
    · refine .inr (.inl ⟨?_, hdel, ?_⟩) <;> omega
    · refine .inr (.inr ⟨?_, ?_, ?_⟩) <;> omega

/-- A submission that succeeds. -/
theorem accepted_mail_conserved_submission :
    ∃ w : World, Reach (handlers (plainSite anyReply)) noRequeue w ∧ .accepted "m1" ∈ w.log ∧
      (((∃ q, w.jobsIn q "m1" = 1 ∧ ∀ q', q' ≠ q → w.jobsIn q' "m1" = 0) ∧
          w.deliveries "m1" = 0 ∧ w.settlements "m1" = 0) ∨
        (w.jobs "m1" = 0 ∧ w.deliveries "m1" = 1 ∧ w.settlements "m1" = 0) ∨
        (w.jobs "m1" = 0 ∧ w.deliveries "m1" = 0 ∧ w.settlements "m1" = 1)) := by
  have hplay : (World.moves (plainSite anyReply) deliveringOracle {}
      [.run (.submit (envelopeSession "a@s.test" ["b@r.test"]) []) (drawing "m1" 6)]).any
        (fun w => .accepted "m1" ∈ w.log) = true := by decide
  obtain ⟨w, hw, ha⟩ := (Option.any_eq_true _ _).mp hplay
  have hr : Reach (handlers (plainSite anyReply)) noRequeue w :=
    World.moves_reach (by rintro m hm w; cases List.mem_singleton.mp hm; trivial) (.init rfl) hw
  exact ⟨w, hr, of_decide_eq_true ha, accepted_mail_conserved hr (of_decide_eq_true ha)⟩

end Novamail

/-
  Ids are fresh: every message is brought into the system at most once.

  A producer draws an id, stores the body, inserts the row and publishes the job.  For every id,
  the producers still on their way plus the first publishes on record are at most one, and none
  before the id is drawn.  Unlike the ledger this survives process deaths and lost connections:
  they can only stop a producer.
-/
import Novamail.System.Ledger

namespace Novamail

open Novamail.Core

/-- The first publishes on record for an id. -/
def World.submissions (w : World) (id : MsgId) : Nat := w.log.count (.submitted id)

/-- The phase is on the way to publishing this id. -/
def Phase.carries (ph : Phase) (id : MsgId) : Nat := (decide (ph.pending = some id)).toNat

/-- The producers on their way to publishing this id. -/
def Cluster.pending (c : Cluster) (id : MsgId) : Nat := (c.procs.map fun p => p.phase.carries id).sum

theorem Cluster.pending_cons {c : Cluster} {p : Proc} {ps : Multiset Proc}
    (h : c.procs = p ::ₘ ps) (w : World) (id : MsgId) :
    c.pending id = p.phase.carries id + Cluster.pending ⟨w, ps⟩ id := by
  unfold pending
  rw [h, Multiset.map_cons, Multiset.sum_cons]

theorem World.submissions_record (w : World) (es : List Event) (id : MsgId) :
    (w.record es).submissions id = w.submissions id + es.count (.submitted id) := by
  unfold submissions
  rw [record_log, List.count_append]

theorem World.submissions_after (w : World) (t : Task) (wr : Write) (f : Fate) (id : MsgId) :
    (w.after t wr f).submissions id = w.submissions id + (t.markWrite f wr).count (.submitted id) := by
  unfold submissions
  rw [after_log, List.count_append]

theorem Phase.carries_of_pending {ph : Phase} {i : MsgId} (h : ph.pending = some i) (id : MsgId) :
    ph.carries id = (decide (i = id)).toNat := by
  unfold carries
  rw [h]
  exact congrArg Bool.toNat (decide_eq_decide.mpr Option.some_inj)

theorem count_one (i id : MsgId) :
    [Event.submitted i].count (.submitted id) = (decide (i = id)).toNat := by
  rw [List.count_singleton]
  by_cases h : i = id
  · rw [h]
    simp
  · simp [h]

/-- First publishes are part of the inflow. -/
theorem count_submitted_le (es : List Event) (id : MsgId) :
    es.count (.submitted id) ≤ es.countP (Event.inflow id) := by
  unfold List.count
  refine List.countP_mono_left fun e _ he => ?_
  rw [eq_of_beq he]
  exact decide_eq_true rfl

theorem count_submitted_zero {es : List Event} {id : MsgId}
    (h : es.countP (Event.inflow id) = 0) : es.count (.submitted id) = 0 :=
  Nat.le_zero.mp (h ▸ count_submitted_le es id)

/-! ## One call -/

/-- What a call does to the origin of an id: the publishes and the producers on their way do not
    become more, unless the call draws that very id for the first time. -/
inductive Origin (w : World) (ph : Phase) (w' : World) (ph' : Phase) : Prop where
  | kept (hids : w'.ids = w.ids)
      (h : ∀ id, w'.submissions id + ph'.carries id ≤ w.submissions id + ph.carries id)
  | drawn (new : MsgId) (hnew : new ∉ w.ids) (hids : w'.ids = new :: w.ids)
      (hs : ∀ id, w'.submissions id = w.submissions id) (hph : ph' = .drawn new)

section
variable {t : Task} {w : World} {ph ph' : Phase}

theorem origin_quiet_write {wr : Write} (f : Fate) (hp : wr.publishes = none)
    (hc : ∀ id, ph'.carries id ≤ ph.carries id) : Origin w ph (w.after t wr f) ph' := by
  refine .kept (w.after_ids t wr f) fun id => ?_
  rw [World.submissions_after, count_submitted_zero (t.markWrite_flow_none f id hp).1]
  exact Nat.add_le_add_left (hc id) _

theorem origin_query {es : List Event} (hin : ∀ id, es.countP (Event.inflow id) = 0)
    (hc : ∀ id, ph'.carries id ≤ ph.carries id) : Origin w ph (w.record es) ph' := by
  refine .kept rfl fun id => ?_
  rw [World.submissions_record, count_submitted_zero (hin id)]
  exact Nat.add_le_add_left (hc id) _

/-- A publish that hands over no new message. -/
theorem origin_publish_old {wr : Write} (f : Fate) {q : Queue} {j : RelayJob}
    (hp : wr.publishes = some (q, .job j))
    (hh : ∀ id, (t.handedOver j).count (.submitted id) = 0)
    (hc : ∀ id, ph'.carries id ≤ ph.carries id) : Origin w ph (w.after t wr f) ph' := by
  refine .kept (w.after_ids t wr f) fun id => ?_
  have hcount : (t.markWrite f wr).count (.submitted id) = 0 := by
    rw [Task.markWrite_publish hp, List.count_append]
    have hfail : (if t.produces && !f.reported then [Event.writeFailed j.messageID] else []).count
        (.submitted id) = 0 := by split <;> rfl
    rw [hfail]
    split
    · exact hh id
    · rfl
  rw [World.submissions_after, hcount]
  exact Nat.add_le_add_left (hc id) _

/-- The first publish of a producer. -/
theorem origin_publish_new {wr : Write} (f : Fate) {q : Queue} {j : RelayJob}
    (hp : wr.publishes = some (q, .job j))
    (hh : ∀ id, (t.handedOver j).count (.submitted id) = (decide (j.messageID = id)).toNat)
    (hc : ∀ id, ph'.carries id = 0) :
    Origin w (.inserted j.messageID) (w.after t wr f) ph' := by
  refine .kept (w.after_ids t wr f) fun id => ?_
  have hcount : (t.markWrite f wr).count (.submitted id) ≤ (decide (j.messageID = id)).toNat := by
    rw [Task.markWrite_publish hp, List.count_append]
    have hfail : (if t.produces && !f.reported then [Event.writeFailed j.messageID] else []).count
        (.submitted id) = 0 := by split <;> rfl
    rw [hfail]
    split
    · exact (hh id).le
    · exact Nat.zero_le _
  rw [World.submissions_after, hc, Phase.carries_of_pending rfl]
  omega

end

/-- What one call does to the origin of ids. -/
theorem Exec.origin {net : Net} {t : Task} {w : World} {held : Option (Queue × Wire)}
    {ph ph' : Phase} {o : Op} {r : o.Ret} {f : Fate} {c' : Conf}
    (hx : Exec net t ⟨w, held, ph⟩ o r f c') (hturn : Turn t ph o r ph') :
    Origin w ph c'.world ph' := by
  cases hturn with
  | read hq hi =>
    cases hx
    rw [Task.markQuery_nil hq hi]
    exact origin_query (fun _ => rfl) fun _ => le_rfl
  | selected | queried | swept =>
    cases hx
    exact origin_query (fun _ => rfl) fun _ => Nat.zero_le _
  | @undelivered j p m r ht h | @delivered j p m r ht h =>
    cases hx
    subst ht
    exact origin_query (fun id => (Task.markQuery_send_flow rfl p m r id).1) fun _ => Nat.zero_le _
  | suppressed ht =>
    cases hx
    subst ht
    exact origin_query (fun _ => rfl) fun _ => Nat.zero_le _
  | draw | redraw =>
    cases hx with
    | newID hnew => exact .drawn _ hnew rfl (fun _ => rfl) rfl
  | put | insertBody | insert =>
    cases hx
    refine origin_quiet_write f rfl fun id => ?_
    split
    · exact le_rfl
    · exact Nat.zero_le _
  | oversized | note | close =>
    cases hx
    exact origin_quiet_write f rfl fun _ => Nat.zero_le _
  | relayed | bounced | unsent | orphan | attempt | suppress | prune | announce =>
    cases hx
    exact origin_quiet_write f rfl fun _ => le_rfl
  | successor ht =>
    cases hx
    subst ht
    refine origin_publish_old f rfl (fun _ => rfl) fun id => ?_
    split <;> exact le_rfl
  | submission ht hid | alert ht hid =>
    cases hx
    subst ht
    subst hid
    refine origin_publish_new f rfl (fun id => count_one _ _) fun id => ?_
    split <;> rfl
  | @dsn orig i j ok ht hid =>
    cases hx
    subst ht
    subst hid
    refine origin_publish_new f rfl (fun id => ?_) fun id => ?_
    · show ([Event.submitted j.messageID] ++ [Event.dsnPublished orig.messageID]).count _ = _
      rw [List.count_append]
      exact count_one _ _
    · split <;> rfl
  | requeue ht =>
    cases hx
    subst ht
    exact origin_publish_old f rfl (fun _ => rfl) fun _ => Nat.zero_le _
  | ack | retry | regenerate | garbage =>
    cases hx
    exact .kept (by split <;> rfl) fun id => Nat.add_le_add (by split <;> exact le_rfl) (Nat.zero_le _)

/-! ## Runs -/

/-- Every id is brought into the system at most once, and not before it is drawn. -/
structure Cluster.Fresh (c : Cluster) (id : MsgId) : Prop where
  once : c.world.submissions id + c.pending id ≤ 1
  drawn : id ∉ c.world.ids → c.world.submissions id + c.pending id = 0

/-- Fresh stays fresh when publishes and producers do not become more and no id is undrawn. -/
theorem Cluster.Fresh.of_le {c c' : Cluster} {id : MsgId} (h : c.Fresh id)
    (hle : c'.world.submissions id + c'.pending id ≤ c.world.submissions id + c.pending id)
    (hids : ∀ i ∈ c.world.ids, i ∈ c'.world.ids) : c'.Fresh id := by
  refine ⟨hle.trans h.once, fun hid => ?_⟩
  have hz := h.drawn fun hmem => hid (hids id hmem)
  omega

theorem Task.markStart_count {t : Task} {id : MsgId} :
    t.markStart.count (.submitted id) = 0 := count_submitted_zero markStart_flow.1

theorem Task.markEnd_count {t : Task} {ph : Phase} {ok : Bool} {id : MsgId} :
    (t.markEnd ph ok).count (.submitted id) = 0 := count_submitted_zero markEnd_flow.1

/-- **Every id is brought into the system at most once**, in every run. -/
theorem fresh {site : Site} {ok : Cluster → Label → Prop} {c : Cluster}
    (h : Reach (cluster site) ok c) (id : MsgId) : c.Fresh id := by
  refine h.invariant (I := fun c => c.Fresh id) ?_ ?_
  · rintro c rfl
    exact ⟨Nat.zero_le _, fun _ => rfl⟩
  · intro c l c' hr ih _ hst
    cases hst with
    | start t h =>
      have hpend := Cluster.pending_cons (c := ⟨c.world.starting t, t.launch site ::ₘ c.procs⟩)
        (p := t.launch site) rfl c.world id
      have hsub : (c.world.starting t).submissions id = c.world.submissions id := by
        rw [World.starting, World.submissions_record, Task.markStart_count]
        rfl
      refine ih.of_le ?_ fun _ hi => hi
      rw [hpend]
      show _ + (0 + c.pending id) ≤ _
      rw [hsub, Nat.zero_add]
    | @op p ps o k r f c' hp hk hx =>
      have hin : p ∈ c.procs := hp ▸ Multiset.mem_cons_self _ _
      have hpend := Cluster.pending_cons hp c.world id
      have hpend' : Cluster.pending ⟨c'.world, p.resume c' (k r) ::ₘ ps⟩ id =
          c'.phase.carries id + Cluster.pending ⟨c.world, ps⟩ id :=
        Cluster.pending_cons (p := p.resume c' (k r)) rfl c.world id
      cases hx.origin ((procs_ok hr p hin).turn_to hk hx) with
      | kept hids hle =>
        refine ih.of_le ?_ fun _ hi => hids ▸ hi
        have hone := hle id
        rw [hpend, hpend']
        dsimp only
        omega
      | drawn new hnew hids hs hph =>
        have hcar : c'.phase.carries id = (decide (new = id)).toNat :=
          Phase.carries_of_pending (by rw [hph]; rfl) id
        have hsub := hs id
        by_cases heq : new = id
        · subst heq
          have hz := ih.drawn hnew
          rw [decide_eq_true rfl] at hcar
          refine ⟨?_, fun hid => absurd (hids ▸ List.mem_cons_self) hid⟩
          rw [hpend']
          dsimp only
          rw [hcar]
          show _ + (1 + _) ≤ 1
          omega
        · rw [decide_eq_false heq] at hcar
          refine ih.of_le ?_ fun i hi => hids ▸ List.mem_cons_of_mem _ hi
          rw [hpend, hpend']
          dsimp only
          rw [hcar, hsub]
          show _ + (0 + _) ≤ _
          omega
    | @finish p ps ok hp hk =>
      have hpend := Cluster.pending_cons hp c.world id
      refine ih.of_le ?_ fun _ hi => hi
      rw [hpend, World.submissions_record, Task.markEnd_count]
      show _ + Cluster.pending ⟨c.world, ps⟩ id ≤ _
      omega
    | expire | tick => exact ih.of_le le_rfl fun _ hi => hi
    | @lose p ps hp hh =>
      have hpend := Cluster.pending_cons hp c.world id
      refine ih.of_le ?_ fun _ hi => hi
      rw [hpend, Cluster.pending_cons (p := { p with held := none }) rfl c.world id]
      exact le_rfl
    | @crash p ps hp =>
      have hpend := Cluster.pending_cons hp c.world id
      refine ih.of_le ?_ fun _ hi => hi
      rw [hpend]
      show c.world.submissions id + Cluster.pending ⟨c.world, ps⟩ id ≤ _
      omega

/-! ## Acceptance -/

/-- A message whose publish succeeded, or that was accepted, is on record as submitted. -/
structure Cluster.Recorded (c : Cluster) : Prop where
  published : ∀ p ∈ c.procs, ∀ id, p.phase = .published id → .submitted id ∈ c.world.log
  accepted : ∀ id, .accepted id ∈ c.world.log → .submitted id ∈ c.world.log

/-- Acceptance is recorded by the end of a task only. -/
theorem Exec.accepted_mem {net : Net} {t : Task} {c c' : Conf} {o : Op} {r : o.Ret} {f : Fate}
    (h : Exec net t c o r f c') {id : MsgId} (ha : .accepted id ∈ c'.world.log) :
    .accepted id ∈ c.world.log := by
  rcases h.log_eq with ⟨wr, -, hl⟩ | ⟨q, r', -, hl⟩ | hl
  · rw [hl] at ha
    rcases List.mem_append.mp ha with ha | ha
    · exact ha
    · rcases Task.mem_markWrite ha with
        ⟨j, hj⟩ | ⟨i, hi⟩ | ⟨_, _, _, _, _, -, hi⟩ | ⟨_, _, _, _, _, -, -, hi⟩
      · rcases Task.mem_handedOver hj with hi | hi | ⟨_, -, hi⟩ <;> cases hi
      · cases hi
      · cases hi
      · cases hi
  · rw [hl] at ha
    rcases List.mem_append.mp ha with ha | ha
    · exact ha
    · rcases Task.mem_markQuery ha with ⟨_, hi⟩ | ⟨_, _, hi⟩ | ⟨_, hi⟩ <;> cases hi
  · exact hl ▸ ha

/-- A call that ends in `published` has just put the message on record, or was there before. -/
theorem Exec.published {net : Net} {t : Task} {w : World} {held : Option (Queue × Wire)}
    {ph ph' : Phase} {o : Op} {r : o.Ret} {f : Fate} {c' : Conf}
    (hx : Exec net t ⟨w, held, ph⟩ o r f c') (hturn : Turn t ph o r ph') {id : MsgId}
    (hph : ph' = .published id) : ph = .published id ∨ .submitted id ∈ c'.world.log := by
  have hnew : ∀ {wr : Write} {q : Queue} {j : RelayJob}, wr.publishes = some (q, .job j) →
      .submitted j.messageID ∈ t.handedOver j → f.reported = true →
      .submitted j.messageID ∈ (w.after t wr f).log := by
    intro wr q j hp hh hf
    rw [World.after_log, Task.markWrite_publish hp, if_pos (Fate.applied_of_reported hf)]
    exact List.mem_append_right _ (List.mem_append_left _ hh)
  cases hturn with
  | read | bounced | suppress | prune | announce => exact .inl hph
  | submission ht hid | alert ht hid | dsn ht hid =>
    cases hx
    subst ht
    subst hid
    split at hph
    · rename_i hf
      cases hph
      exact .inr (hnew rfl List.mem_cons_self hf)
    · cases hph
  | put | insertBody | insert | successor => split at hph <;> cases hph
  | _ => cases hph

theorem recorded {site : Site} {ok : Cluster → Label → Prop} {c : Cluster}
    (h : Reach (cluster site) ok c) : c.Recorded := by
  refine h.invariant (I := fun c => c.Recorded) ?_ ?_
  · rintro c rfl
    exact ⟨fun p hp => absurd hp (Multiset.notMem_zero p), fun id h => absurd h List.not_mem_nil⟩
  · intro c l c' hr ih _ hst
    cases hst with
    | start t h =>
      refine ⟨fun p hp id hph => ?_, fun id ha => ?_⟩
      · rcases Multiset.mem_cons.mp hp with rfl | hp
        · cases hph
        · exact List.mem_append_left _ (ih.published p hp id hph)
      · rcases List.mem_append.mp ha with ha | ha
        · exact List.mem_append_left _ (ih.accepted id ha)
        · obtain ⟨_, _, _, -, -, he⟩ := Task.mem_markStart ha
          cases he
    | @op p ps o k r f c' hp hk hx =>
      have hin : p ∈ c.procs := hp ▸ Multiset.mem_cons_self _ _
      refine ⟨fun p' hp' id hph => ?_, fun id ha => ?_⟩
      · rcases Multiset.mem_cons.mp hp' with rfl | hp'
        · rcases hx.published ((procs_ok hr p hin).turn_to hk hx) hph with h | h
          · exact hx.log_subset (ih.published p hin id h)
          · exact h
        · exact hx.log_subset (ih.published p' (hp ▸ Multiset.mem_cons_of_mem hp') id hph)
      · exact hx.log_subset (ih.accepted id (hx.accepted_mem ha))
    | @finish p ps ok hp hk =>
      have hin : p ∈ c.procs := hp ▸ Multiset.mem_cons_self _ _
      refine ⟨fun p' hp' id hph => ?_, fun id ha => ?_⟩
      · exact List.mem_append_left _
          (ih.published p' (hp ▸ Multiset.mem_cons_of_mem hp') id hph)
      · rcases List.mem_append.mp ha with ha | ha
        · exact List.mem_append_left _ (ih.accepted id ha)
        · obtain ⟨i, hph, he⟩ := Task.mem_markEnd ha
          cases he
          exact List.mem_append_left _ (ih.published p hin id hph)
    | expire | tick => exact ⟨ih.published, ih.accepted⟩
    | @lose p ps hp hh =>
      refine ⟨fun p' hp' id hph => ?_, ih.accepted⟩
      rcases Multiset.mem_cons.mp hp' with rfl | hp'
      · exact ih.published p (hp ▸ Multiset.mem_cons_self _ _) id hph
      · exact ih.published p' (hp ▸ Multiset.mem_cons_of_mem hp') id hph
    | @crash p ps hp =>
      exact ⟨fun p' hp' => ih.published p' (hp ▸ Multiset.mem_cons_of_mem hp'), ih.accepted⟩

end Novamail

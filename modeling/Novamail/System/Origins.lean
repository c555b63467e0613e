/-
  Where what is there after a step comes from.

  A body, a row, an entry of the record and a message on its way in are all traced back to the step
  that brought them: they were there before, or the step is one write of one task, and the list of
  turns says which task and in which phase.
-/
import Novamail.System.Custody

namespace Novamail

open Novamail.Core

/-! ## Producers and bodies -/

/-- A message is on its way in after a call only if it was before, or its id was just drawn. -/
theorem Exec.pending_cases {net : Net} {t : Task} {w : World} {held : Option (Queue × Wire)}
    {ph ph' : Phase} {o : Op} {r : o.Ret} {f : Fate} {c' : Conf}
    (hx : Exec net t ⟨w, held, ph⟩ o r f c') (hturn : Turn t ph o r ph') {id : MsgId}
    (h : ph'.pending = some id) : ph.pending = some id ∨ id ∉ w.ids := by
  cases hturn with
  | read | undelivered | relayed | bounced | unsent | orphan | suppress | prune | announce
  | attempt => exact .inl h
  | draw | redraw =>
    cases h
    cases hx with
    | newID hnew => exact .inr hnew
  | put | insertBody | insert =>
    split at h
    · exact .inl h
    · cases h
  | successor | submission | dsn | alert => split at h <;> cases h
  | _ => cases h

/-- A body that is there after a step was there before, or the step stored it. -/
theorem Step.body_cases {site : Site} {c c' : Cluster} {l : Label} (h : Step site c l c')
    {k : String} (hb : (c'.world.bodies k).isSome = true) :
    (c.world.bodies k).isSome = true ∨ ∃ p wr r f, l = .op p (.write wr) r f ∧ f.applied = true ∧
      ∃ b, wr = .put k b ∨ wr = .insertBody k b := by
  cases h with
  | op hp hk hx =>
    cases hx with
    | @write wr f hposs =>
      dsimp only at hb
      unfold World.after at hb
      rw [World.record_bodies] at hb
      split at hb
      · rename_i hf
        exact (Write.bodies_cases hb).imp_right fun hput => ⟨_, _, _, _, rfl, hf, hput⟩
      · exact .inl hb
    | ask | newID => exact .inl hb
    | settle =>
      dsimp only at hb
      split at hb
      · exact .inl hb
      · exact .inl hb
  | start | finish | expire | lose | crash | tick => exact .inl hb

/-! ## Jobs -/

/-- What does not go to the DLQ goes to the next tier. -/
theorem RelayJob.Moves.tier_of_ne {j : RelayJob} {q : Queue} {a : Int} (h : j.Moves q a)
    (hq : q ≠ .dlq) : ∃ tier, tierForAttempt (j.attempt + 1) = some tier ∧ q = tier.queue ∧
      a = j.attempt + 1 := by
  cases h with
  | tier htier => exact ⟨_, htier, rfl, rfl⟩
  | exhausted | failed => exact absurd rfl hq

theorem Phase.pending_of_stored {ph : Phase} {id : MsgId} (h : ph = .stored id) :
    ph.pending = some id := by
  rw [h]
  rfl

theorem Phase.pending_of_inserted {ph : Phase} {id : MsgId} (h : ph = .inserted id) :
    ph.pending = some id := by
  rw [h]
  rfl

/-- Who publishes a job, from which phase, and what is in it. -/
inductive Publisher (t : Task) (ph : Phase) (wr : Write) (q : Queue) (j : RelayJob) : Prop where
  | worker {j₀ : RelayJob} {a : Int} (ht : t = .deliver (.job j₀))
      (hj : j = { j₀ with attempt := a }) (hph : ph = .start) (hm : j₀.Moves q a)
      (hw : wr = .publish q j)
  | producer (hph : ph = .inserted j.messageID) (hq : q = .work) (ha : j.attempt = 0)
      (ht : t.produces = true)
  | operator {row : Row} (ht : t = .requeue j.messageID) (hph : ph = .selected row)
      (hj : j = Admin.requeueJob j.messageID row) (hw : wr = .publishRelayJob j) (hq : q = .work)

theorem Turn.publisher {t : Task} {ph ph' : Phase} {wr : Write} {r : Bool} {q : Queue}
    {j : RelayJob} (h : Turn t ph (.write wr) r ph') (hp : wr.publishes = some (q, .job j)) :
    Publisher t ph wr q j := by
  cases h with
  | successor ht hq hm =>
    cases hp
    exact .worker ht rfl rfl hm rfl
  | submission ht hid hk hj | dsn ht hid hk hf hj =>
    cases hp
    subst hj
    exact .producer rfl rfl rfl (ht ▸ rfl)
  | alert ht hid hk hj =>
    cases hp
    obtain ⟨sender, rfl⟩ := hj
    exact .producer rfl rfl rfl (ht ▸ rfl)
  | requeue ht hl hr he hj =>
    cases hp
    exact .operator ht rfl hj rfl rfl
  | _ => cases hp

/-- A successor has the id of the job it came from. -/
theorem Task.delivers_successor {t : Task} {j j₀ : RelayJob} {a : Int}
    (ht : t = .deliver (.job j₀)) (hj : j = { j₀ with attempt := a }) :
    t.delivers j.messageID = true := by
  rw [ht, hj]
  exact decide_eq_true rfl

/-- A task that is at its start was there before. -/
theorem Turn.of_start {t : Task} {ph ph' : Phase} {o : Op} {r : o.Ret} (h : Turn t ph o r ph')
    (hph : ph' = .start) : ph = .start := by
  cases h with
  | read | suppress | prune | announce => exact hph
  | undelivered | attempt => rfl
  | successor => rfl
  | put | insertBody | insert | submission | dsn | alert => split at hph <;> cases hph
  | _ => cases hph

/-- Only a delivery that was not moved is put back from the work queue. -/
theorem Turn.of_requeues {t : Task} {ph ph' : Phase} {v : Verdict} {r : (Op.settle v).Ret}
    {j : RelayJob} (h : Turn t ph (.settle v) r ph') (hv : v.requeues = true)
    (ht : t = .deliver (.job j)) : ph = .start := by
  cases h with
  | ack | garbage => cases hv
  | retry => rfl
  | regenerate hb =>
    rw [ht] at hb
    cases hb

/-! ## Who can be in which phase -/

section
variable {site : Site} {ok : Cluster → Label → Prop} {c c' : Cluster} {l : Label} {id : MsgId}

/-- Only a worker moves a job on, sends it, or closes it. -/
theorem Turn.worker {t : Task} {ph ph' : Phase} {o : Op} {r : o.Ret} (h : Turn t ph o r ph')
    (hin : ph = .moved ∨ ph = .sent ∨ ph = .closed → ∃ j, t = .deliver (.job j)) :
    ph' = .moved ∨ ph' = .sent ∨ ph' = .closed → ∃ j, t = .deliver (.job j) := by
  intro hph
  cases h with
  | successor ht | delivered ht | close ht | relayed ht => exact ⟨_, ht⟩
  | read | suppress | prune | announce => exact hin hph
  | put | insertBody | insert | submission | dsn | alert =>
    split at hph <;> rcases hph with h | h | h <;> cases h
  | _ => rcases hph with h | h | h <;> cases h

theorem workers_only (h : Reach (cluster site) ok c) : ∀ p ∈ c.procs,
    p.phase = .moved ∨ p.phase = .sent ∨ p.phase = .closed → ∃ j, p.task = .deliver (.job j) := by
  refine procs_invariant (Q := fun _ p => p.phase = .moved ∨ p.phase = .sent ∨ p.phase = .closed →
    ∃ j, p.task = .deliver (.job j)) (fun _ _ _ _ hq => hq) ?_ ?_ (fun _ _ _ hq => hq) h
  · intro c t _ _ _ hph
    rcases hph with h | h | h <;> cases h
  · intro c p o k r f n hr _ hin hk hx hq
    exact ((procs_ok hr p hin).turn_to hk hx).worker hq

/-- A job that is put back was held by a consumer of its queue. -/
theorem held_delivers (hr : Reach (cluster site) ok c) {p : Proc} {q : Queue} {j : RelayJob}
    (hin : p ∈ c.procs) (hh : p.held = some (q, .job j)) :
    (q = .work ∧ p.task = .deliver (.job j)) ∨ (q = .dlq ∧ p.task = .bounce (.job j)) := by
  have hd : p.task.delivery = some (q, .job j) := by
    rcases (procs_ok hr p hin).held with hn | ⟨hd, -⟩
    · rw [hh] at hn
      cases hn
    · exact hd.symm.trans hh
  cases ht : p.task with
  | deliver w =>
    rw [ht] at hd
    cases hd
    exact .inl ⟨rfl, rfl⟩
  | bounce w =>
    rw [ht] at hd
    cases hd
    exact .inr ⟨rfl, rfl⟩
  | _ =>
    rw [ht] at hd
    cases hd

/-! ## Rows and records -/

/-- A row that is there after a step was there before, or was inserted, or had an attempt
    recorded; nothing else of it changes. -/
theorem Step.row_cases (hst : Step site c l c') {row' : Row} (h : c'.world.rows id = some row') :
    c.world.rows id = some row' ∨
      (∃ p env ref info logged r f, l = .op p (.write (.insertMessage id env ref info logged)) r f ∧
        f.applied = true ∧
          row' = { envelope := env, bodyRef := ref, info := info, updatedAt := c.world.clock }) ∨
      ∃ p st kind provider detail r f row,
        l = .op p (.write (.recordAttempt id st kind provider detail)) r f ∧ f.applied = true ∧
          c.world.rows id = some row ∧
          row' = { row with
            status := st, attempts := row.attempts + 1, updatedAt := c.world.clock } := by
  cases hst with
  | op hp hk hx =>
    cases hx with
    | @write wr f hposs =>
      dsimp only at h
      unfold World.after at h
      rw [World.record_rows] at h
      split at h
      · rename_i hf
        have hother : wr.rowKey ≠ some id → (∀ days, wr ≠ .pruneOld days) →
            c.world.rows id = some row' := by
          intro hk hp
          rwa [Write.apply_rows_of_ne hk hp] at h
        cases wr with
        | insertMessage i env ref info logged =>
          by_cases hi : i = id
          · subst hi
            rw [Write.apply_rows_insertMessage] at h
            cases h
            exact .inr (.inl ⟨_, _, _, _, _, _, _, rfl, hf, rfl⟩)
          · exact .inl (hother (fun hc => hi (Option.some_inj.mp hc)) nofun)
        | recordAttempt i st kind provider detail =>
          by_cases hi : i = id
          · subst hi
            rw [Write.apply_rows_recordAttempt] at h
            obtain ⟨row, hrow, rfl⟩ := Option.map_eq_some_iff.mp h
            exact .inr (.inr ⟨_, _, _, _, _, _, _, row, rfl, hf, hrow, rfl⟩)
          · exact .inl (hother (fun hc => hi (Option.some_inj.mp hc)) nofun)
        | pruneOld days =>
          rw [Write.apply_rows_pruneOld] at h
          exact .inl (Option.filter_eq_some_iff.mp h).1
        | _ => exact .inl h
      · exact .inl h
    | ask | newID => exact .inl h
    | settle =>
      dsimp only at h
      split at h
      · exact .inl h
      · exact .inl h
  | start | finish | expire | lose | crash | tick => exact .inl h

/-- An attempt on record was there before, or the step recorded it. -/
theorem Step.recorded_cases (hst : Step site c l c') {st : Status}
    (h : .recorded id st ∈ c'.world.log) : .recorded id st ∈ c.world.log ∨
      ∃ p kind provider detail r f,
        l = .op p (.write (.recordAttempt id st kind provider detail)) r f ∧ f.applied = true := by
  rcases hst.event_cases h with h | ⟨t, -, hm⟩ | ⟨p, wr, r, f, rfl, hm⟩ | ⟨p, q, r, f, -, hm⟩ |
    ⟨p, ok, -, hm⟩
  · exact .inl h
  · obtain ⟨_, _, _, -, -, he⟩ := Task.mem_markStart hm
    cases he
  · cases wr with
    | recordAttempt i st' kind provider detail =>
      dsimp only [Task.markWrite] at hm
      rcases List.mem_append.mp hm with hm | hm
      · split at hm
        · rename_i hf
          cases List.mem_singleton.mp hm
          exact .inr ⟨p, kind, provider, detail, r, f, rfl, hf⟩
        · cases hm
      · split at hm
        · cases List.mem_singleton.mp hm
        · cases hm
    | _ =>
      rcases Task.mem_markWrite hm with
        ⟨j, hj⟩ | ⟨i, hi⟩ | ⟨_, _, _, _, _, hw, -⟩ | ⟨_, _, _, _, _, -, -, hi⟩
      · rcases Task.mem_handedOver hj with hi | hi | ⟨_, -, hi⟩ <;> cases hi
      · cases hi
      · cases hw
      · cases hi
  · rcases Task.mem_markQuery hm with ⟨_, he⟩ | ⟨_, _, he⟩ | ⟨_, he⟩ <;> cases he
  · obtain ⟨_, -, he⟩ := Task.mem_markEnd hm
    cases he

/-- Who records an attempt, and in which phase. -/
inductive Recorder (t : Task) (ph : Phase) (id : MsgId) (st : Status) : Prop where
  | attempt (ht : t.delivers id = true) (hph : ph = .start) (hst : st = .failed ∨ st = .deferred)
  | close (ht : t.delivers id = true) (hph : ph = .sent) (hst : st = .relayed)
  | note (ht : t.bounces id = true) (hph : ph = .start) (hst : st = .bounced)

theorem Step.recorder (hr : Reach (cluster site) ok c) {p : Proc} {st : Status} {kind : EventKind}
    {provider detail : String} {r : Bool} {f : Fate}
    (hst : Step site c (.op p (.write (.recordAttempt id st kind provider detail)) r f) c') :
    p ∈ c.procs ∧ Recorder p.task p.phase id st := by
  obtain ⟨hin, hturn⟩ := hst.turn hr
  refine ⟨hin, ?_⟩
  generalize p.phase.next (.write _) r = ph' at hturn
  generalize p.phase = ph at hturn ⊢
  generalize p.task = t at hturn ⊢
  cases hturn with
  | attempt ht hs => exact .attempt (by rw [ht]; exact decide_eq_true rfl) rfl hs
  | close ht => exact .close (by rw [ht]; exact decide_eq_true rfl) rfl rfl
  | note ht => exact .note (by rw [ht]; exact decide_eq_true rfl) rfl rfl

/-- An attempt that took effect sets the status. -/
theorem Step.recorded_row {p : Proc} {st : Status} {kind : EventKind} {provider detail : String}
    {r : Bool} {f : Fate} {row' : Row}
    (hst : Step site c (.op p (.write (.recordAttempt id st kind provider detail)) r f) c')
    (hf : f.applied = true) (h : c'.world.rows id = some row') : row'.status = st := by
  cases hst with
  | op hp hk hx =>
    cases hx with
    | write hposs =>
      dsimp only at h
      unfold World.after at h
      rw [World.record_rows, if_pos hf, Write.apply_rows_recordAttempt] at h
      obtain ⟨row, -, rfl⟩ := Option.map_eq_some_iff.mp h
      rfl

/-- A row is inserted by the producer of its message. -/
theorem Step.inserter (hr : Reach (cluster site) ok c) {p : Proc} {env : Envelope} {ref : BodyRef}
    {info : MessageMeta} {logged r : Bool} {f : Fate}
    (hst : Step site c (.op p (.write (.insertMessage id env ref info logged)) r f) c') :
    p ∈ c.procs ∧ p.phase = .stored id ∧ p.task.produces = true := by
  obtain ⟨hin, hturn⟩ := hst.turn hr
  refine ⟨hin, ?_⟩
  generalize p.phase.next (.write _) r = ph' at hturn
  generalize p.phase = ph at hturn ⊢
  cases hturn with
  | insert ht => exact ⟨rfl, ht⟩

/-- Attempts are recorded for drawn ids. -/
theorem recorded_drawn (h : Reach (cluster site) ok c) {st : Status}
    (hrec : .recorded id st ∈ c.world.log) : id ∈ c.world.ids := by
  refine h.invariant (I := fun c => .recorded id st ∈ c.world.log → id ∈ c.world.ids) ?_ ?_ hrec
  · rintro c rfl hmem
    exact absurd hmem List.not_mem_nil
  · intro c l c' hr ih _ hst hmem
    refine hst.ids_subset ?_
    rcases hst.recorded_cases hmem with hold | ⟨p, kind, provider, detail, r, f, rfl, hf⟩
    · exact ih hold
    · obtain ⟨hin, hrec⟩ := hst.recorder hr
      have hcar : p.task.carries id = true := by
        rw [Task.carries_eq]
        cases hrec with
        | attempt ht | close ht => rw [ht]; rfl
        | note ht => rw [ht]; exact Bool.or_true _
      obtain ⟨j, hj, he⟩ := (Option.any_eq_true _ _).mp hcar
      exact of_decide_eq_true he ▸ (((keyed hr).tasks p hin).job hj).drawn

end

/-! ## Who drew an id -/

/-- The task drew the id in this run. -/
def Drew (ls : List Label) (t : Task) (id : MsgId) : Prop :=
  ∃ p f, Label.op p .newID id f ∈ ls ∧ p.task = t

section
variable {site : Site} {ok : Cluster → Label → Prop} {c c' : Cluster} {l : Label} {id : MsgId}
  {ls : List Label} {t : Task}

theorem Drew.mono {ls' : List Label} (hsub : ls ⊆ ls') (h : Drew ls t id) : Drew ls' t id := by
  obtain ⟨p, f, hmem, ht⟩ := h
  exact ⟨p, f, hsub hmem, ht⟩

theorem Drew.cases (h : Drew (ls ++ [l]) t id) :
    Drew ls t id ∨ ∃ p f, l = .op p .newID id f ∧ p.task = t := by
  obtain ⟨p, f, hmem, ht⟩ := h
  rcases List.mem_append.mp hmem with hmem | hmem
  · exact .inl ⟨p, f, hmem, ht⟩
  · exact .inr ⟨p, f, (List.mem_singleton.mp hmem).symm, ht⟩

/-- An id that is drawn after a step was drawn before, or the step drew it. -/
theorem Step.ids_cases (h : Step site c l c') (hid : id ∈ c'.world.ids) :
    id ∈ c.world.ids ∨ ∃ p f, l = .op p .newID id f ∧ p ∈ c.procs := by
  cases h with
  | @op p ps o k r f n hp hk hx =>
    cases hx with
    | newID hnew =>
      rcases List.mem_cons.mp hid with rfl | hid
      · exact .inr ⟨p, _, rfl, hp ▸ Multiset.mem_cons_self _ _⟩
      · exact .inl hid
    | write hposs =>
      dsimp only at hid
      rw [World.after_ids] at hid
      exact .inl hid
    | ask => exact .inl hid
    | settle =>
      dsimp only at hid
      split at hid
      · exact .inl hid
      · exact .inl hid
  | start | finish | expire | lose | crash | tick => exact .inl hid

/-- What is drawn was not drawn before. -/
theorem Step.drawn_new {p : Proc} {f : Fate} (h : Step site c (.op p .newID id f) c') :
    id ∉ c.world.ids ∧ id ∈ c'.world.ids := by
  cases h with
  | op hp hk hx =>
    cases hx with
    | newID hnew => exact ⟨hnew, List.mem_cons_self⟩

/-- Every drawn id was drawn by one task, and a producer on its way drew the id it brings in. -/
structure Drawers (ls : List Label) (c : Cluster) : Prop where
  drawn : ∀ {t : Task} {id : MsgId}, Drew ls t id → id ∈ c.world.ids
  known : ∀ {id : MsgId}, id ∈ c.world.ids → ∃ t, Drew ls t id
  once : ∀ {t t' : Task} {id : MsgId}, Drew ls t id → Drew ls t' id → t = t'
  pending : ∀ p ∈ c.procs, ∀ {id : MsgId}, p.phase.pending = some id → Drew ls p.task id

theorem drawers (h : Trace (cluster site) ok ls c) : Drawers ls c := by
  refine h.invariant (I := Drawers) ?_ ?_
  · rintro c rfl
    refine ⟨fun ⟨_, _, hmem, _⟩ => ?_, fun hid => ?_, fun ⟨_, _, hmem, _⟩ => ?_, fun p hp => ?_⟩
    · cases hmem
    · cases hid
    · cases hmem
    · exact absurd hp (Multiset.notMem_zero p)
  · intro ls c l c' ht ih hok hst
    have hold : ∀ {t : Task} {id : MsgId}, Drew ls t id → Drew (ls ++ [l]) t id :=
      fun hd => hd.mono (List.subset_append_left ls [l])
    have hnew : ∀ {p : Proc} {id : MsgId} {f : Fate}, l = .op p .newID id f →
        Drew (ls ++ [l]) p.task id := fun he =>
      ⟨_, _, List.mem_append_right _ (List.mem_singleton.mpr he.symm), rfl⟩
    refine ⟨fun hd => ?_, fun hid => ?_, fun hd hd' => ?_, fun p' hp' id hph => ?_⟩
    · rcases hd.cases with hd | ⟨p, f, rfl, -⟩
      · exact hst.ids_subset (ih.drawn hd)
      · exact hst.drawn_new.2
    · rcases hst.ids_cases hid with hid | ⟨p, f, he, -⟩
      · obtain ⟨t, hd⟩ := ih.known hid
        exact ⟨t, hold hd⟩
      · exact ⟨p.task, hnew he⟩
    · rcases hd.cases with h₁ | ⟨p, f, he, hp⟩
      · rcases hd'.cases with h₂ | ⟨p', f', rfl, -⟩
        · exact ih.once h₁ h₂
        · exact absurd (ih.drawn h₁) hst.drawn_new.1
      · rcases hd'.cases with h₂ | ⟨p', f', he', hp'⟩
        · subst he
          exact absurd (ih.drawn h₂) hst.drawn_new.1
        · cases he.symm.trans he'
          exact hp.symm.trans hp'
    · rcases hst.proc_cases hp' with
        hin | ⟨t, -, rfl, -⟩ | ⟨p, o, k, r, f, n, rfl, hin, hk, hx, rfl⟩ | ⟨p, hin, -, rfl⟩
      · exact hold (ih.pending p' hin hph)
      · cases hph
      · have hturn := (procs_ok ht.reach p hin).turn_to hk hx
        rcases hx.pending_cases hturn hph with hph | hundrawn
        · exact hold (ih.pending p hin hph)
        · -- the call drew it
          have hid : id ∈ c'.world.ids :=
            ((keyed (ht.reach.step hok hst)).tasks _ hp').pending hph
          rcases hst.ids_cases hid with hid | ⟨p₁, f₁, he, -⟩
          · exact absurd hid hundrawn
          · have hd := hnew he
            cases he
            exact hd
      · exact hold (ih.pending p hin hph)

end

end Novamail

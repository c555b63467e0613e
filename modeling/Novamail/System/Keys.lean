/-
  Ids and body keys.

  A message has one id: its row is kept under it, its body is stored under it, its jobs carry it
  and refer to the body by it.  And every id in use was drawn, so an id that is drawn next is
  free.  Both hold in every run, whatever breaks.
-/
import Novamail.System.Cluster

namespace Novamail

open Novamail.Core

/-! ## What is known of a world and of a task -/

/-- The job refers to the body of its own message, and its id was drawn. -/
structure RelayJob.Known (j : RelayJob) (ids : List MsgId) : Prop where
  key : j.bodyRef.key = j.messageID
  drawn : j.messageID ∈ ids

/-- Jobs, rows and bodies are under drawn ids, and refer to the body of their message. -/
structure World.Keyed (w : World) : Prop where
  jobs : ∀ {q : Queue} {j : RelayJob}, (q, .job j) ∈ w.bus → j.Known w.ids
  rows : ∀ {id : MsgId} {row : Row}, w.rows id = some row → row.bodyRef.key = id ∧ id ∈ w.ids
  bodies : ∀ {k : String}, (w.bodies k).isSome = true → k ∈ w.ids

/-- The same of the job a task consumes, the row it has read, and the id it is bringing in. -/
structure Task.Keyed (t : Task) (ids : List MsgId) (ph : Phase) : Prop where
  job : ∀ {j : RelayJob}, t.job = some j → j.Known ids
  selected : ∀ {id : MsgId} {row : Row}, t = .requeue id → ph = .selected row →
    row.bodyRef.key = id ∧ id ∈ ids
  pending : ∀ {id : MsgId}, ph.pending = some id → id ∈ ids

section
variable {w w' : World} {ids ids' : List MsgId}

theorem RelayJob.Known.mono {j : RelayJob} (h : j.Known ids) (hids : ∀ i ∈ ids, i ∈ ids') :
    j.Known ids' := ⟨h.key, hids _ h.drawn⟩

theorem Task.Keyed.mono {t : Task} {ph : Phase} (h : t.Keyed ids ph)
    (hids : ∀ i ∈ ids, i ∈ ids') : t.Keyed ids' ph where
  job hj := (h.job hj).mono hids
  selected ht hph := ⟨(h.selected ht hph).1, hids _ (h.selected ht hph).2⟩
  pending hp := hids _ (h.pending hp)

/-- A world stays keyed when nothing is added to it. -/
theorem World.Keyed.of_subset (h : w.Keyed) (hbus : ∀ d ∈ w'.bus, d ∈ w.bus)
    (hrows : w'.rows = w.rows) (hbodies : w'.bodies = w.bodies)
    (hids : ∀ i ∈ w.ids, i ∈ w'.ids) : w'.Keyed where
  jobs hm := (h.jobs (hbus _ hm)).mono hids
  rows hr := ⟨(h.rows (hrows ▸ hr)).1, hids _ (h.rows (hrows ▸ hr)).2⟩
  bodies hb := hids _ (h.bodies (hbodies ▸ hb))

theorem World.Keyed.record (h : w.Keyed) (es : List Event) : (w.record es).Keyed :=
  h.of_subset (fun _ hd => hd) rfl rfl fun _ hi => hi

/-- What a task holds may be given back. -/
theorem World.Keyed.giveBack {t : Task} {ph : Phase} {held : Option (Queue × Wire)} (h : w.Keyed)
    (ht : t.Keyed w.ids ph) (hheld : held = none ∨ held = t.delivery) :
    (w.giveBack held).Keyed where
  jobs := by
    intro q j hm
    rcases hheld with rfl | rfl
    · exact h.jobs hm
    · cases hd : t.delivery with
      | none =>
        rw [hd] at hm
        exact h.jobs hm
      | some d =>
        rw [hd] at hm
        rcases Multiset.mem_cons.mp hm with rfl | hm
        · refine ht.job ?_
          cases t <;> first | (cases hd; rfl) | cases hd
        · exact h.jobs hm
  rows := h.rows
  bodies := h.bodies

end

/-! ## One call -/

/-- What a write must refer to. -/
structure Write.Keyed (wr : Write) (ids : List MsgId) : Prop where
  job : ∀ {q : Queue} {j : RelayJob}, wr.publishes = some (q, .job j) → j.Known ids
  row : ∀ {id : MsgId} {env : Envelope} {ref : BodyRef} {info : MessageMeta} {logged : Bool},
    wr = .insertMessage id env ref info logged → ref.key = id ∧ id ∈ ids
  body : ∀ {k : String} {b : Bytes}, wr = .put k b ∨ wr = .insertBody k b → k ∈ ids

/-- A body that is there after a write was there before, or the write stored it. -/
theorem Write.bodies_cases {wr : Write} {w : World} {k : String}
    (h : ((wr.apply w).bodies k).isSome = true) :
    (w.bodies k).isSome = true ∨ ∃ b, wr = .put k b ∨ wr = .insertBody k b := by
  have hother : wr.bodyKey ≠ some k → (w.bodies k).isSome = true := by
    intro hk
    rwa [apply_bodies_of_ne hk] at h
  cases wr with
  | put key b =>
    by_cases hk : key = k
    · exact .inr ⟨b, .inl (hk ▸ rfl)⟩
    · exact .inl (hother fun hc => hk (Option.some_inj.mp hc))
  | insertBody key b =>
    by_cases hk : key = k
    · exact .inr ⟨b, .inr (hk ▸ rfl)⟩
    · exact .inl (hother fun hc => hk (Option.some_inj.mp hc))
  | delete key =>
    by_cases hk : key = k
    · subst hk
      simp [Write.apply] at h
    · exact .inl (hother fun hc => hk (Option.some_inj.mp hc))
  | _ => exact .inl h

/-- A row that is there after a write was there before with the same body, or the write inserted
    it. -/
theorem Write.rows_cases {wr : Write} {w : World} {id : MsgId} {row : Row}
    (h : (wr.apply w).rows id = some row) :
    (∃ row', w.rows id = some row' ∧ row'.bodyRef = row.bodyRef) ∨
      ∃ env info logged, wr = .insertMessage id env row.bodyRef info logged := by
  have hother : wr.rowKey ≠ some id → (∀ days, wr ≠ .pruneOld days) →
      ∃ row', w.rows id = some row' ∧ row'.bodyRef = row.bodyRef := by
    intro hk hp
    rw [apply_rows_of_ne hk hp] at h
    exact ⟨row, h, rfl⟩
  cases wr with
  | insertMessage i env ref info logged =>
    by_cases hi : i = id
    · subst hi
      rw [apply_rows_insertMessage] at h
      cases h
      exact .inr ⟨env, info, logged, rfl⟩
    · exact .inl (hother (fun hc => hi (Option.some_inj.mp hc)) nofun)
  | recordAttempt i st kind provider detail =>
    by_cases hi : i = id
    · subst hi
      rw [apply_rows_recordAttempt] at h
      obtain ⟨row', hrow, rfl⟩ := Option.map_eq_some_iff.mp h
      exact .inl ⟨row', hrow, rfl⟩
    · exact .inl (hother (fun hc => hi (Option.some_inj.mp hc)) nofun)
  | pruneOld days =>
    rw [apply_rows_pruneOld] at h
    exact .inl ⟨row, (Option.filter_eq_some_iff.mp h).1, rfl⟩
  | _ => exact .inl ⟨row, h, rfl⟩

theorem World.Keyed.after {w : World} {t : Task} {wr : Write} {f : Fate} (h : w.Keyed)
    (hwr : wr.Keyed w.ids) : (w.after t wr f).Keyed := by
  unfold World.after
  split
  · refine World.Keyed.record ?_ _
    have hids : ∀ i ∈ w.ids, i ∈ (wr.apply w).ids := fun i hi => (Write.apply_ids w wr).symm ▸ hi
    refine ⟨fun {q j} hm => ?_, fun {id row} hr => ?_, fun {k} hb => ?_⟩
    · rw [Write.apply_bus] at hm
      cases hp : wr.publishes with
      | none =>
        rw [hp] at hm
        exact (h.jobs hm).mono hids
      | some d =>
        rw [hp] at hm
        rcases Multiset.mem_cons.mp hm with rfl | hm
        · exact (hwr.job hp).mono hids
        · exact (h.jobs hm).mono hids
    · rcases Write.rows_cases hr with ⟨row', hrow, href⟩ | ⟨env, info, logged, hins⟩
      · exact ⟨href ▸ (h.rows hrow).1, hids _ (h.rows hrow).2⟩
      · exact ⟨(hwr.row hins).1, hids _ (hwr.row hins).2⟩
    · rcases Write.bodies_cases hb with hb | ⟨b, hput⟩
      · exact hids _ (h.bodies hb)
      · exact hids _ (hwr.body hput)
  · exact h.record _

/-- A write that neither publishes, nor inserts, nor stores. -/
theorem Write.keyed_quiet {wr : Write} {ids : List MsgId} (hp : wr.publishes = none)
    (hr : ∀ id env ref info logged, wr ≠ .insertMessage id env ref info logged)
    (hb : ∀ k b, wr ≠ .put k b ∧ wr ≠ .insertBody k b) : wr.Keyed ids where
  job h := by rw [hp] at h; cases h
  row h := absurd h (hr _ _ _ _ _)
  body h := h.elim (fun h => absurd h (hb _ _).1) fun h => absurd h (hb _ _).2

/-- A publish of a job that is known. -/
theorem Write.keyed_publish {wr : Write} {ids : List MsgId} {q : Queue} {j : RelayJob}
    (hp : wr.publishes = some (q, .job j)) (hj : j.Known ids) : wr.Keyed ids where
  job h := by
    rw [hp] at h
    cases h
    exact hj
  row h := by subst h; cases hp
  body h := by rcases h with h | h <;> (subst h; cases hp)

/-- A write of a task refers to what is known. -/
theorem Turn.write_keyed {t : Task} {ph ph' : Phase} {wr : Write} {r : Bool}
    {ids : List MsgId} (hturn : Turn t ph (.write wr) r ph') (ht : t.Keyed ids ph) :
    wr.Keyed ids := by
  cases hturn with
  | put => exact ⟨nofun, nofun, by rintro k b (h | h) <;> cases h; exact ht.pending rfl⟩
  | insertBody => exact ⟨nofun, nofun, by rintro k b (h | h) <;> cases h; exact ht.pending rfl⟩
  | insert _ hk =>
    refine ⟨nofun, ?_, by rintro k b (h | h) <;> cases h⟩
    rintro id env ref info logged h
    cases h
    exact ⟨hk, ht.pending rfl⟩
  | successor hd =>
    have hj := ht.job (by rw [hd]; rfl)
    exact Write.keyed_publish rfl ⟨hj.key, hj.drawn⟩
  | submission _ hid hk | alert _ hid hk | dsn _ hid hk =>
    exact Write.keyed_publish rfl ⟨hk.trans hid.symm, hid ▸ ht.pending rfl⟩
  | requeue hd _ hr =>
    have hrow := ht.selected hd rfl
    exact Write.keyed_publish rfl ⟨hr ▸ hrow.1, hrow.2⟩
  | _ => exact Write.keyed_quiet rfl nofun fun _ _ => ⟨nofun, nofun⟩

/-- The row a requeue has read, and the id a producer is bringing in, are known after its turn. -/
theorem Exec.task_keyed {net : Net} {t : Task} {w : World} {held : Option (Queue × Wire)}
    {ph ph' : Phase} {o : Op} {r : o.Ret} {f : Fate} {c' : Conf}
    (hx : Exec net t ⟨w, held, ph⟩ o r f c') (hturn : Turn t ph o r ph') (hw : w.Keyed)
    (ht : t.Keyed w.ids ph) (hids : ∀ i ∈ w.ids, i ∈ c'.world.ids) : t.Keyed c'.world.ids ph' := by
  have hquiet : ∀ ph'' : Phase, (∀ row, ph'' ≠ .selected row) →
      (∀ i, ph''.pending = some i → ph.pending = some i) → t.Keyed c'.world.ids ph'' := by
    intro ph'' hs hp
    refine ⟨fun hj => (ht.job hj).mono hids, fun _ h => absurd h (hs _), fun h => ?_⟩
    exact hids _ (ht.pending (hp _ h))
  cases hturn with
  | read | relayed | bounced | unsent | orphan | suppress | prune | announce | attempt
  | undelivered => exact ht.mono hids
  | @selected id row hd =>
    cases hx with
    | ask hans =>
      refine ⟨fun hj => (ht.job hj).mono hids, fun hd' hph => ?_, nofun⟩
      subst hd
      cases hd'
      cases hph
      rcases hans with hans | hans
      · cases hans
      · exact hw.rows (Option.some_inj.mp hans).symm
  | draw | redraw =>
    cases hx with
    | newID hnew =>
      refine ⟨fun hj => (ht.job hj).mono hids, nofun, fun h => ?_⟩
      cases h
      exact List.mem_cons_self
  | put | insertBody | insert =>
    split
    · exact hquiet _ nofun fun _ h => h
    · exact hquiet _ nofun nofun
  | successor | submission | dsn | alert => split <;> exact hquiet _ nofun nofun
  | _ => exact hquiet _ nofun nofun

/-! ## Which writes make a row live -/

/-- The write leaves this row queued or deferred. -/
def Write.revives (id : MsgId) : Write → Bool
  | .insertMessage i _ _ _ _ => i = id
  | .recordAttempt i st _ _ _ => i = id && st.live
  | _ => false

/-- A row that is live after a write was live before, or the write made it so. -/
theorem World.live_after {w : World} {t : Task} {wr : Write} {f : Fate} {id : MsgId}
    (h : (w.after t wr f).live id = true) :
    w.live id = true ∨ (f.applied = true ∧ wr.revives id = true) := by
  cases hf : f.applied with
  | false =>
    refine .inl ?_
    unfold after at h
    rw [hf] at h
    exact h
  | true =>
    unfold after at h
    rw [hf, if_pos rfl] at h
    unfold live at h ⊢
    rw [record_rows] at h
    have hother : wr.rowKey ≠ some id → (∀ days, wr ≠ .pruneOld days) →
        (w.rows id).any (fun r => r.status.live) = true := by
      intro hk hp
      rwa [Write.apply_rows_of_ne hk hp] at h
    cases wr with
    | put | insertBody | delete | addSuppression | publish | publishRelayJob | publishConfig =>
      exact .inl h
    | insertMessage i env ref info logged =>
      by_cases hi : i = id
      · exact .inr ⟨rfl, decide_eq_true hi⟩
      · exact .inl (hother (fun hk => hi (Option.some_inj.mp hk)) nofun)
    | recordAttempt i st kind provider detail =>
      by_cases hi : i = id
      · subst hi
        rw [Write.apply_rows_recordAttempt] at h
        cases hrow : w.rows i with
        | none =>
          rw [hrow] at h
          cases h
        | some row =>
          rw [hrow] at h
          exact .inr ⟨rfl, Bool.and_eq_true_iff.mpr ⟨decide_eq_true rfl, h⟩⟩
      · exact .inl (hother (fun hk => hi (Option.some_inj.mp hk)) nofun)
    | pruneOld days =>
      rw [Write.apply_rows_pruneOld] at h
      refine .inl ?_
      cases hrow : w.rows id with
      | none =>
        rw [hrow] at h
        cases h
      | some row =>
        rw [hrow, Option.filter_some] at h
        split at h
        · exact h
        · cases h

/-- A call that makes a row live is a write that does. -/
theorem Exec.live_cases {net : Net} {t : Task} {c c' : Conf} {o : Op} {r : o.Ret} {f : Fate}
    {id : MsgId} (h : Exec net t c o r f c') (hl : c'.world.live id = true) :
    c.world.live id = true ∨
      (f.applied = true ∧ ∃ wr, o = .write wr ∧ wr.revives id = true) := by
  cases h with
  | write hposs =>
    rcases World.live_after hl with hl | ⟨hf, hr⟩
    · exact .inl hl
    · exact .inr ⟨hf, _, rfl, hr⟩
  | ask | newID => exact .inl hl
  | settle =>
    dsimp only at hl
    split at hl
    · exact .inl hl
    · exact .inl hl

/-! ## Runs -/

/-- The deployment is keyed. -/
structure Cluster.Keyed (c : Cluster) : Prop where
  world : c.world.Keyed
  tasks : ∀ p ∈ c.procs, p.task.Keyed c.world.ids p.phase

theorem Exec.ids_subset {net : Net} {t : Task} {c c' : Conf} {o : Op} {r : o.Ret} {f : Fate}
    (h : Exec net t c o r f c') {i : MsgId} (hi : i ∈ c.world.ids) : i ∈ c'.world.ids := by
  cases h with
  | write =>
    show i ∈ (World.after ..).ids
    rw [World.after_ids]
    exact hi
  | ask => exact hi
  | settle =>
    dsimp only
    split <;> exact hi
  | newID => exact List.mem_cons_of_mem _ hi

/-- A drawn id stays drawn. -/
theorem Step.ids_subset {site : Site} {c c' : Cluster} {l : Label} (h : Step site c l c')
    {i : MsgId} (hi : i ∈ c.world.ids) : i ∈ c'.world.ids := by
  cases h with
  | op hp hk hx => exact hx.ids_subset hi
  | start | finish | expire | lose | crash | tick => exact hi

theorem Exec.world_keyed {net : Net} {t : Task} {w : World} {held : Option (Queue × Wire)}
    {ph ph' : Phase} {o : Op} {r : o.Ret} {f : Fate} {c' : Conf}
    (hx : Exec net t ⟨w, held, ph⟩ o r f c') (hturn : Turn t ph o r ph') (hw : w.Keyed)
    (ht : t.Keyed w.ids ph) (hheld : held = none ∨ held = t.delivery) : c'.world.Keyed := by
  cases hx with
  | write => exact hw.after (hturn.write_keyed ht)
  | ask => exact hw.record _
  | settle =>
    dsimp only
    split
    · exact hw.giveBack ht hheld
    · exact hw
  | newID => exact hw.of_subset (fun _ hd => hd) rfl rfl fun _ hi => List.mem_cons_of_mem _ hi

/-- **Every id in use was drawn, and is the key of its own body**, in every run. -/
theorem keyed {site : Site} {ok : Cluster → Label → Prop} {c : Cluster}
    (h : Reach (cluster site) ok c) : c.Keyed := by
  refine h.invariant (I := fun c => c.Keyed) ?_ ?_
  · rintro c rfl
    refine ⟨⟨fun hm => absurd hm (Multiset.notMem_zero _), nofun, nofun⟩, fun p hp => ?_⟩
    exact absurd hp (Multiset.notMem_zero p)
  · intro c l c' hr ih _ hst
    have hheld : ∀ p ∈ c.procs, p.held = none ∨ p.held = p.task.delivery :=
      fun p hp => (procs_ok hr p hp).held.imp_right And.left
    cases hst with
    | start t hd =>
      have hw : (c.world.starting t).Keyed := by
        refine World.Keyed.of_subset ih.world (fun d hm => ?_) rfl rfl fun _ hi => hi
        have hm : d ∈ (c.world.handOut t.delivery).bus := hm
        cases hdel : t.delivery with
        | none =>
          rw [hdel] at hm
          exact hm
        | some d' =>
          rw [hdel] at hm
          exact Multiset.mem_of_mem_erase hm
      refine ⟨hw, fun p hp => ?_⟩
      rcases Multiset.mem_cons.mp hp with rfl | hp
      · refine ⟨fun {j} hj => ?_, nofun, nofun⟩
        have hj : t.job = some j := hj
        rcases Task.of_job hj with rfl | rfl
        · exact ih.world.jobs (hd _ rfl)
        · exact ih.world.jobs (hd _ rfl)
      · exact ih.tasks p hp
    | @op p ps o k r f n hp hk hx =>
      have hin : p ∈ c.procs := hp ▸ Multiset.mem_cons_self _ _
      have hturn := (procs_ok hr p hin).turn_to hk hx
      have hids : ∀ i ∈ c.world.ids, i ∈ n.world.ids := fun i hi => hx.ids_subset hi
      refine ⟨hx.world_keyed hturn ih.world (ih.tasks p hin) (hheld p hin), fun p' hp' => ?_⟩
      rcases Multiset.mem_cons.mp hp' with rfl | hp'
      · exact hx.task_keyed hturn ih.world (ih.tasks p hin) hids
      · exact (ih.tasks p' (hp ▸ Multiset.mem_cons_of_mem hp')).mono hids
    | finish hp hk =>
      exact ⟨ih.world.record _, fun p' hp' => ih.tasks p' (hp ▸ Multiset.mem_cons_of_mem hp')⟩
    | @expire q wire hq hm =>
      refine ⟨⟨fun {q' j} hm' => ?_, ih.world.rows, ih.world.bodies⟩, ih.tasks⟩
      rcases Multiset.mem_cons.mp hm' with he | hm'
      · cases he
        exact ih.world.jobs hm
      · exact ih.world.jobs (Multiset.mem_of_mem_erase hm')
    | @lose p ps hp hh =>
      have hin : p ∈ c.procs := hp ▸ Multiset.mem_cons_self _ _
      refine ⟨ih.world.giveBack (ih.tasks p hin) (hheld p hin), fun p' hp' => ?_⟩
      rcases Multiset.mem_cons.mp hp' with rfl | hp'
      · exact ih.tasks p hin
      · exact ih.tasks p' (hp ▸ Multiset.mem_cons_of_mem hp')
    | @crash p ps hp =>
      have hin : p ∈ c.procs := hp ▸ Multiset.mem_cons_self _ _
      refine ⟨ih.world.giveBack (ih.tasks p hin) (hheld p hin), fun p' hp' => ?_⟩
      exact ih.tasks p' (hp ▸ Multiset.mem_cons_of_mem hp')
    | tick => exact ⟨ih.world.of_subset (fun _ hd => hd) rfl rfl fun _ hi => hi, ih.tasks⟩

end Novamail

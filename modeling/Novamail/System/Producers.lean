/-
  What a producer brings in.

  A submission, a bounce and an alert each draw an id and then write the same message down three
  times: as a body under the id, as a row, as a job.  `Task.Brings` says what that message is, and
  `producing` that the three copies are of one message, call by call.  What the row and the jobs of
  an id say in any run, and where its body is, follow from it.
-/
import Novamail.System.Origins

namespace Novamail

open Novamail.Core

/-! ## The message of a producer -/

/-- The task brings in a message under this id, with this body and this first job. -/
inductive Task.Brings (site : Site) : Task → MsgId → Bytes → RelayJob → Prop where
  | submit (s : Ingress.Session) (body : Bytes) (id : MsgId) :
      Brings site (.submit s body) id body (Ingress.relayJob s id)
  | bounce {orig : RelayJob} (hf : orig.envelope.mailFrom ≠ "") (id : MsgId)
      (detail date : String) :
      Brings site (.bounce (.job orig)) id
        (Dsn.buildDSN site.host id orig.envelope.mailFrom orig.envelope.rcptTo detail date)
        (Dsn.dsnJob orig id)
  | alert (rs : List String) (subject text : String) (id : MsgId) (sender date : String) :
      Brings site (.alert rs subject text) id (Admin.alertBody id sender rs subject text date)
        (Admin.alertJob id sender rs)

/-- How far a producer has come, with what it has written. -/
inductive Stock where
  | start
  | drawn (id : MsgId)
  | stored (id : MsgId) (body : Bytes)
  | rowed (id : MsgId) (body : Bytes) (env : Envelope) (ref : BodyRef)
  | ended

/-- After the body was reported as stored. -/
def Stock.put (ok : Bool) (key : String) (body : Bytes) : Stock :=
  if ok then .stored key body else .ended

/-- After the row was reported as inserted. -/
def Stock.insert (ok : Bool) (id : MsgId) (env : Envelope) (ref : BodyRef) : Stock → Stock
  | .stored _ body => if ok then .rowed id body env ref else .ended
  | s => s

/-- The calls of a producer: body, row and job are those of one message. -/
def producing (site : Site) (t : Task) : Discipline Op.Ret Stock where
  allow s o :=
    match o with
    | .newID => s = .start
    | .write (.put key body) => s = .drawn key ∧ (∃ j, t.Brings site key body j) ∧
        ∀ rs subject text, t ≠ .alert rs subject text
    | .write (.insertBody key body) => s = .drawn key ∧ (∃ j, t.Brings site key body j) ∧
        ∃ rs subject text, t = .alert rs subject text
    | .write (.insertMessage id env ref _ _) => ∃ body j, s = .stored id body ∧
        t.Brings site id body j ∧ env = j.envelope ∧ ref = j.bodyRef
    | .write (.publish _ j) | .write (.publishRelayJob j) => ∃ body,
        s = .rowed j.messageID body j.envelope j.bodyRef ∧ t.Brings site j.messageID body j
    | .write (.delete key) => (∃ body, s = .stored key body) ∨
        ∃ j, t = .bounce (.job j) ∧ key = j.bodyRef.key
    | _ => True
  next s o r :=
    match o, r with
    | .newID, id => .drawn id
    | .write (.put key body), ok | .write (.insertBody key body), ok => .put ok key body
    | .write (.insertMessage id env ref _ _), ok => s.insert ok id env ref
    | .write (.publish _ _), _ | .write (.publishRelayJob _), _ => .ended
    | .write (.delete _), _ => .ended
    | _, _ => s

/-- Every result is acceptable. -/
def anyEnd {Hist α : Type} (_ : Hist) (_ : α) : Prop := True

section
variable {site : Site} {t : Task} {β : Type} {s : Stock}

theorem producing_settle (v : Verdict) : (settle v).Obeys (producing site t) anyEnd s :=
  ⟨trivial, fun _ => trivial⟩

end

namespace Ingress

theorem data_producing (site : Site) (s : Session) (body : Bytes) :
    (data site.platform s body).Obeys (producing site (.submit s body)) anyEnd .start := by
  have hone : ∀ id, (Task.submit s body).Brings site id body (relayJob s id) := .submit s body
  refine Prog.obeys_lift_bind.mpr ⟨rfl, fun id => ?_⟩
  refine Prog.obeys_lift_bind.mpr ⟨⟨rfl, ⟨_, hone id⟩, nofun⟩, fun ok => ?_⟩
  cases ok with
  | false => exact ⟨trivial, fun _ => trivial⟩
  | true =>
    refine Prog.obeys_lift_bind.mpr ⟨trivial, fun policy => ?_⟩
    show Prog.Obeys _ _ (Stock.stored id body) _
    by_cases hlarge : tooLarge policy body = true
    · rw [if_pos hlarge]
      refine Prog.obeys_lift_bind.mpr ⟨.inl ⟨body, rfl⟩, fun _ => ?_⟩
      exact ⟨trivial, fun _ => trivial⟩
    rw [if_neg hlarge]
    refine Prog.obeys_lift_bind.mpr ⟨⟨body, _, rfl, hone id, rfl, rfl⟩, fun ok => ?_⟩
    cases ok with
    | false => exact ⟨trivial, fun _ => trivial⟩
    | true =>
      refine Prog.obeys_lift_bind.mpr ⟨⟨body, rfl, hone id⟩, fun ok => ?_⟩
      cases ok with
      | false => exact ⟨trivial, fun _ => trivial⟩
      | true => exact ⟨trivial, fun _ => trivial⟩

end Ingress

namespace Admin

theorem injectEmail_producing (site : Site) (rs : List String) (subject text : String) :
    (injectEmail rs subject text).Obeys (producing site (.alert rs subject text)) anyEnd
      .start := by
  unfold injectEmail
  by_cases hempty : rs.isEmpty = true
  · rw [if_pos hempty]
    trivial
  rw [if_neg hempty]
  refine Prog.obeys_lift_bind.mpr ⟨rfl, fun id => ?_⟩
  refine Prog.obeys_lift_bind.mpr ⟨trivial, fun sender => ?_⟩
  cases sender with
  | none => trivial
  | some sender =>
    dsimp only
    by_cases hs : sender = ""
    · rw [if_pos hs]
      trivial
    rw [if_neg hs]
    by_cases hnl : (hasNewline sender || rs.any hasNewline) = true
    · rw [if_pos hnl]
      trivial
    rw [if_neg hnl]
    refine Prog.obeys_lift_bind.mpr ⟨trivial, fun date => ?_⟩
    have hone : (Task.alert rs subject text).Brings site id
        (alertBody id sender rs subject text date) (alertJob id sender rs) := .alert ..
    refine Prog.obeys_lift_bind.mpr
      ⟨⟨rfl, ⟨_, hone⟩, rs, subject, text, rfl⟩, fun ok => ?_⟩
    cases ok with
    | false => trivial
    | true =>
      refine Prog.obeys_lift_bind.mpr ⟨⟨_, _, rfl, hone, rfl, rfl⟩, fun ok => ?_⟩
      cases ok with
      | false => trivial
      | true => exact ⟨⟨_, rfl, hone⟩, fun _ => trivial⟩

end Admin

namespace Dsn

variable {j : RelayJob} {site : Site}

theorem suppressAll_producing (detail : String) (rs : List String) :
    (suppressAll detail rs).Obeys (producing site (.bounce (.job j))) (fun s _ => s = .start)
      .start := by
  induction rs with
  | nil => exact rfl
  | cons r rs ih => exact ⟨trivial, fun _ => ih⟩

theorem bounce_producing (hf : j.envelope.mailFrom ≠ "") (detail : String) :
    (bounce site.host j detail).Obeys (producing site (.bounce (.job j))) anyEnd .start := by
  refine ⟨rfl, fun dsnID => ⟨trivial, fun date => ?_⟩⟩
  have hone : (Task.bounce (.job j)).Brings site dsnID
      (buildDSN site.host dsnID j.envelope.mailFrom j.envelope.rcptTo detail date)
      (dsnJob j dsnID) := .bounce hf dsnID detail date
  refine ⟨⟨rfl, ⟨_, hone⟩, nofun⟩, fun ok => ?_⟩
  cases ok with
  | false => exact producing_settle _
  | true =>
    refine ⟨⟨_, _, rfl, hone, rfl, rfl⟩, fun ok => ?_⟩
    cases ok with
    | false => exact producing_settle _
    | true =>
      refine ⟨⟨_, rfl, hone⟩, fun ok => ?_⟩
      cases ok with
      | false => exact producing_settle _
      | true => exact ⟨.inr ⟨j, rfl, rfl⟩, fun _ => ⟨trivial, fun _ => producing_settle _⟩⟩

theorem handleJob_producing (site : Site) (j : RelayJob) :
    (handleJob site.host j).Obeys (producing site (.bounce (.job j))) anyEnd .start := by
  refine ⟨trivial, fun detail => ⟨trivial, fun _ => ?_⟩⟩
  dsimp only
  by_cases hf : j.envelope.mailFrom = ""
  · rw [if_neg (not_not_intro hf), if_pos (.inl hf)]
    exact ⟨trivial, fun _ => ⟨.inr ⟨j, rfl, rfl⟩, fun _ => producing_settle _⟩⟩
  · rw [if_pos hf]
    refine (suppressAll_producing detail j.envelope.rcptTo).bind ?_
    rintro _ _ rfl
    refine ⟨trivial, fun _ => ?_⟩
    by_cases hsup : j.dsnSuppress = true
    · rw [if_pos (.inr hsup)]
      exact ⟨trivial, fun _ => ⟨.inr ⟨j, rfl, rfl⟩, fun _ => producing_settle _⟩⟩
    · rw [if_neg (by rintro (h | h) <;> contradiction)]
      exact bounce_producing hf detail

end Dsn

/-- **Every producer brings in one message.** -/
theorem Task.program_producing (site : Site) {t : Task} (ht : t.produces = true) :
    (t.program site).Obeys (producing site t) anyEnd .start := by
  cases t with
  | submit s body => exact (Ingress.data_producing site s body).bind fun _ _ _ => trivial
  | alert rs subject text => exact Admin.injectEmail_producing site rs subject text
  | bounce w =>
    cases w with
    | garbage => exact ⟨trivial, fun _ => trivial⟩
    | job j => exact (Dsn.handleJob_producing site j).bind fun _ _ _ => trivial
  | _ => cases ht

/-! ## Running producers -/

section
variable {site : Site} {ok : Cluster → Label → Prop} {c c' : Cluster} {l : Label} {id : MsgId}
  {ls : List Label} {t : Task}

/-- Every running producer brings in one message. -/
theorem producers_producing (h : Reach (cluster site) ok c) : ∀ p ∈ c.procs,
    p.task.produces = true → ∃ s, p.prog.Obeys (producing site p.task) anyEnd s := by
  refine procs_invariant (Q := fun _ p =>
    p.task.produces = true → ∃ s, p.prog.Obeys (producing site p.task) anyEnd s)
    (fun _ _ _ _ hq => hq) ?_ ?_ (fun _ _ _ hq => hq) h
  · intro c t _ _ _ ht
    exact ⟨.start, Task.program_producing site ht⟩
  · intro c p o k r f n _ _ _ hk _ hq ht
    obtain ⟨s, hob⟩ := hq ht
    rw [hk] at hob
    exact ⟨_, hob.2 r⟩

/-- What a producer does next is allowed. -/
theorem Step.producing (hr : Reach (cluster site) ok c) {p : Proc} {o : Op} {r : o.Ret} {f : Fate}
    (hst : Step site c (.op p o r f) c') (ht : p.task.produces = true) :
    ∃ s, (Novamail.producing site p.task).allow s o := by
  cases hst with
  | op hp hk hx =>
    obtain ⟨s, hob⟩ := producers_producing hr p (hp ▸ Multiset.mem_cons_self _ _) ht
    rw [hk] at hob
    exact ⟨s, hob.1⟩

/-! ## What the row of a message says -/

/-- The row names the envelope and the body of a message that the task brings in. -/
def Task.Wrote (site : Site) (t : Task) (id : MsgId) (row : Row) : Prop :=
  ∃ body j, t.Brings site id body j ∧ row.envelope = j.envelope ∧ row.bodyRef = j.bodyRef

/-- The row of the message, and the row a requeue of it has read, are what the task wrote. -/
structure Cluster.Imprint (site : Site) (c : Cluster) (t : Task) (id : MsgId) : Prop where
  row : ∀ row, c.world.rows id = some row → t.Wrote site id row
  selected : ∀ p ∈ c.procs, p.task = .requeue id → ∀ row, p.phase = .selected row →
    t.Wrote site id row

/-- An id that was not drawn has no row, and no requeue has read one. -/
theorem Cluster.Keyed.imprint (h : c.Keyed) (hid : id ∉ c.world.ids) : c.Imprint site t id where
  row _ hrow := absurd (h.world.rows hrow).2 hid
  selected p hp ht _ hph := absurd ((h.tasks p hp).selected ht hph).2 hid

/-- A requeue has read the row it found. -/
theorem Exec.selected_cases {net : Net} {t : Task} {w : World} {held : Option (Queue × Wire)}
    {ph ph' : Phase} {o : Op} {r : o.Ret} {f : Fate} {n : Conf}
    (hx : Exec net t ⟨w, held, ph⟩ o r f n) (hturn : Turn t ph o r ph') {row : Row}
    (hph : ph' = .selected row) :
    ph = .selected row ∨ ∃ id, t = .requeue id ∧ w.rows id = some row := by
  cases hturn with
  | read | suppress | prune | announce => exact .inl hph
  | @selected id row' ht =>
    cases hph
    cases hx with
    | ask hans =>
      rcases hans with hnone | hrow
      · cases hnone
      · exact .inr ⟨id, ht, (Option.some_inj.mp hrow).symm⟩
  | put | insertBody | insert | successor | submission | dsn | alert => split at hph <;> cases hph
  | _ => cases hph

/-- **The row of a message says what the task that drew its id wrote**, also where a requeue has
    read it. -/
theorem imprints (h : Trace (cluster site) ok ls c) : ∀ {t : Task} {id : MsgId},
    Drew ls t id → c.Imprint site t id := by
  refine h.invariant (I := fun ls c => ∀ {t : Task} {id : MsgId},
    Drew ls t id → c.Imprint site t id) ?_ ?_
  · rintro c rfl t id ⟨_, _, hmem, -⟩
    cases hmem
  · intro ls c l c' htr ih hok hst t id hd
    have hr := htr.reach
    have hold : c.Imprint site t id := by
      rcases hd.cases with hold | ⟨p, f, hl, -⟩
      · exact ih hold
      · rw [hl] at hst
        exact (keyed hr).imprint hst.drawn_new.1
    refine ⟨fun row' hrow' => ?_, fun p' hp' hreq row' hph => ?_⟩
    · rcases hst.row_cases hrow' with
        hrow | ⟨p, env, ref, info, logged, r, f, rfl, -, rfl⟩ |
        ⟨p, st, kind, provider, detail, r, f, row, rfl, -, hrow, rfl⟩
      · exact hold.row row' hrow
      · -- only the task that drew the id inserts a row under it
        obtain ⟨hin, hph, hprod⟩ := hst.inserter hr
        have hpend := Phase.pending_of_stored hph
        rcases hd.cases with hdrew | ⟨_, _, hl, -⟩
        · have hwho := (drawers htr).once ((drawers htr).pending p hin hpend) hdrew
          obtain ⟨s, body, j, -, hone, henv, href⟩ := hst.producing hr hprod
          exact ⟨body, j, hwho ▸ hone, henv, href⟩
        · cases hl
      · exact hold.row row hrow
    · rcases hst.proc_cases hp' with hin | ⟨t, -, rfl, -⟩ |
        ⟨p, o, k, r, f, n, -, hin, hk, hx, rfl⟩ | ⟨p, hin, -, rfl⟩
      · exact hold.selected p' hin hreq row' hph
      · cases hph
      · rcases hx.selected_cases ((procs_ok hr p hin).turn_to hk hx) hph with
          hsel | ⟨i, hi, hrow⟩
        · exact hold.selected p hin hreq row' hsel
        · cases hi.symm.trans hreq
          exact hold.row row' hrow
      · exact hold.selected p hin hreq row' hph

/-- The task handed the job to the bus. -/
def Published (ls : List Label) (t : Task) (j : RelayJob) : Prop :=
  ∃ p wr q r f, Label.op p (.write wr) r f ∈ ls ∧ p.task = t ∧ wr.publishes = some (q, .job j)

/-- The step hands the job to the bus. -/
def Label.hands (t : Task) (j : RelayJob) : Label → Bool
  | .op p (.write wr) _ _ => p.task = t && wr.publishes.any fun d => d.2 = .job j
  | _ => false

theorem Published.of_any {j : RelayJob} (h : ls.any (Label.hands t j) = true) :
    Published ls t j := by
  obtain ⟨l, hl, hhands⟩ := List.any_eq_true.mp h
  cases l with
  | op p o r f =>
    cases o with
    | write wr =>
      obtain ⟨ht, hpub⟩ := Bool.and_eq_true_iff.mp hhands
      obtain ⟨⟨q, w⟩, hd, hw⟩ := (Option.any_eq_true _ _).mp hpub
      cases of_decide_eq_true hw
      exact ⟨p, wr, q, r, f, hl, of_decide_eq_true ht, hd⟩
    | _ => cases hhands
  | _ => cases hhands

/-- **What a requeue publishes** is built from what the task that drew the id wrote. -/
theorem Published.requeued (h : Trace (cluster site) ok ls c) {j : RelayJob}
    (hj : Published ls (.requeue id) j) : j.messageID = id ∧ ∃ t row, Drew ls t id ∧ t.Wrote site id row ∧
      j = Admin.requeueJob id row := by
  obtain ⟨p, wr, q, r, f, hl, ht, hpub⟩ := hj
  obtain ⟨ls₁, c₁, c₂, hsub, htrace, -, hst⟩ := h.of_mem hl
  obtain ⟨hin, hturn⟩ := hst.turn htrace.reach
  cases hturn.publisher hpub with
  | worker ht' =>
    rw [ht] at ht'
    cases ht'
  | producer _ _ _ ht' =>
    rw [ht] at ht'
    cases ht'
  | @operator row ht' hph hj =>
    have hid : j.messageID = id := Task.requeue.inj (ht'.symm.trans ht)
    rw [hid] at hj
    obtain ⟨t, hdrew⟩ :=
      (drawers htrace).known (((keyed htrace.reach).tasks p hin).selected ht hph).2
    exact ⟨hid, t, row, hdrew.mono hsub, (imprints htrace hdrew).selected p hin ht row hph, hj⟩

/-- **What a producer publishes** is the message it brings in, under an id it drew. -/
theorem Published.produced (h : Trace (cluster site) ok ls c) {j : RelayJob}
    (hj : Published ls t j) (ht : t.produces = true) :
    Drew ls t j.messageID ∧ ∃ body, t.Brings site j.messageID body j := by
  obtain ⟨p, wr, q, r, f, hl, rfl, hpub⟩ := hj
  obtain ⟨ls₁, c₁, c₂, hsub, htrace, -, hst⟩ := h.of_mem hl
  obtain ⟨hin, hturn⟩ := hst.turn htrace.reach
  obtain ⟨s, hallow⟩ := hst.producing htrace.reach ht
  have hpend : p.phase.pending = some j.messageID := by
    cases hturn.publisher hpub with
    | producer hph => exact Phase.pending_of_inserted hph
    | worker ht' | operator ht' =>
      rw [ht'] at ht
      cases ht
  refine ⟨((drawers htrace).pending p hin hpend).mono hsub, ?_⟩
  cases wr with
  | publish _ _ | publishRelayJob _ =>
    cases hpub
    obtain ⟨body, -, hone⟩ := hallow
    exact ⟨body, hone⟩
  | _ => cases hpub

end

end Novamail

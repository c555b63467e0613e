/-
  Live rows and their jobs.

  The row, the body and the job of a message are written by separate calls, and a call that fails
  is not undone.  `Tracked` says who still answers for a live row: a job on the broker, a consumer
  that has not closed the message, or the producer that inserted the row.  Each of them hands the
  row on to another, or closes it, or has a failed write on record; so at rest a live row has a job
  on the broker, or one of the writes that would have given it one, or closed it, was reported as
  failed.
-/
import Novamail.System.Ledger
import Novamail.System.Play

namespace Novamail

open Novamail.Core

/-! ## Who answers for a row -/

/-- Somebody still has to close or to hand on the message. -/
inductive Cluster.Tracked (c : Cluster) (id : MsgId) : Prop where
  | queued {q : Queue} {j : RelayJob} (hm : (q, .job j) ∈ c.world.bus) (hid : j.messageID = id)
  | held {p : Proc} {j : RelayJob} (hin : p ∈ c.procs) (ht : p.task.job = some j)
      (hph : p.phase = .start ∨ p.phase = .sent) (hid : j.messageID = id)
  | inserted {p : Proc} (hin : p ∈ c.procs) (ht : p.task.produces = true)
      (hph : p.phase = .inserted id)

/-- What a consumer that has not closed its message does with it. -/
inductive Handed (j : RelayJob) (w : World) (ph : Phase) : Prop where
  | kept (h : ph = .start ∨ ph = .sent)
  | moved {q : Queue} {j' : RelayJob} (hm : (q, .job j') ∈ w.bus) (hid : j'.messageID = j.messageID)
  | closed (h : w.live j.messageID = false)
  | failed (h : .writeFailed j.messageID ∈ w.log)

/-- A row that was given a closing status is not live. -/
theorem World.live_recordAttempt {w : World} {t : Task} {f : Fate} {id : MsgId} {st : Status}
    {kind : EventKind} {provider detail : String} (hst : st.live = false)
    (hf : f.applied = true) :
    (w.after t (.recordAttempt id st kind provider detail) f).live id = false := by
  unfold after live
  rw [hf, if_pos rfl, record_rows, Write.apply_rows_recordAttempt]
  cases w.rows id with
  | none => rfl
  | some row => exact hst

/-- Closing a message closes its row, or leaves the failure on record. -/
theorem handed_of_close {j : RelayJob} {w : World} {t : Task} {ph : Phase} {f : Fate}
    {st : Status} {kind : EventKind} {provider detail : String}
    (hst : st = .relayed ∨ st = .bounced) :
    Handed j (w.after t (.recordAttempt j.messageID st kind provider detail) f) ph := by
  cases hf : f.reported with
  | true =>
    refine .closed (World.live_recordAttempt ?_ (Fate.applied_of_reported hf))
    rcases hst with rfl | rfl <;> rfl
  | false =>
    refine .failed ?_
    rw [World.after_log]
    refine List.mem_append_right _ (List.mem_append_right _ ?_)
    have hflag : (!f.reported && (st = .relayed || st = .bounced)) = true := by
      rw [hf]
      rcases hst with rfl | rfl <;> rfl
    rw [if_pos hflag]
    exact List.mem_singleton_self _

/-- **A consumer keeps its message, moves it, closes it, or fails on record.** -/
theorem Exec.handed {net : Net} {t : Task} {j : RelayJob} {w : World}
    {held : Option (Queue × Wire)} {ph ph' : Phase} {o : Op} {r : o.Ret} {f : Fate} {c' : Conf}
    (hx : Exec net t ⟨w, held, ph⟩ o r f c') (hturn : Turn t ph o r ph') (ht : t.job = some j)
    (hph : ph = .start ∨ ph = .sent) (hheld : held = t.delivery) :
    Handed j c'.world ph' := by
  have hsame : ph' = ph → Handed j c'.world ph' := fun he => .kept (he ▸ hph)
  have hconsumer := Task.of_job ht
  cases hturn with
  | read | undelivered | suppress | prune | announce | attempt => exact hsame rfl
  | delivered => exact .kept (.inr rfl)
  | @close j' _ _ _ _ hd =>
    subst hd
    cases ht
    cases hx
    exact handed_of_close (.inl rfl)
  | @note j' _ _ _ _ hd =>
    subst hd
    cases ht
    cases hx
    exact handed_of_close (.inr rfl)
  | @successor j' q a ok hd hq =>
    subst hd
    cases ht
    cases hx with
    | write hposs =>
      cases f with
      | lost => cases hposs
      | failed => exact .kept (.inl rfl)
      | ok => exact .moved (q := q) (Multiset.mem_cons_self _ _) rfl
  | @retry j' hd =>
    subst hd
    cases ht
    cases hx
    subst hheld
    exact .moved (q := .work) (Multiset.mem_cons_self _ _) rfl
  | selected hd | queried hd => rcases hconsumer with rfl | rfl <;> cases hd
  | draw hp hd => rcases hconsumer with rfl | rfl <;> cases hd
  | garbage hd => rcases hconsumer with rfl | rfl <;> rcases hd with hd | hd <;> cases hd
  | ack h => rcases hph with rfl | rfl <;> cases h
  | put | insertBody | insert | relayed | oversized | bounced | unsent | orphan | swept
  | suppressed | redraw | submission | dsn | alert | requeue | regenerate =>
    rcases hph with hph | hph <;> cases hph

/-- The first publish of a message puts its job on the broker, or fails on record. -/
theorem World.published_or_failed {w : World} {t : Task} {wr : Write} {f : Fate} {q : Queue}
    {j : RelayJob} (hp : wr.publishes = some (q, .job j)) (ht : t.produces = true) :
    (q, .job j) ∈ (w.after t wr f).bus ∨ .writeFailed j.messageID ∈ (w.after t wr f).log := by
  cases hf : f.applied with
  | true =>
    refine .inl ?_
    rw [after_bus, hf, if_pos rfl, hp]
    exact Multiset.mem_cons_self _ _
  | false =>
    have hrep : f.reported = false := by
      cases f <;> first | rfl | cases hf
    refine .inr ?_
    rw [after_log, Task.markWrite_publish hp, ht, hrep]
    exact List.mem_append_right _ (List.mem_append_right _ (List.mem_singleton_self _))

/-- A producer keeps the row it inserted, publishes its job, or fails on record. -/
theorem Exec.inserted {net : Net} {t : Task} {id : MsgId} {w : World}
    {held : Option (Queue × Wire)} {ph ph' : Phase} {o : Op} {r : o.Ret} {f : Fate} {c' : Conf}
    (hx : Exec net t ⟨w, held, ph⟩ o r f c') (hturn : Turn t ph o r ph') (ht : t.produces = true)
    (hph : ph = .inserted id) :
    ph' = .inserted id ∨ (∃ q j, (q, .job j) ∈ c'.world.bus ∧ j.messageID = id) ∨
      .writeFailed id ∈ c'.world.log := by
  have hpub : ∀ (wr : Write) (q : Queue) (j : RelayJob), wr.publishes = some (q, .job j) →
      j.messageID = id → (∃ q j, (q, .job j) ∈ (w.after t wr f).bus ∧ j.messageID = id) ∨
        .writeFailed id ∈ (w.after t wr f).log := by
    rintro wr q j hp rfl
    exact (World.published_or_failed hp ht).imp_left fun hm => ⟨q, j, hm, rfl⟩
  cases hturn with
  | read | suppress | prune | announce => exact .inl hph
  | submission _ hid | alert _ hid | dsn _ hid =>
    cases hph
    cases hx
    exact .inr (hpub _ _ _ rfl hid)
  | ack h =>
    subst hph
    cases h
  | _ => cases hph

/-- A write that makes a row live is made by someone who answers for it, or is on record as
    failed. -/
theorem Exec.revived {net : Net} {t : Task} {id : MsgId} {w : World}
    {held : Option (Queue × Wire)} {ph ph' : Phase} {wr : Write} {r : Bool} {f : Fate} {c' : Conf}
    (hx : Exec net t ⟨w, held, ph⟩ (.write wr) r f c') (hturn : Turn t ph (.write wr) r ph')
    (hr : wr.revives id = true) :
    (ph' = .start ∧ ∃ j, t.job = some j ∧ j.messageID = id) ∨
      (ph' = .inserted id ∧ t.produces = true) ∨ .writeFailed id ∈ c'.world.log := by
  cases hturn with
  | attempt ht =>
    refine .inl ⟨rfl, _, ?_, of_decide_eq_true (Bool.and_eq_true_iff.mp hr).1⟩
    rw [ht]
    rfl
  | close | note => cases (Bool.and_eq_true_iff.mp hr).2
  | @insert i env ref info logged ok ht =>
    have hid : i = id := of_decide_eq_true hr
    subst hid
    cases hx with
    | write hposs =>
      cases hf : f.reported with
      | true => exact .inr (.inl ⟨rfl, ht⟩)
      | false =>
        refine .inr (.inr ?_)
        dsimp only
        rw [World.after_log]
        refine List.mem_append_right _ ?_
        dsimp only [Task.markWrite]
        rw [hf, if_neg Bool.false_ne_true]
        exact List.mem_singleton_self _
  | _ => cases hr

/-! ## Runs -/

section
variable {site : Site} {c c' : Cluster} {l : Label} {id : MsgId}

/-- Who answers for a row hands it on, closes it, or fails on record. -/
theorem Cluster.Tracked.step (hr : Reach (cluster site) calm c) (hcalm : calm c l)
    (hst : Step site c l c') (h : c.Tracked id) :
    c'.Tracked id ∨ c'.world.live id = false ∨ .writeFailed id ∈ c'.world.log := by
  cases h with
  | @queued q j hm hid =>
    rcases hst.job_kept hm with hm' | ⟨-, hm'⟩ | ⟨t, ht, hin⟩
    · exact .inl (.queued hm' hid)
    · exact .inl (.queued hm' hid)
    · have hjob : t.job = some j := by
        cases t <;> first | (cases ht; rfl) | cases ht
      exact .inl (.held hin hjob (.inl rfl) hid)
  | @held p j hin ht hph hid =>
    rcases hst.proc_kept hin with hin' | ⟨o, k, r, f, n, -, hk, hx, hw, hin'⟩ |
      ⟨ok, -, hk⟩ | rfl | rfl
    · exact .inl (.held hin' ht hph hid)
    · have hheld : p.held = p.task.delivery := by
        have hcalmp := procs_calm hr p hin
        unfold Proc.Calm at hcalmp
        rw [hcalmp, if_neg (fun hd => by rw [hd] at hph; rcases hph with hph | hph <;> cases hph)]
      have hturn := (procs_ok hr p hin).turn_to hk hx
      rw [hw, ← hid]
      cases hx.handed hturn ht hph hheld with
      | kept h => exact .inl (.held hin' ht h rfl)
      | moved hm hj => exact .inl (.queued (hw ▸ hm) hj)
      | closed h => exact .inr (.inl h)
      | failed h => exact .inr (.inr h)
    · have hfin := (procs_ok hr p hin).obeys
      rw [hk] at hfin
      have hdone : p.phase = .done := by
        refine hfin.settled ?_
        rcases Task.of_job ht with ht | ht <;> (rw [ht]; rfl)
      rw [hdone] at hph
      rcases hph with hph | hph <;> cases hph
    · exact hcalm.elim
    · exact hcalm.elim
  | @inserted p hin ht hph =>
    rcases hst.proc_kept hin with hin' | ⟨o, k, r, f, n, -, hk, hx, hw, hin'⟩ |
      ⟨ok, -, hk⟩ | rfl | rfl
    · exact .inl (.inserted hin' ht hph)
    · have hturn := (procs_ok hr p hin).turn_to hk hx
      rw [hw]
      rcases hx.inserted hturn ht hph with hph' | ⟨q, j, hm, hid⟩ | hlog
      · exact .inl (.inserted hin' ht hph')
      · exact .inl (.queued (hw ▸ hm) hid)
      · exact .inr (.inr hlog)
    · have hfin := (procs_ok hr p hin).obeys
      rw [hk] at hfin
      exact absurd hph (hfin.through ht id)
    · exact hcalm.elim
    · exact hcalm.elim

/-- **Somebody answers for every live row, or a write of its message failed on record.** -/
theorem live_tracked (h : Reach (cluster site) calm c) (id : MsgId)
    (hlive : c.world.live id = true) : c.Tracked id ∨ .writeFailed id ∈ c.world.log := by
  refine h.invariant (I := fun c => c.world.live id = true →
    c.Tracked id ∨ .writeFailed id ∈ c.world.log) ?_ ?_ hlive
  · rintro c rfl hl
    cases hl
  · intro c l c' hr ih hcalm hst hl
    by_cases hold : c.world.live id = true
    · rcases ih hold with htr | hlog
      · rcases htr.step hr hcalm hst with htr | hdead | hlog
        · exact .inl htr
        · rw [hdead] at hl
          cases hl
        · exact .inr hlog
      · exact .inr (hst.log_subset hlog)
    · cases hst with
      | @op p ps o k r f n hp hk hx =>
        have hin : p ∈ c.procs := hp ▸ Multiset.mem_cons_self _ _
        have hturn := (procs_ok hr p hin).turn_to hk hx
        rcases hx.live_cases hl with hl | ⟨-, wr, rfl, hrev⟩
        · exact absurd hl hold
        · rcases hx.revived hturn hrev with ⟨hph, j, ht, hid⟩ | ⟨hph, ht⟩ | hlog
          · exact .inl (.held (Multiset.mem_cons_self _ _) ht (.inl hph) hid)
          · exact .inl (.inserted (Multiset.mem_cons_self _ _) ht hph)
          · exact .inr hlog
      | start | finish | expire | tick => exact absurd hl hold
      | lose | crash => exact hcalm.elim

/-- **Live rows at rest.**  In every run without a process death or a lost connection, whatever
    fails: when nothing is running, a queued or deferred row has a job with its id on the broker,
    or one of three calls for its message was reported as failed, the insert of the row, the
    publish of its first job, or the attempt that should have closed it. -/
theorem live_row_has_job (h : Reach (cluster site) calm c) (hrest : c.procs = 0)
    (hlive : c.world.live id = true) : 0 < c.world.jobs id ∨ .writeFailed id ∈ c.world.log := by
  rcases live_tracked h id hlive with htr | hlog
  · cases htr with
    | queued hm hid => exact .inl (Multiset.countP_pos.mpr ⟨_, hm, decide_eq_true hid⟩)
    | held hin => exact absurd (hrest ▸ hin) (Multiset.notMem_zero _)
    | inserted hin => exact absurd (hrest ▸ hin) (Multiset.notMem_zero _)
  · exact .inr hlog

end

/-- A submission whose publish fails: the body is stored and the row is inserted, and the client is
    told to try again. -/
def unpublishedScript : List Cue :=
  [.start (.submit (envelopeSession "a@s.test" ["b@r.test"]) [])] ++ Cue.calls 0 "m1" 4 ++
    [.call 0 { fate := .failed }] ++ Cue.calls 0 "" 2

theorem unpublished_run : ∃ c : Cluster, Reach (cluster (plainSite anyReply)) calm c ∧
    c.procs = 0 ∧ c.world.live "m1" = true ∧ c.world.jobs "m1" = 0 := by
  have hplay : (Stage.script (plainSite anyReply) deliveringOracle {} unpublishedScript).any
      (fun s => s.procs.isEmpty ∧ s.world.live "m1" = true ∧ s.world.jobs "m1" = 0) = true := by
    decide
  obtain ⟨s, hs, hend⟩ := (Option.any_eq_true _ _).mp hplay
  obtain ⟨hrest, hlive, hjobs⟩ := of_decide_eq_true hend
  refine ⟨s.cluster, Stage.script_calm (by decide) hs, ?_, hlive, hjobs⟩
  exact congrArg _ (List.isEmpty_iff.mp hrest)

/-- The row without a job is one whose publish failed on record. -/
theorem live_row_has_job_unpublished :
    ∃ c : Cluster, c.world.live "m1" = true ∧ c.world.jobs "m1" = 0 ∧
      (0 < c.world.jobs "m1" ∨ .writeFailed "m1" ∈ c.world.log) := by
  obtain ⟨c, hr, hrest, hlive, hjobs⟩ := unpublished_run
  exact ⟨c, hlive, hjobs, live_row_has_job hr hrest hlive⟩

/-- A publish that fails leaves a queued row without a job. -/
theorem unpublished_row_orphaned :
    ¬ ∀ (site : Site) (c : Cluster) (id : MsgId), Reach (cluster site) calm c → c.procs = 0 →
      c.world.live id = true → 0 < c.world.jobs id := by
  intro hclaim
  obtain ⟨c, hr, hrest, hlive, hjobs⟩ := unpublished_run
  have hpos := hclaim _ c "m1" hr hrest hlive
  omega

end Novamail

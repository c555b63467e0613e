/-
  How often a message is delivered.

  The requeue endpoint decides from the row alone, so the job it duplicates may still be anywhere.
  Each requeue job buys one more discharge, and no other step does: that is the ledger again.  A
  message that was never requeued has one job only, and that job is on one side of the DLQ or the
  other: `Relayed` and `Bounced` say on which, once the row has been closed.
-/
import Novamail.Mail.Conservation

namespace Novamail

open Novamail.Core

/-! ## The near side: relayed means delivered -/

/-- A worker that has sent its message has the Delivered report on record. -/
def Proc.SentOnRecord (w : World) (p : Proc) : Prop :=
  p.phase = .sent → ∀ j, p.task = .deliver (.job j) → .delivered j.messageID ∈ w.log

/-- Only a Delivered report leads to `sent`, and it is put on record. -/
theorem Exec.sent {net : Net} {t : Task} {w : World} {held : Option (Queue × Wire)}
    {ph ph' : Phase} {o : Op} {r : o.Ret} {f : Fate} {c' : Conf}
    (hx : Exec net t ⟨w, held, ph⟩ o r f c') (hturn : Turn t ph o r ph') (hph : ph' = .sent) :
    ph = .sent ∨ ∃ j, t = .deliver (.job j) ∧ .delivered j.messageID ∈ c'.world.log := by
  cases hturn with
  | delivered ht hr =>
    cases hx
    subst ht
    refine .inr ⟨_, rfl, List.mem_append_right _ (List.mem_append_left _ ?_)⟩
    rw [if_pos hr]
    exact List.mem_singleton_self _
  | read | suppress | prune | announce => exact .inl hph
  | put | insertBody | insert | successor | submission | dsn | alert => split at hph <;> cases hph
  | _ => cases hph

section
variable {site : Site} {ok : Cluster → Label → Prop} {c : Cluster}

theorem sent_on_record (h : Reach (cluster site) ok c) : ∀ p ∈ c.procs, p.SentOnRecord c.world := by
  refine procs_invariant (Q := fun w p => p.SentOnRecord w) ?_ (fun _ _ _ => nofun) ?_ ?_ h
  · intro c l c' p _ _ hst _ hq hph j ht
    exact hst.log_subset (hq hph j ht)
  · intro c p o k r f c' hr _ hin hk hx hq hph j ht
    rcases hx.sent ((procs_ok hr p hin).turn_to hk hx) hph with hsent | ⟨j', ht', hlog⟩
    · exact hx.log_subset (hq hsent j ht)
    · cases ht.symm.trans ht'
      exact hlog
  · exact fun _ _ _ hq => hq

/-- What is recorded as relayed was delivered. -/
theorem relayed_delivered (h : Reach (cluster site) ok c) (id : MsgId)
    (hrec : .recorded id .relayed ∈ c.world.log) : .delivered id ∈ c.world.log := by
  refine h.invariant (I := fun c => .recorded id .relayed ∈ c.world.log →
    .delivered id ∈ c.world.log) ?_ ?_ hrec
  · rintro c rfl hmem
    exact absurd hmem List.not_mem_nil
  · intro c l c' hr ih _ hst hmem
    rcases hst.event_cases hmem with hmem | ⟨t, -, hm⟩ | ⟨p, wr, r, f, rfl, hm⟩ |
      ⟨p, q, r, f, -, hm⟩ | ⟨p, ok, -, hm⟩
    · exact hst.log_subset (ih hmem)
    · obtain ⟨_, _, _, -, -, he⟩ := Task.mem_markStart hm
      cases he
    · obtain ⟨hin, hturn⟩ := hst.turn hr
      rcases Task.mem_markWrite hm with
        ⟨j, hj⟩ | ⟨i, hi⟩ | ⟨_, _, _, _, _, rfl, he⟩ | ⟨_, _, _, _, _, -, -, hi⟩
      · rcases Task.mem_handedOver hj with hi | hi | ⟨_, -, hi⟩ <;> cases hi
      · cases hi
      · cases he
        refine hst.log_subset ?_
        generalize p.phase.next _ r = ph' at hturn
        generalize hph : p.phase = ph at hturn
        cases hturn with
        | attempt ht hs => rcases hs with hs | hs <;> cases hs
        | close ht => exact sent_on_record hr p hin hph _ ht
      · cases hi
    · rcases Task.mem_markQuery hm with ⟨_, he⟩ | ⟨_, _, he⟩ | ⟨_, he⟩ <;> cases he
    · obtain ⟨_, -, he⟩ := Task.mem_markEnd hm
      cases he

end

/-! ## The far side: bounced means on its way to the sender -/

/-- A job of this message is in the DLQ or with a bounce generator, or its bounce is settled. -/
inductive Cluster.FarSide (c : Cluster) (id : MsgId) : Prop where
  | queued {j : RelayJob} (hm : (.dlq, .job j) ∈ c.world.bus) (hid : j.messageID = id)
  | held {p : Proc} {j : RelayJob} (hin : p ∈ c.procs) (ht : p.task = .bounce (.job j))
      (hph : p.phase.holds = true) (hid : j.messageID = id)
  | published (hm : .dsnPublished id ∈ c.world.log)
  | suppressed (hm : .dsnSuppressed id ∈ c.world.log)

/-- A bounce generator that holds its job keeps it, or puts the settlement on record, or puts the
    job back. -/
theorem Exec.far_side {net : Net} {j : RelayJob} {w : World} {held : Option (Queue × Wire)}
    {ph ph' : Phase} {o : Op} {r : o.Ret} {f : Fate} {c' : Conf}
    (hx : Exec net (.bounce (.job j)) ⟨w, held, ph⟩ o r f c')
    (hturn : Turn (.bounce (.job j)) ph o r ph') (hph : ph.holds = true)
    (hheld : held = some (.dlq, .job j)) :
    ph'.holds = true ∨ .dsnPublished j.messageID ∈ c'.world.log ∨
      .dsnSuppressed j.messageID ∈ c'.world.log ∨ (.dlq, .job j) ∈ c'.world.bus := by
  cases hturn with
  | @suppressed j' ht =>
    cases ht
    cases hx
    exact .inr (.inr (.inl (List.mem_append_right _ (List.mem_singleton_self _))))
  | @dsn orig i j' ok ht hid hk hf =>
    cases ht
    cases hx with
    | write hposs =>
      cases f with
      | lost => cases hposs
      | failed => exact .inl rfl
      | ok =>
        refine .inr (.inl ?_)
        dsimp only
        rw [World.after_log]
        exact List.mem_append_right _ (List.mem_cons_of_mem _ (List.mem_singleton_self _))
  | regenerate ht =>
    cases hx
    subst hheld
    exact .inr (.inr (.inr (Multiset.mem_cons_self _ _)))
  | ack h => cases h <;> cases hph
  | put | insertBody | insert =>
    refine .inl ?_
    split <;> rfl
  | read | suppress | prune | announce => exact .inl hph
  | redraw | oversized | note => exact .inl rfl
  | undelivered ht | delivered ht | relayed ht | attempt ht | close ht | successor ht | retry ht
  | submission ht | alert ht | requeue ht | selected ht | queried ht | swept ht => cases ht
  | draw _ hd => cases hd
  | bounced | unsent | orphan => cases hph
  | garbage ht => rcases ht with ht | ht <;> cases ht

/-- A finished consumer holds nothing. -/
theorem Proc.Ok.not_holds {p : Proc} {j : RelayJob} {ok : Bool} (h : p.Ok)
    (hk : p.prog = .pure ok) (ht : p.task = .bounce (.job j)) : p.phase.holds = false := by
  have hfin := h.obeys
  rw [hk] at hfin
  have hdone : p.phase = .done := hfin.settled (by rw [ht]; rfl)
  rw [hdone]
  rfl

section
variable {site : Site} {c c' : Cluster} {l : Label} {id : MsgId}

/-- **What is on the far side stays there.** -/
theorem Cluster.FarSide.step (hr : Reach (cluster site) calm c) (hcalm : calm c l)
    (hst : Step site c l c') (h : c.FarSide id) : c'.FarSide id := by
  cases h with
  | published hm => exact .published (hst.log_subset hm)
  | suppressed hm => exact .suppressed (hst.log_subset hm)
  | @queued j hm hid =>
    rcases hst.job_kept hm with hm' | ⟨hq, -⟩ | ⟨t, ht, hin⟩
    · exact .queued hm' hid
    · cases hq
    · have htask : t = .bounce (.job j) := by
        cases t <;> first | (cases ht; rfl) | cases ht
      exact .held hin htask rfl hid
  | @held p j hin ht hph hid =>
    rcases hst.proc_kept hin with hin' | ⟨o, k, r, f, n, -, hk, hx, hw, hin'⟩ |
      ⟨ok, -, hk⟩ | rfl | rfl
    · exact .held hin' ht hph hid
    · have hheld : p.held = some (.dlq, .job j) := by
        have hcalmp := procs_calm hr p hin
        unfold Proc.Calm at hcalmp
        rw [hcalmp, if_neg (fun hd => by rw [hd] at hph; cases hph), ht]
        rfl
      have hturn := (procs_ok hr p hin).turn_to hk hx
      rw [ht] at hx hturn
      rcases hx.far_side hturn hph hheld with hph' | hlog | hlog | hbus
      · exact .held hin' ht hph' hid
      · exact .published (hid ▸ hw ▸ hlog)
      · exact .suppressed (hid ▸ hw ▸ hlog)
      · exact .queued (hw ▸ hbus) hid
    · rw [(procs_ok hr p hin).not_holds hk ht] at hph
      cases hph
    · exact hcalm.elim
    · exact hcalm.elim

/-- **What is recorded as bounced is on the far side.** -/
theorem bounced_far_side (h : Reach (cluster site) calm c)
    (hrec : .recorded id .bounced ∈ c.world.log) : c.FarSide id := by
  refine h.invariant (I := fun c => .recorded id .bounced ∈ c.world.log → c.FarSide id) ?_ ?_ hrec
  · rintro c rfl hmem
    exact absurd hmem List.not_mem_nil
  · intro c l c' hr ih hcalm hst hmem
    rcases hst.event_cases hmem with hmem | ⟨t, -, hm⟩ | ⟨p, wr, r, f, rfl, hm⟩ |
      ⟨p, q, r, f, -, hm⟩ | ⟨p, ok, -, hm⟩
    · exact (ih hmem).step hr hcalm hst
    · obtain ⟨_, _, _, -, -, he⟩ := Task.mem_markStart hm
      cases he
    · obtain ⟨hin, hturn⟩ := hst.turn hr
      rcases Task.mem_markWrite hm with
        ⟨j, hj⟩ | ⟨i, hi⟩ | ⟨_, _, _, _, _, rfl, he⟩ | ⟨_, _, _, _, _, -, -, hi⟩
      · rcases Task.mem_handedOver hj with hi | hi | ⟨_, -, hi⟩ <;> cases hi
      · cases hi
      · cases he
        generalize p.phase.next _ r = ph' at hturn
        generalize hph : p.phase = ph at hturn
        -- the generator that records the bounce holds the job
        cases hturn with
        | attempt ht hs => rcases hs with hs | hs <;> cases hs
        | note ht =>
          have hheld : c.FarSide _ := .held hin ht (by rw [hph]; rfl) rfl
          exact hheld.step hr hcalm hst
      · cases hi
    · rcases Task.mem_markQuery hm with ⟨_, he⟩ | ⟨_, _, he⟩ | ⟨_, he⟩ <;> cases he
    · obtain ⟨_, -, he⟩ := Task.mem_markEnd hm
      cases he

/-- The far side is part of the ledger, apart from the Delivered reports. -/
theorem Cluster.FarSide.pos (h : c.FarSide id) :
    0 < c.world.jobs id + c.load id + c.world.settlements id := by
  cases h with
  | queued hm hid =>
    have hjobs : 0 < c.world.jobs id :=
      Multiset.countP_pos.mpr ⟨_, hm, decide_eq_true hid⟩
    omega
  | @held p j hin ht hph hid =>
    obtain ⟨ps, hp⟩ := Multiset.exists_cons_of_mem hin
    have hload := Cluster.load_cons hp c.world id
    have hone : p.task.load p.phase id = 1 := by
      rw [ht, Task.load_of_job rfl hph]
      exact congrArg Bool.toNat (decide_eq_true hid)
    omega
  | published hm =>
    have hlog : 0 < c.world.log.count (.dsnPublished id) := List.count_pos_iff.mpr hm
    unfold World.settlements
    omega
  | suppressed hm =>
    have hlog : 0 < c.world.log.count (.dsnSuppressed id) := List.count_pos_iff.mpr hm
    unfold World.settlements
    omega

end

/-! ## At most once -/

/-- **How often a message is delivered.**  In every run without a process death or a lost
    connection, whatever is requeued and when: the Delivered reports and the settled bounces of a
    message are at most one more than the requeue jobs published for it; and a message for which
    none was published is not both recorded as relayed and recorded as bounced. -/
theorem delivered_at_most_once_per_job {site : Site} {c : Cluster}
    (h : Reach (cluster site) calm c) (id : MsgId) :
    c.world.deliveries id + c.world.settlements id ≤ 1 + c.world.requeues id ∧
      (c.world.requeues id = 0 →
        ¬ (.recorded id .relayed ∈ c.world.log ∧ .recorded id .bounced ∈ c.world.log)) := by
  have hledger := ledger h id
  have hfresh := (fresh h id).once
  have hin := c.world.injected_eq id
  have hout := c.world.discharged_eq id
  unfold Cluster.Ledger at hledger
  refine ⟨by omega, fun hreq ⟨hrel, hbnc⟩ => ?_⟩
  have hfar := (bounced_far_side h hbnc).pos
  have hdel : 0 < c.world.deliveries id := List.count_pos_iff.mpr (relayed_delivered h id hrel)
  omega

/-- A message is submitted and requeued before it is delivered; two workers take its two jobs, and
    both send it before either deletes the body. -/
def requeuedScript : List Cue :=
  [.start (.submit oneRecipient [])] ++ Cue.calls 0 "m1" 7 ++
    [.start (.requeue "m1")] ++ Cue.calls 0 "" 3 ++
    [.start (.deliver (.job (Ingress.relayJob oneRecipient "m1"))),
      .start (.deliver (.job (Ingress.relayJob oneRecipient "m1")))] ++
    Cue.calls 0 "" 6 ++ Cue.calls 1 "" 6

/-- Both workers report it Delivered. -/
theorem requeued_run : ∃ c : Cluster, Reach (cluster (plainSite anyReply)) calm c ∧
    .accepted "m1" ∈ c.world.log ∧ c.world.deliveries "m1" = 2 := by
  have hplay : (Stage.script (plainSite anyReply) deliveringOracle {} requeuedScript).any
      (fun s => .accepted "m1" ∈ s.world.log ∧ s.world.deliveries "m1" = 2) = true := by decide
  obtain ⟨s, hs, hend⟩ := (Option.any_eq_true _ _).mp hplay
  exact ⟨s.cluster, Stage.script_calm (by decide) hs, of_decide_eq_true hend⟩

/-- Two Delivered reports, one requeue. -/
theorem delivered_at_most_once_per_job_requeued :
    ∃ c : Cluster, c.world.deliveries "m1" = 2 ∧
      c.world.deliveries "m1" + c.world.settlements "m1" ≤ 1 + c.world.requeues "m1" ∧
        (c.world.requeues "m1" = 0 →
          ¬ (.recorded "m1" .relayed ∈ c.world.log ∧ .recorded "m1" .bounced ∈ c.world.log)) := by
  obtain ⟨c, hr, -, htwo⟩ := requeued_run
  exact ⟨c, htwo, delivered_at_most_once_per_job hr "m1"⟩

/-- With requeues, an accepted message can be reported Delivered twice. -/
theorem requeued_delivered_twice :
    ¬ ∀ (site : Site) (c : Cluster) (id : MsgId), Reach (cluster site) calm c →
      .accepted id ∈ c.world.log → c.world.deliveries id ≤ 1 ∧
        ¬ (.recorded id .relayed ∈ c.world.log ∧ .recorded id .bounced ∈ c.world.log) := by
  intro hclaim
  obtain ⟨c, hr, hacc, htwo⟩ := requeued_run
  have hone := (hclaim _ c "m1" hr hacc).1
  omega

end Novamail

/-
  Terminal statuses are final.

  `RecordAttempt` writes the status it is given, whatever the row says.  That relayed, bounced and
  failed are last words is therefore not a fact about the statement but about who may still make it:
  once a message is closed, nobody on the delivery side has a stake in it (`Novamail.System.Stakes`)
  except the worker that closed it, and that worker does not record again.  Three things put a stake
  back: a worker that dies or loses its connection after it closed the message, an operator requeue
  of a message that is still under way, and a worker that recorded `failed` and then cannot publish
  to the DLQ, so that it nacks the delivery.  `conclusive` excludes exactly these.
-/
import Novamail.Mail.Bodies
import Novamail.Mail.Once
import Novamail.System.Origins
import Novamail.System.Stakes

namespace Novamail

open Novamail.Core

/-! ## A worker that has given up -/

/-- After `failed` was recorded the next call hands the job to the DLQ. -/
def resolute : Discipline Op.Ret Bool where
  allow gaveUp o := gaveUp = true → ∃ j, o = .write (.publish .dlq j)
  next _ o _ :=
    match o with
    | .write (.recordAttempt _ .failed _ _ _) => true
    | _ => false

/-- No program ends right after `failed` was recorded. -/
def Unresolved {α : Type} (gaveUp : Bool) (_ : α) : Prop := gaveUp = false

section
variable {β : Type} {fin : Bool → β → Prop}

/-- Before it gives up a worker may do anything. -/
theorem of_not_gaveUp {P : Prop} (h : false = true) : P := absurd h Bool.false_ne_true

theorem resolute_ask_bind {q : Query} {f : q.Ret → Handler β} :
    (ask q >>= f).Obeys resolute fin false ↔ ∀ r, (f r).Obeys resolute fin false :=
  ⟨fun h => h.2, fun h => ⟨of_not_gaveUp, h⟩⟩

theorem resolute_settle {v : Verdict} : (settle v).Obeys resolute Unresolved false :=
  ⟨of_not_gaveUp, fun _ => rfl⟩

/-- A worker that gave up is about to publish to the DLQ. -/
theorem resolute_gaveUp {m : Handler β} (h : m.Obeys resolute Unresolved true) :
    ∃ j k, m = .call (.write (.publish .dlq j)) k := by
  cases m with
  | pure a => cases h
  | call o k =>
    obtain ⟨j, rfl⟩ := h.1 rfl
    exact ⟨j, k, rfl⟩

end

namespace Delivery

variable {j : RelayJob}

theorem toDLQ_resolute (gaveUp : Bool) : (toDLQ j).Obeys resolute Unresolved gaveUp := by
  refine ⟨fun _ => ⟨j, rfl⟩, fun ok => ?_⟩
  cases ok with
  | true => exact resolute_settle
  | false => exact resolute_settle

theorem defer_resolute (detail : String) : (defer_ j detail).Obeys resolute Unresolved false := by
  refine resolute_ask_bind.mpr fun _ => ⟨of_not_gaveUp, fun _ => ?_⟩
  show Prog.Obeys _ _ false _
  dsimp only
  cases tierForAttempt (j.attempt + 1) with
  | none => exact toDLQ_resolute false
  | some tier =>
    refine ⟨of_not_gaveUp, fun ok => ?_⟩
    cases ok with
    | true => exact resolute_settle
    | false => exact resolute_settle

theorem pace_resolute (g : Gate) (l : Limiter) (key : String) :
    (pace g l key).Obeys resolute Unresolved false := by
  refine resolute_ask_bind.mpr fun r => ?_
  cases r with
  | none => exact rfl
  | some delay =>
    dsimp only
    by_cases hover : maxRateBlock < delay
    · rw [if_pos hover]
      exact resolute_ask_bind.mpr fun _ => rfl
    rw [if_neg hover]
    by_cases hpos : 0 < delay
    · rw [if_pos hpos]
      refine resolute_ask_bind.mpr fun ok => ?_
      cases ok with
      | true => exact rfl
      | false => exact resolute_ask_bind.mpr fun _ => rfl
    · rw [if_neg hpos]
      exact rfl

/-- The chain loop, by induction on the providers still to try: `failed` is recorded at its end
    only, right before the publish. -/
theorem tryChain_resolute (st : RouteState) (raw : Bytes) (ps : List Provider) :
    ∀ sawDefer lastProvider lastDetail,
      (tryChain st j raw ps sawDefer lastProvider lastDetail).Obeys resolute Unresolved false := by
  induction ps with
  | nil =>
    intro sawDefer lastProvider lastDetail
    unfold tryChain
    cases sawDefer with
    | true => exact defer_resolute _
    | false => exact resolute_ask_bind.mpr fun _ => ⟨of_not_gaveUp, fun _ => toDLQ_resolute true⟩
  | cons p ps ih =>
    intro sawDefer lastProvider lastDetail
    unfold tryChain
    refine (pace_resolute .provider st.provLimiter p.name).bind ?_
    rintro h step rfl
    cases step with
    | «over» => exact ih _ _ _
    | expired => exact resolute_settle
    | go =>
      refine resolute_ask_bind.mpr fun res => ?_
      cases settledOutcome res with
      | delivered =>
        refine resolute_ask_bind.mpr fun _ => ⟨of_not_gaveUp, fun _ => ?_⟩
        exact ⟨of_not_gaveUp, fun _ => resolute_settle⟩
      | defer => exact ih _ _ _
      | fail => exact ih _ _ _

theorem handle_resolute (w : Wire) : (handle w).Obeys resolute Unresolved false := by
  cases w with
  | garbage => exact resolute_settle
  | job j =>
    have hraw : (materialize j).Obeys resolute Unresolved false := by
      refine resolute_ask_bind.mpr fun body => ?_
      cases body with
      | none => exact rfl
      | some body =>
        refine resolute_ask_bind.mpr fun st => ?_
        cases hs : st.signerFor j.routingHints.senderDomain with
        | none => exact rfl
        | some sgn => exact ⟨of_not_gaveUp, fun _ => rfl⟩
    refine hraw.bind ?_
    rintro h raw rfl
    cases raw with
    | none => exact resolute_settle
    | some raw =>
      refine resolute_ask_bind.mpr fun st => ?_
      dsimp only
      by_cases hchain : (st.chain j.routingHints).isEmpty = true
      · rw [if_pos hchain]
        exact defer_resolute _
      rw [if_neg hchain]
      refine (pace_resolute .domain st.limiter j.routingHints.recipientDomain).bind ?_
      rintro h step rfl
      cases step with
      | «over» => exact defer_resolute _
      | expired => exact resolute_settle
      | go => exact tryChain_resolute st raw _ _ _ _

end Delivery

section
variable {site : Site} {ok : Cluster → Label → Prop} {c c' : Cluster} {l : Label} {id : MsgId}

/-- Every running worker is resolute. -/
theorem workers_resolute (h : Reach (cluster site) ok c) : ∀ p ∈ c.procs, ∀ w,
    p.task = .deliver w → ∃ gaveUp, p.prog.Obeys resolute Unresolved gaveUp := by
  refine procs_invariant (Q := fun _ p => ∀ w, p.task = .deliver w →
    ∃ gaveUp, p.prog.Obeys resolute Unresolved gaveUp) (fun _ _ _ _ hq => hq) ?_ ?_
    (fun _ _ _ hq => hq) h
  · rintro c t - - - w rfl
    exact ⟨false, (Delivery.handle_resolute w).bind fun _ _ hf => hf⟩
  · intro c p o k r f n _ _ _ hk _ hq w ht
    obtain ⟨gaveUp, hob⟩ := hq w ht
    rw [hk] at hob
    exact ⟨_, hob.2 r⟩

end

/-! ## The condition -/

/-- **The condition.**  A worker that recorded `failed` does not fail to publish the job to the
    DLQ.  A requeue publishes only a message that is settled and still live.  A worker does not die
    after it has published a successor, or after it has closed the message; and it does not lose its
    connection before it has called for the message to be closed, or when that took effect. -/
def conclusive (c : Cluster) : Label → Prop
  | .op p (.write (.publish _ _)) _ f => f.applied = true ∨
      ∀ j, p.task = .deliver (.job j) → .recorded j.messageID .failed ∉ c.world.log
  | .op p (.write (.publishRelayJob j)) _ f => f.applied = true → p.task = .requeue j.messageID →
      c.Settled j.messageID ∧ c.world.live j.messageID = true
  | .lose p => ∀ j, p.task = .deliver (.job j) →
      p.phase = .closed ∧ c.world.live j.messageID = true
  | .crash p => p.held ≠ none → ∀ j, p.task = .deliver (.job j) →
      p.phase ≠ .moved ∧ c.world.live j.messageID = true
  | _ => True

/-! ## The invariant -/

/-- The message was not given up, and its row, if it is there, is live. -/
structure World.Open (w : World) (id : MsgId) : Prop where
  notFailed : .recorded id .failed ∉ w.log
  live : ∀ row, w.rows id = some row → row.status.live = true

/-- The row, if it is there, is not relayed. -/
def World.Unrelayed (w : World) (id : MsgId) : Prop :=
  ∀ row, w.rows id = some row → row.status ≠ .relayed

/-- The worker has recorded `failed` and its next call publishes to the DLQ. -/
structure Proc.GaveUp (p : Proc) (w : World) (id : MsgId) : Prop where
  next : ∃ j k, p.prog = .call (.write (.publish .dlq j)) k
  failed : .recorded id .failed ∈ w.log

/-- Somebody on the delivery side may still record an attempt, or hand the message on to one who
    may. -/
inductive Cluster.Active (c : Cluster) (id : MsgId) : Prop where
  | queued {q : Queue} {j : RelayJob} (hm : (q, .job j) ∈ c.world.bus) (hq : q ≠ .dlq)
      (hid : j.messageID = id)
  | worker {p : Proc} (hin : p ∈ c.procs) (ht : p.task.delivers id = true) (hh : p.held ≠ none)
      (hph : p.phase = .start ∨ p.phase = .sent) (hg : ¬ p.GaveUp c.world id)
  | coming {p : Proc} (hin : p ∈ c.procs) (hph : p.phase.pending = some id)

/-- The message is past the DLQ, or with a worker that gave it up. -/
inductive Cluster.Parted (c : Cluster) (id : MsgId) : Prop where
  | queued {j : RelayJob} (hm : (.dlq, .job j) ∈ c.world.bus) (hid : j.messageID = id)
  | bouncing {p : Proc} (hin : p ∈ c.procs) (ht : p.task.bounces id = true)
  | gaveUp {p : Proc} (hin : p ∈ c.procs) (ht : p.task.delivers id = true) (hh : p.held ≠ none)
      (hph : p.phase = .start) (hg : p.GaveUp c.world id)

/-- **The invariant.**  One stake; none on the delivery side beside a bounce generator; an open row
    while the message is active; no relayed row once it has parted; and a message that was given up
    has failed or bounced. -/
structure Cluster.Conclusive (c : Cluster) (id : MsgId) : Prop where
  one : c.stake id true ≤ 1
  apart : ∀ p ∈ c.procs, p.task.bounces id = true → c.stake id false = 0
  active : c.Active id → c.world.Open id
  parted : c.Parted id → c.world.Unrelayed id
  failed : .recorded id .failed ∈ c.world.log →
    ∀ row, c.world.rows id = some row → row.status = .failed ∨ row.status = .bounced

theorem World.Open.unrelayed {w : World} {id : MsgId} (h : w.Open id) : w.Unrelayed id := by
  intro row hrow hst
  have hl := h.live row hrow
  rw [hst] at hl
  cases hl

/-- A live row is open: what was given up is not live. -/
theorem Cluster.Conclusive.open_of_live {c : Cluster} {id : MsgId} (h : c.Conclusive id)
    (hl : c.world.live id = true) : c.world.Open id := by
  obtain ⟨row, hrow, hlive⟩ := (Option.any_eq_true _ _).mp hl
  constructor
  · intro hf
    rcases h.failed hf row hrow with hst | hst
    · rw [hst] at hlive
      cases hlive
    · rw [hst] at hlive
      cases hlive
  · intro row' hrow'
    cases hrow.symm.trans hrow'
    exact hlive

/-! ## Where the active come from -/

section
variable {site : Site} {c c' : Cluster} {l : Label} {id : MsgId}

/-- A worker without its delivery has closed the message, or settled it. -/
theorem lost_workers (h : Reach (cluster site) conclusive c) : ∀ p ∈ c.procs, ∀ j,
    p.task = .deliver (.job j) → p.held = none → p.phase = .closed ∨ p.phase = .done := by
  refine procs_invariant (Q := fun _ p => ∀ j, p.task = .deliver (.job j) → p.held = none →
    p.phase = .closed ∨ p.phase = .done) (fun _ _ _ _ hq => hq) ?_ ?_ ?_ h
  · rintro c t - - - j rfl hh
    cases hh
  · intro c p o k r f n hr _ hin hk hx hq j ht hh
    have ht : p.task = .deliver (.job j) := ht
    have hturn := (procs_ok hr p hin).turn_to hk hx
    have hkeep : p.held = none → n.phase = .closed ∨ n.phase = .done := by
      intro hnone
      have hph := hq j ht hnone
      rw [ht] at hturn
      show n.phase = .closed ∨ n.phase = .done
      generalize n.phase = ph' at hturn
      generalize p.phase = ph at hturn hph
      cases hturn with
      | read | announce | suppress | prune => exact hph
      | relayed => exact .inl rfl
      | ack | retry | regenerate | garbage => exact .inr rfl
      | _ => rcases hph with hph | hph <;> cases hph
    cases hx with
    | settle => exact .inr rfl
    | write | ask | newID => exact hkeep hh
  · intro c p _ hok _ _ j ht _
    exact .inl (hok j ht).1

/-- So a worker that is not that far holds its delivery. -/
theorem worker_holds (h : Reach (cluster site) conclusive c) {p : Proc} (hin : p ∈ c.procs)
    (ht : p.task.delivers id = true) (hph : p.phase = .start ∨ p.phase = .sent) :
    p.held ≠ none := by
  intro hnone
  obtain ⟨j, hj, -⟩ := Task.of_delivers ht
  rcases lost_workers h p hin j hj hnone with hc | hc
  · rcases hph with hs | hs <;> cases hc.symm.trans hs
  · rcases hph with hs | hs <;> cases hc.symm.trans hs

theorem Proc.GaveUp.mono {p : Proc} {w w' : World} (h : p.GaveUp w id)
    (hlog : ∀ e ∈ w.log, e ∈ w'.log) : p.GaveUp w' id := ⟨h.next, hlog _ h.failed⟩

/-- A worker about to make some other call has not given up. -/
theorem Proc.not_gaveUp {p : Proc} {w : World} {o : Op} {k : o.Ret → Handler Bool}
    (hk : p.prog = .call o k) (ho : ∀ j, o ≠ .write (.publish .dlq j)) : ¬ p.GaveUp w id := by
  intro hg
  obtain ⟨j, k', hnext⟩ := hg.next
  rw [hk] at hnext
  exact ho j (Prog.call.inj hnext).1

/-- A call that leaves the message active found it active, or drew its id, or requeues it while it
    is live. -/
theorem active_of_call (hr : Reach (cluster site) conclusive c) {p : Proc} {ps : Multiset Proc}
    {o : Op} {k : o.Ret → Handler Bool} {r : o.Ret} {f : Fate} {n : Conf}
    (hok : conclusive c (.op p o r f)) (hp : c.procs = p ::ₘ ps) (hk : p.prog = .call o k)
    (hx : Exec site.net p.task (p.conf c.world) o r f n)
    (h : Cluster.Active ⟨n.world, p.resume n (k r) ::ₘ ps⟩ id) :
    c.Active id ∨ id ∉ c.world.ids ∨ c.world.live id = true := by
  have hin : p ∈ c.procs := hp ▸ Multiset.mem_cons_self _ _
  have hturn := (procs_ok hr p hin).turn_to hk hx
  have hlog : ∀ e ∈ c.world.log, e ∈ n.world.log := fun e he => hx.log_subset he
  cases h with
  | @queued q j hm hq hid =>
    rcases hx.job_cases hm with hold | ⟨wr, rfl, hf, hpub⟩ | ⟨v, rfl, hv, hh⟩
    · exact .inl (.queued hold hq hid)
    · cases hturn.publisher hpub with
      | worker ht hj hph hm hw =>
        have ht := Task.delivers_successor ht hj
        subst hw
        refine .inl (.worker hin (hid ▸ ht) (worker_holds hr hin ht (.inl hph)) (.inl hph) ?_)
        refine Proc.not_gaveUp hk fun j' he => ?_
        cases he
        exact hq rfl
      | producer hph => exact .inl (.coming hin (hid ▸ Phase.pending_of_inserted hph))
      | operator ht hph hj hw =>
        subst hw
        exact .inr (.inr (hid ▸ (hok hf ht).2))
    · rcases held_delivers hr hin hh with ⟨-, ht⟩ | ⟨rfl, -⟩
      · -- a worker nacks its delivery
        have hdel : p.task.delivers id = true := by rw [ht]; exact decide_eq_true hid
        have hph : p.phase = .start := hturn.of_requeues hv ht
        refine .inl (.worker hin hdel (worker_holds hr hin hdel (.inl hph)) (.inl hph) ?_)
        exact Proc.not_gaveUp hk nofun
      · exact absurd rfl hq
  | @worker p' hin' ht hh hph hg =>
    rcases Multiset.mem_cons.mp hin' with rfl | hin'
    · have ht : p.task.delivers id = true := ht
      obtain ⟨j, htask, hid⟩ := Task.of_delivers ht
      have hph' : p.phase = .start ∨ p.phase = .sent := by
        have hnext : n.phase = .start ∨ n.phase = .sent := hph
        clear hph
        generalize n.phase = ph' at hturn hnext
        generalize p.phase = ph at hturn ⊢
        cases hturn with
        | read | suppress | prune | announce => exact hnext
        | undelivered | delivered | attempt | successor => exact .inl rfl
        | put | insertBody | insert | submission | dsn | alert =>
          split at hnext <;> rcases hnext with h | h <;> cases h
        | _ => rcases hnext with h | h <;> cases h
      refine .inl (.worker hin ht (worker_holds hr hin ht hph') hph' fun hg' => ?_)
      -- it had given up, so this was its publish to the DLQ, and it failed
      obtain ⟨j', k', hnext⟩ := hg'.next
      rw [hk] at hnext
      cases hnext
      rcases hok with hf | hnot
      · have hph : n.phase = .start ∨ n.phase = .sent := hph
        cases hx with
        | write hposs =>
          cases f with
          | failed => cases hf
          | lost => cases hposs
          | ok =>
            have hmoved : p.phase.nextWrite true (.publish .dlq j') = .moved := by
              cases hps : p.phase with
              | inserted i => rcases hph' with h | h <;> cases hps.symm.trans h
              | _ => rfl
            have hph : p.phase.nextWrite true (.publish .dlq j') = .start ∨
                p.phase.nextWrite true (.publish .dlq j') = .sent := hph
            rw [hmoved] at hph
            rcases hph with h | h <;> cases h
      · exact hnot j htask (hid ▸ hg'.failed)
    · exact .inl (.worker (hp ▸ Multiset.mem_cons_of_mem hin') ht hh hph
        fun hg' => hg (hg'.mono hlog))
  | @coming p' hin' hph =>
    rcases Multiset.mem_cons.mp hin' with rfl | hin'
    · rcases hx.pending_cases hturn hph with hph | hid
      · exact .inl (.coming hin hph)
      · exact .inr (.inl hid)
    · exact .inl (.coming (hp ▸ Multiset.mem_cons_of_mem hin') hph)

/-- **A message that is active after a step was active before**, unless its id was drawn just now,
    or a job of it was put back or requeued, and then its row is live. -/
theorem Cluster.Active.back (hr : Reach (cluster site) conclusive c) (hok : conclusive c l)
    (hst : Step site c l c') (h : c'.Active id) :
    c.Active id ∨ id ∉ c.world.ids ∨ c.world.live id = true := by
  have hworker : ∀ {p : Proc}, p ∈ c.procs → p.task.delivers id = true → p.held ≠ none →
      p.phase = .start ∨ p.phase = .sent → ¬ p.GaveUp c'.world id → c.Active id := by
    intro p hin ht hh hph hg
    exact .worker hin ht hh hph fun hg' => hg (hg'.mono fun e he => hst.log_subset he)
  cases hst with
  | start t hd =>
    refine .inl ?_
    cases h with
    | queued hm hq hid =>
      have hm : _ ∈ (c.world.handOut t.delivery).bus := hm
      cases hdel : t.delivery with
      | none =>
        rw [hdel] at hm
        exact .queued hm hq hid
      | some d =>
        rw [hdel] at hm
        exact .queued (Multiset.mem_of_mem_erase hm) hq hid
    | worker hin ht hh hph hg =>
      rcases Multiset.mem_cons.mp hin with rfl | hin
      · obtain ⟨j, hj, hid⟩ := Task.of_delivers ht
        have hj : t = .deliver (.job j) := hj
        exact .queued (hd (.work, .job j) (by rw [hj]; rfl)) nofun hid
      · exact hworker hin ht hh hph hg
    | coming hin hph =>
      rcases Multiset.mem_cons.mp hin with rfl | hin
      · cases hph
      · exact .coming hin hph
  | op hp hk hx => exact active_of_call hr hok hp hk hx h
  | @finish p ps ok hp hk =>
    refine .inl ?_
    cases h with
    | queued hm hq hid => exact .queued hm hq hid
    | worker hin ht hh hph hg =>
      exact hworker (hp ▸ Multiset.mem_cons_of_mem hin) ht hh hph hg
    | coming hin hph => exact .coming (hp ▸ Multiset.mem_cons_of_mem hin) hph
  | @expire q w hq hm =>
    refine .inl ?_
    cases h with
    | queued hm' hq' hid =>
      rcases Multiset.mem_cons.mp hm' with he | hm'
      · cases he
        exact .queued hm (fun hc => by rw [hc] at hq; cases hq) hid
      · exact .queued (Multiset.mem_of_mem_erase hm') hq' hid
    | worker hin ht hh hph hg => exact hworker hin ht hh hph hg
    | coming hin hph => exact .coming hin hph
  | @lose p ps hp hh =>
    have hin : p ∈ c.procs := hp ▸ Multiset.mem_cons_self _ _
    cases h with
    | @queued q j hm hq hid =>
      obtain ⟨d, hheld⟩ := Option.ne_none_iff_exists'.mp hh
      rw [hheld] at hm
      rcases Multiset.mem_cons.mp hm with he | hm
      · subst he
        rcases held_delivers hr hin hheld with ⟨-, ht⟩ | ⟨rfl, -⟩
        · exact .inr (.inr (hid ▸ (hok j ht).2))
        · exact absurd rfl hq
      · exact .inl (.queued hm hq hid)
    | worker hin' ht hh' hph hg =>
      rcases Multiset.mem_cons.mp hin' with rfl | hin'
      · exact absurd rfl hh'
      · exact .inl (hworker (hp ▸ Multiset.mem_cons_of_mem hin') ht hh' hph hg)
    | coming hin' hph =>
      rcases Multiset.mem_cons.mp hin' with rfl | hin'
      · exact .inl (.coming hin hph)
      · exact .inl (.coming (hp ▸ Multiset.mem_cons_of_mem hin') hph)
  | @crash p ps hp =>
    have hin : p ∈ c.procs := hp ▸ Multiset.mem_cons_self _ _
    cases h with
    | @queued q j hm hq hid =>
      cases hheld : p.held with
      | none =>
        rw [hheld] at hm
        exact .inl (.queued hm hq hid)
      | some d =>
        rw [hheld] at hm
        rcases Multiset.mem_cons.mp hm with he | hm
        · subst he
          rcases held_delivers hr hin hheld with ⟨-, ht⟩ | ⟨rfl, -⟩
          · exact .inr (.inr (hid ▸ (hok (by rw [hheld]; exact Option.some_ne_none _) j ht).2))
          · exact absurd rfl hq
        · exact .inl (.queued hm hq hid)
    | worker hin' ht hh' hph hg =>
      exact .inl (hworker (hp ▸ Multiset.mem_cons_of_mem hin') ht hh' hph hg)
    | coming hin' hph => exact .inl (.coming (hp ▸ Multiset.mem_cons_of_mem hin') hph)
  | tick =>
    refine .inl ?_
    cases h with
    | queued hm hq hid => exact .queued hm hq hid
    | worker hin ht hh hph hg => exact hworker hin ht hh hph hg
    | coming hin hph => exact .coming hin hph

/-- A call that leaves the message parted found it so, or found it active. -/
theorem parted_of_call (hr : Reach (cluster site) conclusive c) {p : Proc} {ps : Multiset Proc}
    {o : Op} {k : o.Ret → Handler Bool} {r : o.Ret} {f : Fate} {n : Conf}
    (hp : c.procs = p ::ₘ ps) (hk : p.prog = .call o k)
    (hx : Exec site.net p.task (p.conf c.world) o r f n)
    (h : Cluster.Parted ⟨n.world, p.resume n (k r) ::ₘ ps⟩ id) :
    c.Parted id ∨ c.Active id := by
  have hin : p ∈ c.procs := hp ▸ Multiset.mem_cons_self _ _
  have hturn := (procs_ok hr p hin).turn_to hk hx
  -- a worker that has recorded nothing conclusive is active, unless it gave up
  have hworker : p.task.delivers id = true → p.phase = .start → c.Parted id ∨ c.Active id := by
    intro ht hph
    have hh := worker_holds hr hin ht (.inl hph)
    by_cases hg : p.GaveUp c.world id
    · exact .inl (.gaveUp hin ht hh hph hg)
    · exact .inr (.worker hin ht hh (.inl hph) hg)
  cases h with
  | @queued j hm hid =>
    rcases hx.job_cases hm with hold | ⟨wr, rfl, hf, hpub⟩ | ⟨v, rfl, hv, hh⟩
    · exact .inl (.queued hold hid)
    · cases hturn.publisher hpub with
      | worker ht hj hph => exact hworker (hid ▸ Task.delivers_successor ht hj) hph
      | producer _ hq => cases hq
      | operator _ _ _ _ hq => cases hq
    · rcases held_delivers hr hin hh with ⟨hq, -⟩ | ⟨-, ht⟩
      · cases hq
      · refine .inl (.bouncing hin ?_)
        rw [ht]
        exact decide_eq_true hid
  | bouncing hin' ht =>
    rcases Multiset.mem_cons.mp hin' with rfl | hin'
    · exact .inl (.bouncing hin ht)
    · exact .inl (.bouncing (hp ▸ Multiset.mem_cons_of_mem hin') ht)
  | @gaveUp p' hin' ht hh hph hg =>
    rcases Multiset.mem_cons.mp hin' with rfl | hin'
    · refine hworker ht ?_
      obtain ⟨j, htask, -⟩ := Task.of_delivers ht
      have htask : p.task = .deliver (.job j) := htask
      have hnext : n.phase = .start := hph
      clear hph
      generalize n.phase = ph' at hturn hnext
      generalize p.phase = ph at hturn ⊢
      cases hturn with
      | read | suppress | prune | announce => exact hnext
      | undelivered | attempt | successor => rfl
      | put | insertBody | insert | submission | dsn | alert => split at hnext <;> cases hnext
      | _ => cases hnext
    · have hin' : p' ∈ c.procs := hp ▸ Multiset.mem_cons_of_mem hin'
      by_cases hg' : p'.GaveUp c.world id
      · exact .inl (.gaveUp hin' ht hh hph hg')
      · exact .inr (.worker hin' ht hh (.inl hph) hg')

/-- The same of every step. -/
theorem Cluster.Parted.back (hr : Reach (cluster site) conclusive c) (hst : Step site c l c')
    (h : c'.Parted id) : c.Parted id ∨ c.Active id := by
  have hworker : ∀ {p : Proc}, p ∈ c.procs → p.task.delivers id = true → p.held ≠ none →
      p.phase = .start → c.Parted id ∨ c.Active id := by
    intro p hin ht hh hph
    by_cases hg : p.GaveUp c.world id
    · exact .inl (.gaveUp hin ht hh hph hg)
    · exact .inr (.worker hin ht hh (.inl hph) hg)
  cases hst with
  | start t hd =>
    cases h with
    | queued hm hid =>
      have hm : _ ∈ (c.world.handOut t.delivery).bus := hm
      cases hdel : t.delivery with
      | none =>
        rw [hdel] at hm
        exact .inl (.queued hm hid)
      | some d =>
        rw [hdel] at hm
        exact .inl (.queued (Multiset.mem_of_mem_erase hm) hid)
    | bouncing hin ht =>
      rcases Multiset.mem_cons.mp hin with rfl | hin
      · have ht : t.bounces id = true := ht
        cases t with
        | bounce w =>
          cases w with
          | job j => exact .inl (.queued (hd (.dlq, .job j) rfl) (of_decide_eq_true ht))
          | garbage => cases ht
        | _ => cases ht
      · exact .inl (.bouncing hin ht)
    | gaveUp hin ht hh hph hg =>
      rcases Multiset.mem_cons.mp hin with rfl | hin
      · obtain ⟨j, hj, hid⟩ := Task.of_delivers ht
        have hj : t = .deliver (.job j) := hj
        exact .inr (.queued (hd (.work, .job j) (by rw [hj]; rfl)) nofun hid)
      · exact hworker hin ht hh hph
  | op hp hk hx => exact parted_of_call hr hp hk hx h
  | @finish p ps ok hp hk =>
    cases h with
    | queued hm hid => exact .inl (.queued hm hid)
    | bouncing hin ht => exact .inl (.bouncing (hp ▸ Multiset.mem_cons_of_mem hin) ht)
    | gaveUp hin ht hh hph hg => exact hworker (hp ▸ Multiset.mem_cons_of_mem hin) ht hh hph
  | @expire q w hq hm =>
    cases h with
    | queued hm' hid =>
      rcases Multiset.mem_cons.mp hm' with he | hm'
      · cases he
      · exact .inl (.queued (Multiset.mem_of_mem_erase hm') hid)
    | bouncing hin ht => exact .inl (.bouncing hin ht)
    | gaveUp hin ht hh hph hg => exact hworker hin ht hh hph
  | @lose p ps hp hh =>
    have hin : p ∈ c.procs := hp ▸ Multiset.mem_cons_self _ _
    cases h with
    | @queued j hm hid =>
      obtain ⟨d, hheld⟩ := Option.ne_none_iff_exists'.mp hh
      rw [hheld] at hm
      rcases Multiset.mem_cons.mp hm with he | hm
      · subst he
        rcases held_delivers hr hin hheld with ⟨hq, -⟩ | ⟨-, ht⟩
        · cases hq
        · exact .inl (.bouncing hin (by rw [ht]; exact decide_eq_true hid))
      · exact .inl (.queued hm hid)
    | bouncing hin' ht =>
      rcases Multiset.mem_cons.mp hin' with rfl | hin'
      · exact .inl (.bouncing hin ht)
      · exact .inl (.bouncing (hp ▸ Multiset.mem_cons_of_mem hin') ht)
    | gaveUp hin' ht hh' hph hg =>
      rcases Multiset.mem_cons.mp hin' with rfl | hin'
      · exact absurd rfl hh'
      · exact hworker (hp ▸ Multiset.mem_cons_of_mem hin') ht hh' hph
  | @crash p ps hp =>
    have hin : p ∈ c.procs := hp ▸ Multiset.mem_cons_self _ _
    cases h with
    | @queued j hm hid =>
      cases hheld : p.held with
      | none =>
        rw [hheld] at hm
        exact .inl (.queued hm hid)
      | some d =>
        rw [hheld] at hm
        rcases Multiset.mem_cons.mp hm with he | hm
        · subst he
          rcases held_delivers hr hin hheld with ⟨hq, -⟩ | ⟨-, ht⟩
          · cases hq
          · exact .inl (.bouncing hin (by rw [ht]; exact decide_eq_true hid))
        · exact .inl (.queued hm hid)
    | bouncing hin' ht => exact .inl (.bouncing (hp ▸ Multiset.mem_cons_of_mem hin') ht)
    | gaveUp hin' ht hh' hph hg => exact hworker (hp ▸ Multiset.mem_cons_of_mem hin') ht hh' hph
  | tick =>
    cases h with
    | queued hm hid => exact .inl (.queued hm hid)
    | bouncing hin ht => exact .inl (.bouncing hin ht)
    | gaveUp hin ht hh hph hg => exact hworker hin ht hh hph

/-! ## How the stakes move -/

/-- An active message has a stake on the delivery side. -/
theorem Cluster.Active.pos (h : c.Active id) : 0 < c.stake id false := by
  cases h with
  | @queued q j hm hq hid =>
    have hjob : jobStake id false (q, .job j) = 1 := by
      have hc : (Wire.job j).carries id = true := decide_eq_true hid
      show ((Wire.job j).carries id && (false || decide (q ≠ .dlq))).toNat = 1
      rw [hc, decide_eq_true hq]
      rfl
    have hle := Cluster.job_le_stake hm id false
    omega
  | @worker p hin ht hh hph hg =>
    have hne : p.phase ≠ .moved := by
      intro hm
      rcases hph with h | h <;> cases hm.symm.trans h
    have hpos := Task.stake_worker ht hne false
    have hle := Cluster.le_stake hin id false
    rw [Option.isSome_iff_ne_none.mpr hh] at hle
    omega
  | coming hin hph => exact (Task.stake_pending hph false).trans_le (Cluster.le_stake hin id false)

/-- A message that has parted has a stake too, unless only a bounce generator is left. -/
theorem Cluster.Parted.pos (h : c.Parted id) :
    0 < c.stake id true ∨ ∃ p ∈ c.procs, p.task.bounces id = true := by
  cases h with
  | @queued j hm hid =>
    have hjob : jobStake id true (.dlq, .job j) = 1 := by
      have hc : (Wire.job j).carries id = true := decide_eq_true hid
      show ((Wire.job j).carries id && (true || _)).toNat = 1
      rw [hc]
      rfl
    have hle := Cluster.job_le_stake hm id true
    exact .inl (by omega)
  | bouncing hin ht => exact .inr ⟨_, hin, ht⟩
  | @gaveUp p hin ht hh hph hg =>
    have hne : p.phase ≠ .moved := by
      rw [hph]
      exact nofun
    have hpos := Task.stake_worker ht hne true
    have hle := Cluster.le_stake hin id true
    rw [Option.isSome_iff_ne_none.mpr hh] at hle
    exact .inl (by omega)

/-- **A step adds no stake**, or it draws or requeues the message, and then there is one stake and
    no bounce generator. -/
theorem Step.stakes (hr : Reach (cluster site) conclusive c) (hok : conclusive c l)
    (hst : Step site c l c') (id : MsgId) : (∀ far, c'.stake id far ≤ c.stake id far) ∨
      ((∀ far, c'.stake id far ≤ 1) ∧ ∀ p ∈ c'.procs, p.task.bounces id = false) := by
  have hkeys := keyed hr
  have hbounce : ∀ t : Task, t.bounces id = true → ∃ j, t = .bounce (.job j) ∧ j.messageID = id := by
    intro t ht
    cases t with
    | bounce w =>
      cases w with
      | job j => exact ⟨j, rfl, of_decide_eq_true ht⟩
      | garbage => cases ht
    | _ => cases ht
  by_cases hid : id ∈ c.world.ids
  · by_cases hreq : ∃ p j r f, l = .op p (.write (.publishRelayJob j)) r f ∧
        p.task = .requeue j.messageID ∧ f.applied = true ∧ j.messageID = id
    · obtain ⟨p, j, r, f, rfl, ht, hf, rfl⟩ := hreq
      obtain ⟨hset, -⟩ := hok hf ht
      obtain ⟨hin, hturn⟩ := hst.turn hr
      have hph : ∀ i, p.phase.pending ≠ some i := by
        cases hturn.publisher (q := .work) (j := j) rfl with
        | operator _ hph => rw [hph]; nofun
        | worker hd => rw [ht] at hd; cases hd
        | producer hp => exact absurd (Phase.pending_of_inserted hp) (hset.pending p hin)
      refine .inr ⟨fun far => ?_, fun p' hp' => ?_⟩
      · have hzero : c.stake j.messageID far = 0 :=
          Cluster.stake_zero (fun d hd => by
            obtain ⟨q, wire⟩ := d
            cases wire with
            | job j' => exact decide_eq_false (hset.jobs q j' hd)
            | garbage => rfl) (fun q hq hc => (hset.procs q hq hc).1) hset.pending
        have hle := hst.stake_requeue ht hph j.messageID far
        omega
      · rcases hst.task_cases hp' with ⟨q, hq, htask⟩ | ⟨hl, -⟩
        · rw [htask]
          cases hb : q.task.bounces j.messageID with
          | false => rfl
          | true =>
            have hcar : q.task.carries j.messageID = true := by
              rw [Task.carries_eq, hb, Bool.or_true]
            exact hb.symm.trans (hset.procs q hq hcar).2
        · cases hl
    · refine .inl (hst.stake_le hr hid ?_ (fun p hin ht hph => worker_holds hr hin ht (.inl hph)) ?_)
      · intro p hl hh hm
        have hin : p ∈ c.procs := by
          rcases hl with rfl | rfl
          · cases hst with
            | lose hp => exact hp ▸ Multiset.mem_cons_self _ _
          · cases hst with
            | crash hp => exact hp ▸ Multiset.mem_cons_self _ _
        obtain ⟨j, ht⟩ := workers_only hr p hin (.inl hm)
        rcases hl with rfl | rfl
        · cases hm.symm.trans (hok j ht).1
        · exact (hok hh j ht).1 hm
      · intro p j r f hl ht hf he
        exact hreq ⟨p, j, r, f, hl, ht, hf, he⟩
  · refine .inr ⟨hst.stake_new hr hok hid, fun p' hp' => ?_⟩
    cases hb : p'.task.bounces id with
    | false => rfl
    | true =>
      obtain ⟨j, htask, rfl⟩ := hbounce _ hb
      rcases hst.task_cases hp' with ⟨q, hq, he⟩ | ⟨-, hd⟩
      · have hjob : q.task.job = some j := by rw [← he, htask]; rfl
        exact absurd ((hkeys.tasks q hq).job hjob).drawn hid
      · have hm : (Queue.dlq, Wire.job j) ∈ c.world.bus := hd _ (by rw [htask]; rfl)
        exact absurd (hkeys.world.jobs hm).drawn hid

/-! ## Recording an attempt -/

/-- A worker about to record an attempt is active. -/
theorem Recorder.active {p : Proc} {k : Bool → Handler Bool} {st : Status} {kind : EventKind}
    {provider detail : String} (hr : Reach (cluster site) conclusive c) (hin : p ∈ c.procs)
    (hk : p.prog = .call (.write (.recordAttempt id st kind provider detail)) k)
    (ht : p.task.delivers id = true) (hph : p.phase = .start ∨ p.phase = .sent) : c.Active id :=
  .worker hin ht (worker_holds hr hin ht hph) hph (Proc.not_gaveUp hk nofun)

/-- Who is active after one task has made a call that left the broker alone: the task itself, or one
    of the others. -/
theorem Cluster.Active.rest {w w' : World} {p : Proc} {ps : Multiset Proc}
    (hbus : w'.bus = w.bus) (hlog : ∀ e ∈ w.log, e ∈ w'.log)
    (h : Cluster.Active ⟨w', p ::ₘ ps⟩ id) :
    ((p.phase = .start ∨ p.phase = .sent) ∧ ¬ p.GaveUp w' id) ∨ p.phase.pending = some id ∨
      Cluster.Active ⟨w, ps⟩ id := by
  cases h with
  | queued hm hq hid =>
    dsimp only at hm
    rw [hbus] at hm
    exact .inr (.inr (.queued hm hq hid))
  | worker hin ht hh hph hg =>
    rcases Multiset.mem_cons.mp hin with rfl | hin
    · exact .inl ⟨hph, hg⟩
    · exact .inr (.inr (.worker hin ht hh hph fun hg' => hg (hg'.mono hlog)))
  | coming hin hph =>
    rcases Multiset.mem_cons.mp hin with rfl | hin
    · exact .inr (.inl hph)
    · exact .inr (.inr (.coming hin hph))

/-- Who has parted, in the same way. -/
theorem Cluster.Parted.rest {w w' : World} {p : Proc} {ps : Multiset Proc}
    (hbus : w'.bus = w.bus) (h : Cluster.Parted ⟨w', p ::ₘ ps⟩ id) :
    p.task.bounces id = true ∨ p.phase = .start ∨ (∃ p' ∈ ps, p'.task.bounces id = true) ∨
      0 < Cluster.stake ⟨w, ps⟩ id true := by
  cases h with
  | queued hm hid =>
    dsimp only at hm
    rw [hbus] at hm
    rcases Cluster.Parted.pos (c := ⟨w, ps⟩) (.queued hm hid) with hpos | hb
    · exact .inr (.inr (.inr hpos))
    · exact .inr (.inr (.inl hb))
  | bouncing hin ht =>
    rcases Multiset.mem_cons.mp hin with rfl | hin
    · exact .inl ht
    · exact .inr (.inr (.inl ⟨_, hin, ht⟩))
  | @gaveUp p' hin ht hh hph hg =>
    rcases Multiset.mem_cons.mp hin with rfl | hin
    · exact .inr (.inl hph)
    · have hne : p'.phase ≠ .moved := by
        rw [hph]
        exact nofun
      have hle := Cluster.le_stake (c := ⟨w, ps⟩) hin id true
      have hpos := Task.stake_worker ht hne true
      rw [Option.isSome_iff_ne_none.mpr hh] at hle
      exact .inr (.inr (.inr (by omega)))

/-- A worker that is not past its send has the only stake. -/
theorem Cluster.Conclusive.sole {p : Proc} {ps : Multiset Proc}
    (hr : Reach (cluster site) conclusive c) (h : c.Conclusive id) (hp : c.procs = p ::ₘ ps)
    (ht : p.task.delivers id = true) (hph : p.phase = .start ∨ p.phase = .sent) :
    Cluster.stake ⟨c.world, ps⟩ id true = 0 ∧ ∀ p' ∈ ps, p'.task.bounces id = false := by
  have hin : p ∈ c.procs := hp ▸ Multiset.mem_cons_self _ _
  have hh := worker_holds hr hin ht hph
  have hne : p.phase ≠ .moved := by
    intro hm
    rcases hph with h | h <;> cases hm.symm.trans h
  constructor
  · have hone := h.one
    have hmine := Task.stake_worker ht hne true
    rw [Cluster.stake_cons hp, Option.isSome_iff_ne_none.mpr hh] at hone
    show c.world.stake id true + procsStake ps id true = 0
    omega
  · intro p' hin'
    cases hb : p'.task.bounces id with
    | false => rfl
    | true =>
      have hfar := h.apart p' (hp ▸ Multiset.mem_cons_of_mem hin') hb
      have hnear := Task.stake_worker ht hne false
      rw [Cluster.stake_cons hp, Option.isSome_iff_ne_none.mpr hh] at hfar
      omega

/-- When a worker gives a message up or closes it, nobody else has a stake in it, and it has no
    more to record itself. -/
theorem recorded_alone {p : Proc} {st : Status} {kind : EventKind} {provider detail : String}
    {r : Bool} {f : Fate} (hr : Reach (cluster site) conclusive c) (hinv : c.Conclusive id)
    (hst : Step site c (.op p (.write (.recordAttempt id st kind provider detail)) r f) c')
    (hf : f.applied = true) (ht : p.task.delivers id = true)
    (hph : p.phase = .start ∨ p.phase = .sent) (hcl : st = .failed ∨ st = .relayed) :
    ¬ c'.Active id ∧ (st = .relayed → ¬ c'.Parted id) := by
  obtain ⟨j, htask, hid⟩ := Task.of_delivers ht
  cases hst with
  | @op _ ps _ k _ _ n hp hk hx =>
    have hin : p ∈ c.procs := hp ▸ Multiset.mem_cons_self _ _
    obtain ⟨hzero, hfar⟩ := hinv.sole hr hp ht hph
    obtain ⟨gaveUp, hob⟩ := workers_resolute hr p hin (.job j) htask
    rw [hk] at hob
    have hnext := hob.2 r
    have hlog : ∀ e ∈ c.world.log, e ∈ n.world.log := fun e he => hx.log_subset he
    have hn : n.world.bus = c.world.bus ∧ .recorded id st ∈ n.world.log ∧
        n.phase = if st = .relayed then .closed else p.phase := by
      cases hx with
      | write hposs =>
        refine ⟨World.after_bus_none _ _ _ rfl, ?_, ?_⟩
        · dsimp only
          rw [World.after_log]
          refine List.mem_append_right _ (List.mem_append_left _ ?_)
          rw [if_pos hf]
          exact List.mem_singleton_self _
        · rcases hcl with rfl | rfl <;> rfl
    obtain ⟨hbus, hrec, hphase⟩ := hn
    constructor
    · intro hact
      rcases hact.rest hbus hlog with ⟨hph', hg⟩ | hph' | hact
      · have hnow : n.phase = .start ∨ n.phase = .sent := hph'
        clear hph'
        rcases hcl with rfl | rfl
        · exact hg ⟨resolute_gaveUp hnext, hrec⟩
        · rw [hphase, if_pos rfl] at hnow
          rcases hnow with h | h <;> cases h
      · have hph' : n.phase.pending = some id := hph'
        rw [hphase] at hph'
        split at hph'
        · cases hph'
        · rcases hph with h | h <;> (rw [h] at hph'; cases hph')
      · have hpos := hact.pos
        have hle := Cluster.stake_mono ⟨c.world, ps⟩ id
        omega
    · rintro rfl hpart
      rcases hpart.rest hbus with hb | hph' | ⟨p', hin', hb⟩ | hpos
      · have hb : p.task.bounces id = true := hb
        rw [htask] at hb
        cases hb
      · have hph' : n.phase = .start := hph'
        rw [hphase, if_pos rfl] at hph'
        cases hph'
      · exact Bool.noConfusion (hb.symm.trans (hfar p' hin'))
      · omega

/-! ## Runs -/

/-- The row of an active message stays open, as long as it stays active. -/
theorem open_kept (hr : Reach (cluster site) conclusive c) (hok : conclusive c l)
    (hst : Step site c l c') (hinv : c.Conclusive id) (h : c.world.Open id) (hact : c'.Active id) :
    c'.world.Open id := by
  -- who records anything but a deferral leaves nobody active
  have hquiet : ∀ p st kind provider detail r f,
      l = .op p (.write (.recordAttempt id st kind provider detail)) r f → f.applied = true →
        st = .deferred := by
    rintro p st kind provider detail r f rfl hf
    obtain ⟨hin, hrec⟩ := hst.recorder hr
    cases hrec with
    | attempt ht hph hs =>
      rcases hs with rfl | rfl
      · exact absurd hact (recorded_alone hr hinv hst hf ht (.inl hph) (.inl rfl)).1
      · rfl
    | close ht hph hs =>
      subst hs
      exact absurd hact (recorded_alone hr hinv hst hf ht (.inr hph) (.inr rfl)).1
    | note ht hph hs =>
      have hzero := hinv.apart p hin ht
      have hpos := hact.pos
      rcases hst.stakes hr hok id with hle | ⟨-, hno⟩
      · have := hle false
        omega
      · obtain ⟨p', hin', htask⟩ : ∃ p' ∈ c'.procs, p'.task = p.task := by
          cases hst with
          | op hp hk hx => exact ⟨_, Multiset.mem_cons_self _ _, rfl⟩
        have hb := hno p' hin'
        rw [htask, ht] at hb
        cases hb
  constructor
  · intro hrec
    rcases hst.recorded_cases hrec with hold | ⟨p, kind, provider, detail, r, f, hl, hf⟩
    · exact h.notFailed hold
    · cases hquiet p _ kind provider detail r f hl hf
  · intro row' hrow'
    rcases hst.row_cases hrow' with hold | ⟨_, _, _, _, _, _, _, -, -, rfl⟩ |
      ⟨p, st, kind, provider, detail, r, f, row, hl, hf, -, rfl⟩
    · exact h.live row' hold
    · rfl
    · rw [hquiet p st kind provider detail r f hl hf]
      rfl

/-- **The invariant holds in every run that meets the condition.** -/
theorem conclusive_inv (h : Reach (cluster site) conclusive c) (id : MsgId) : c.Conclusive id := by
  refine h.invariant (I := fun c => c.Conclusive id) ?_ ?_
  · rintro c rfl
    refine ⟨Nat.zero_le _, fun p hp => absurd hp (Multiset.notMem_zero p), fun ha => ?_,
      fun _ => nofun, fun hf => absurd hf List.not_mem_nil⟩
    exact absurd ha.pos (Nat.lt_irrefl 0)
  · intro c l c' hr ih hok hst
    have hkeys := keyed hr
    have hone : c'.stake id true ≤ 1 := by
      rcases hst.stakes hr hok id with hle | ⟨hle, -⟩
      · exact (hle true).trans ih.one
      · exact hle true
    constructor
    · exact hone
    · -- a generator that just started took the one stake past the DLQ
      intro p' hin' hb
      rcases hst.stakes hr hok id with hle | ⟨-, hno⟩
      · rcases hst.task_cases hin' with ⟨p, hin, htask⟩ | ⟨hl, -⟩
        · have := hle false
          have := ih.apart p hin (htask ▸ hb)
          omega
        · subst hl
          cases hst with
          | start t hd =>
            have hlaunch := Cluster.stake_bounce (p := p'.task.launch site)
              (c := ⟨c.world.starting p'.task, p'.task.launch site ::ₘ c.procs⟩)
              (Multiset.mem_cons_self _ _) hb
              (by cases ht : p'.task <;> first | exact Option.some_ne_none _ | (rw [ht] at hb; cases hb))
              nofun
            omega
      · rw [hno p' hin'] at hb
        cases hb
    · intro hact
      refine open_kept hr hok hst ih ?_ hact
      rcases hact.back hr hok hst with hold | hid | hl
      · exact ih.active hold
      · exact ⟨fun hrec => hid (recorded_drawn hr hrec),
          fun row hrow => absurd (hkeys.world.rows hrow).2 hid⟩
      · exact ih.open_of_live hl
    · intro hpart row' hrow' hrel
      have hun : c.world.Unrelayed id := by
        rcases hpart.back hr hst with hold | hact
        · exact ih.parted hold
        · exact (ih.active hact).unrelayed
      rcases hst.row_cases hrow' with hold | ⟨_, _, _, _, _, _, _, -, -, rfl⟩ |
        ⟨p, st, kind, provider, detail, r, f, row, rfl, hf, -, rfl⟩
      · exact hun row' hold hrel
      · cases hrel
      · subst hrel
        obtain ⟨hin, hrec⟩ := hst.recorder hr
        cases hrec with
        | attempt _ _ hs' => rcases hs' with h | h <;> cases h
        | close ht hph =>
          exact (recorded_alone hr ih hst hf ht (.inr hph) (.inr rfl)).2 rfl hpart
        | note _ _ hs' => cases hs'
    · intro hrec row' hrow'
      rcases hst.recorded_cases hrec with hold | ⟨p, kind, provider, detail, r, f, rfl, hf⟩
      · -- what was given up before is not active, so only the bounce generator writes
        have hdead : ¬ c.Active id := fun ha => (ih.active ha).notFailed hold
        rcases hst.row_cases hrow' with hrow | ⟨p, env, ref, info, logged, r, f, rfl, hf, -⟩ |
          ⟨p, st, kind, provider, detail, r, f, row, rfl, hf, -, rfl⟩
        · exact ih.failed hold row' hrow
        · obtain ⟨hin, hph, -⟩ := hst.inserter hr
          exact absurd (.coming hin (Phase.pending_of_stored hph)) hdead
        · obtain ⟨hin, hwho⟩ := hst.recorder hr
          cases hwho with
          | attempt ht hph | close ht hph =>
            cases hst with
            | op hp hk hx =>
              refine absurd (Recorder.active hr hin hk ht ?_) hdead
              first | exact .inl hph | exact .inr hph
          | note _ _ hst' => exact .inr hst'
      · exact .inl (hst.recorded_row hf hrow')

/-- **Terminal statuses are final.**  After every run that meets the condition, whatever fails and
    is redelivered, the next step that meets it leaves a relayed or bounced row with its status; and
    the row of a message that was ever recorded as failed is failed or bounced. -/
theorem terminal_statuses_final (h : Reach (cluster site) conclusive c) (hok : conclusive c l)
    (hst : Step site c l c') {row row' : Row} (hrow : c.world.rows id = some row)
    (hrow' : c'.world.rows id = some row') :
    (row.status = .relayed ∨ row.status = .bounced → row'.status = row.status) ∧
      (.recorded id .failed ∈ c'.world.log → row'.status = .failed ∨ row'.status = .bounced) := by
  have hinv := conclusive_inv h id
  constructor
  · intro hclosed
    -- a closed row is not open, so no worker and no producer of the message is active
    have hdead : ¬ c.Active id := by
      intro ha
      have hl := (hinv.active ha).live row hrow
      rcases hclosed with hs | hs <;> (rw [hs] at hl; cases hl)
    rcases hst.row_cases hrow' with hold | ⟨p, env, ref, info, logged, r, f, rfl, hf, -⟩ |
      ⟨p, st, kind, provider, detail, r, f, row₀, rfl, hf, -, rfl⟩
    · cases hrow.symm.trans hold
      rfl
    · obtain ⟨hin, hph, -⟩ := hst.inserter h
      exact absurd (.coming hin (Phase.pending_of_stored hph)) hdead
    · obtain ⟨hin, hwho⟩ := hst.recorder h
      cases hwho with
      | attempt ht hph | close ht hph =>
        cases hst with
        | op hp hk hx =>
          refine absurd (Recorder.active h hin hk ht ?_) hdead
          first | exact .inl hph | exact .inr hph
      | note ht _ hb =>
        rcases hclosed with hrel | hbnc
        · exact absurd hrel (hinv.parted (.bouncing hin ht) row hrow)
        · rw [hbnc]
          exact hb
  · intro hrec
    exact (conclusive_inv (.step h hok hst) id).failed hrec row' hrow'

end

/-! ## A delivery, and a failed one -/

/-- The entry says that a message was given up. -/
def Event.givesUp : Event → Bool
  | .recorded _ .failed => true
  | _ => false

/-- No message was given up, and no operator is at work. -/
def Stage.steady (s : Stage) : Bool :=
  s.world.log.all (fun e => !e.givesUp) &&
    s.procs.all fun p => match p.task with
      | .requeue _ => false
      | _ => true

theorem Stage.steady_conclusive {s : Stage} {l : Label} {c' : Cluster} {site : Site}
    (h : s.steady = true) (hcalm : calm s.cluster l) (hst : Step site s.cluster l c') :
    conclusive s.cluster l := by
  obtain ⟨hlog, hprocs⟩ := Bool.and_eq_true_iff.mp h
  cases l with
  | op p o r f =>
    have hin : p ∈ s.cluster.procs := by
      cases hst with
      | op hp hk hx => exact hp ▸ Multiset.mem_cons_self _ _
    have htask := List.all_eq_true.mp hprocs p (Multiset.mem_coe.mp hin)
    cases o with
    | write wr =>
      cases wr with
      | publish q j =>
        refine .inr fun j' _ hrec => ?_
        have hno := List.all_eq_true.mp hlog _ hrec
        cases hno
      | publishRelayJob j =>
        intro _ ht
        rw [ht] at htask
        cases htask
      | _ => trivial
    | _ => trivial
  | lose | crash => exact hcalm.elim
  | start | finish | expire | tick => trivial

/-- A message is submitted, and a worker delivers it and records that. -/
def relayedScript : List Cue :=
  [.start (.submit oneRecipient [])] ++ Cue.calls 0 "m1" 7 ++
    [.start (.deliver (.job (Ingress.relayJob oneRecipient "m1")))] ++ Cue.calls 0 "" 8

/-- The row of a delivered message is relayed, and the next step leaves it so. -/
theorem terminal_statuses_final_relayed : ∃ c : Cluster, ∃ row : Row,
    c.world.rows "m1" = some row ∧ row.status = .relayed ∧
      (row.status = .relayed ∨ row.status = .bounced → row.status = row.status) ∧
        (.recorded "m1" .failed ∈ c.world.log → row.status = .failed ∨ row.status = .bounced) := by
  have hplay : (Stage.passing (plainSite anyReply) deliveringOracle Stage.steady {}
      relayedScript).any (fun s => (s.world.rows "m1").any (·.status = .relayed)) = true := by decide
  obtain ⟨s, hs, hend⟩ := (Option.any_eq_true _ _).mp hplay
  obtain ⟨row, hrow, hrel⟩ := (Option.any_eq_true _ _).mp hend
  have hr : Reach (cluster (plainSite anyReply)) conclusive s.cluster := by
    refine Stage.passing_reach (fun q hq s l c' hsteady hst hl => ?_) Stage.empty_reach hs
    have hcalm : ∀ q ∈ relayedScript, q.isCalm = true := by decide
    exact Stage.steady_conclusive hsteady (Cue.calm_of_labels (hcalm q hq) hl) hst
  exact ⟨s.cluster, row, hrow, of_decide_eq_true hrel,
    terminal_statuses_final (l := .tick 0) hr trivial (.tick 0) hrow hrow⟩

/-- A provider that refuses a message for good, and takes it when it is tried again. -/
def waveringOracle : Oracle anyReply := fun w q =>
  match q with
  | .send _ _ =>
    if w.log.any Event.givesUp then ⟨{ outcome := .delivered, detail := "250 ok" }, trivial⟩
    else ⟨{ outcome := .fail, detail := "550 no such user" }, trivial⟩
  | q => deliveringOracle w q

/-- A worker records `failed` and cannot publish to the DLQ; the delivery it nacks is taken by
    another worker, which delivers the message. -/
def revivedScript : List Cue :=
  [.start (.submit oneRecipient [])] ++ Cue.calls 0 "m1" 7 ++
    [.start (.deliver (.job (Ingress.relayJob oneRecipient "m1")))] ++ Cue.calls 0 "" 8 ++
    [.call 0 { fate := .failed }] ++ Cue.calls 0 "" 2 ++
    [.start (.deliver (.job (Ingress.relayJob oneRecipient "m1")))] ++ Cue.calls 0 "" 8

/-- A failed row becomes relayed, although nothing was requeued and no process died. -/
theorem failed_row_revived :
    ¬ ∀ (site : Site) (c c' : Cluster) (l : Label) (id : MsgId) (row row' : Row),
      Reach (cluster site) anyStep c → Step site c l c' → c.world.rows id = some row →
        c'.world.rows id = some row' →
          (row.status = .relayed ∨ row.status = .bounced → row'.status = row.status) ∧
            (.recorded id .failed ∈ c'.world.log →
              row'.status = .failed ∨ row'.status = .bounced) := by
  intro hclaim
  have hplay : (Stage.script (plainSite anyReply) waveringOracle {} revivedScript).any
      (fun s => .recorded "m1" .failed ∈ s.world.log ∧
        (s.world.rows "m1").any (·.status = .relayed) = true) = true := by decide
  obtain ⟨s, hs, hend⟩ := (Option.any_eq_true _ _).mp hplay
  obtain ⟨hfailed, hrow⟩ := of_decide_eq_true hend
  obtain ⟨row, hrow, hrel⟩ := (Option.any_eq_true _ _).mp hrow
  have hr : Reach (cluster (plainSite anyReply)) anyStep s.cluster :=
    (Stage.script_calm (by decide) hs).mono fun _ _ _ => trivial
  rcases (hclaim _ s.cluster _ (.tick 0) "m1" row row hr (.tick 0) hrow hrow).2 hfailed with h | h
  · cases h.symm.trans (of_decide_eq_true hrel)
  · cases h.symm.trans (of_decide_eq_true hrel)

end Novamail

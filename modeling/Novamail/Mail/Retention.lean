/-
  The retention sweep and the messages it must not touch.

  The sweep reads the active body refs once, lists the store afterwards, and deletes what is listed
  and was not active.  A submission stores its body first and inserts its row later, so a body can
  be listed while its message is on the way in, and a row that was terminal when the refs were read
  can be deferred again.  `unhurried` is the condition under which nothing of this falls between
  the query and the deletes; under it, what a sweep may still delete is wanted by nobody.
-/
import Novamail.System.Origins
import Novamail.System.Play

namespace Novamail

open Novamail.Core

/-! ## The condition -/

/-- The sweep has read the active refs and has not yet listed the store. -/
def Phase.lists : Phase → Bool
  | .queried _ => true
  | _ => false

/-- The sweep has read the active refs. -/
def Phase.sweeps : Phase → Bool
  | .queried _ | .swept _ _ => true
  | _ => false

/-- **The condition.**  The active refs are read only when every message that is being brought in
    and has its body stored has its row, too.  No body is stored between the query of a sweep and
    its listing.  No row is made live again while a sweep is past its query. -/
def unhurried (c : Cluster) : Label → Prop
  | .op _ (.ask .activeBodyRefs) _ _ => ∀ p ∈ c.procs, ∀ k, p.phase.pending = some k →
      (c.world.bodies k).isSome = true → c.world.live k = true
  | .op _ (.write (.put _ _)) _ f => f.applied = true → ∀ p ∈ c.procs, p.phase.lists = false
  | .op _ (.write (.insertBody _ _)) _ f =>
      f.applied = true → ∀ p ∈ c.procs, p.phase.lists = false
  | .op _ (.write (.recordAttempt id st _ _ _)) _ f => f.applied = true → st.live = true →
      c.world.live id = true ∨ ∀ p ∈ c.procs, p.phase.sweeps = false
  | _ => True

/-- The step records a message as deferred. -/
def Label.defers (id : MsgId) : Label → Prop
  | .op _ (.write (.recordAttempt i st _ _ _)) _ f => i = id ∧ f.applied = true ∧ st.live = true
  | _ => False

/-! ## What a sweep may still delete -/

/-- Nobody wants the body: no live row is under its key, and no message with its key is being
    brought in. -/
structure Cluster.Unwanted (c : Cluster) (k : String) : Prop where
  dead : c.world.live k = false
  absent : ∀ p ∈ c.procs, p.phase.pending ≠ some k

/-- What a sweep in this phase may still delete is unwanted, and its id was drawn. -/
structure Cluster.Spared (c : Cluster) (ph : Phase) : Prop where
  stored : ∀ active, ph = .queried active → ∀ k, k ∉ active → (c.world.bodies k).isSome = true →
    c.Unwanted k
  listed : ∀ active listing, ph = .swept active listing → ∀ k ∈ listing, k ∉ active →
    c.Unwanted k ∧ k ∈ c.world.ids

/-! ## Steps -/

section
variable {site : Site} {ok : Cluster → Label → Prop} {c c' : Cluster} {l : Label} {k : String}

/-- No step makes a body wanted, unless it defers a message whose row was terminal. -/
theorem Cluster.Unwanted.step (hr : Reach (cluster site) ok c) (hst : Step site c l c')
    (hk : k ∈ c.world.ids)
    (hrev : l.defers k → c.world.live k = true) (h : c.Unwanted k) : c'.Unwanted k := by
  have hproc : ∀ {p : Proc}, p ∈ c.procs → p.phase.pending ≠ some k := fun hp => h.absent _ hp
  cases hst with
  | start t ht =>
    refine ⟨h.dead, fun p hp => ?_⟩
    rcases Multiset.mem_cons.mp hp with rfl | hp
    · exact (Option.some_ne_none k).symm
    · exact hproc hp
  | @op p ps o kont r f n hp hprog hx =>
    have hin : p ∈ c.procs := hp ▸ Multiset.mem_cons_self _ _
    have hturn := (procs_ok hr p hin).turn_to hprog hx
    refine ⟨Bool.eq_false_iff.mpr fun hl => ?_, fun p' hp' => ?_⟩
    · rcases hx.live_cases hl with hl | ⟨hf, wr, rfl, hrv⟩
      · exact Bool.noConfusion (h.dead.symm.trans hl)
      · have hph := hproc hin
        generalize p.phase = ph at hturn hph
        generalize n.phase = ph' at hturn
        cases hturn with
        | insert => exact hph (congrArg some (of_decide_eq_true hrv))
        | attempt | close | note =>
          obtain ⟨hid, hlive⟩ := Bool.and_eq_true_iff.mp hrv
          have hl := hrev ⟨of_decide_eq_true hid, hf, hlive⟩
          exact Bool.noConfusion (h.dead.symm.trans hl)
        | _ => cases hrv
    · rcases Multiset.mem_cons.mp hp' with rfl | hp'
      · intro hpend
        rcases hx.pending_cases hturn hpend with hpend | hnew
        · exact hproc hin hpend
        · exact hnew hk
      · exact hproc (hp ▸ Multiset.mem_cons_of_mem hp')
  | finish hp hprog => exact ⟨h.dead, fun p' hp' => hproc (hp ▸ Multiset.mem_cons_of_mem hp')⟩
  | expire | tick => exact ⟨h.dead, fun p' hp' => hproc hp'⟩
  | @lose p ps hp hh =>
    refine ⟨h.dead, fun p' hp' => ?_⟩
    rcases Multiset.mem_cons.mp hp' with rfl | hp'
    · exact hproc (p := p) (hp ▸ Multiset.mem_cons_self _ _)
    · exact hproc (hp ▸ Multiset.mem_cons_of_mem hp')
  | crash hp => exact ⟨h.dead, fun p' hp' => hproc (hp ▸ Multiset.mem_cons_of_mem hp')⟩

/-- What a sweep may still delete stays unwanted while anybody takes a step. -/
theorem Cluster.Spared.step {p : Proc} (hr : Reach (cluster site) unhurried c)
    (hguard : unhurried c l) (hst : Step site c l c') (hin : p ∈ c.procs)
    (h : c.Spared p.phase) : c'.Spared p.phase := by
  have hrev : p.phase.sweeps = true → ∀ id, l.defers id → c.world.live id = true := by
    intro hs id hd
    unfold Label.defers at hd
    split at hd
    · obtain ⟨rfl, hf, hlive⟩ := hd
      rcases hguard hf hlive with hl | hnone
      · exact hl
      · exact Bool.noConfusion (hs.symm.trans (hnone p hin))
    · exact hd.elim
  have hkeyed := keyed hr
  refine ⟨fun active hph k hk hb => ?_, fun active listing hph k hkl hk => ?_⟩
  · rcases hst.body_cases hb with hb | ⟨p', wr, r, f, rfl, hf, b, rfl | rfl⟩
    · refine (h.stored active hph k hk hb).step hr hst (hkeyed.world.bodies hb) (hrev ?_ k)
      rw [hph]
      rfl
    · have hno := hguard hf p hin
      rw [hph] at hno
      cases hno
    · have hno := hguard hf p hin
      rw [hph] at hno
      cases hno
  · obtain ⟨hun, hids⟩ := h.listed active listing hph k hkl hk
    refine ⟨hun.step hr hst hids (hrev ?_ k), hst.ids_subset hids⟩
    rw [hph]
    rfl

/-- The query of a sweep, and its listing, find out what it may delete. -/
theorem Exec.spared {t : Task} {p : Proc} {o : Op} {r : o.Ret} {f : Fate} {n : Conf}
    {held : Option (Queue × Wire)} {ph ph' : Phase} (hr : Reach (cluster site) unhurried c)
    (hguard : unhurried c (.op p o r f)) (hst : Step site c (.op p o r f) c')
    (hx : Exec site.net t ⟨c.world, held, ph⟩ o r f n) (hworld : c'.world = n.world)
    (hturn : Turn t ph o r ph') (h : c.Spared ph) (hkeep : ph' = ph → c'.Spared ph') :
    c'.Spared ph' := by
  have hkeyed := keyed hr
  have hvoid : ph'.sweeps = false → c'.Spared ph' := by
    intro hs
    refine ⟨?_, ?_⟩
    · rintro active rfl
      cases hs
    · rintro active listing rfl
      cases hs
  cases hturn with
  | read | undelivered | relayed | bounced | unsent | orphan | suppress | prune | announce
  | attempt => exact hkeep rfl
  | @queried active ht =>
    refine ⟨fun active' hph k hk hb => ?_, nofun⟩
    cases hph
    cases hx with
    | ask hans =>
      have hb : (c.world.bodies k).isSome = true := by
        rw [hworld] at hb
        exact hb
      have hdead : c.world.live k = false := by
        refine Bool.eq_false_iff.mpr fun hl => hk ?_
        obtain ⟨row, hrow, hlive⟩ := (Option.any_eq_true _ _).mp hl
        exact (hans _ rfl k).mpr ⟨k, row, hrow, hlive, (hkeyed.world.rows hrow).1⟩
      have hun : c.Unwanted k := by
        refine ⟨hdead, fun p' hp' hpend => ?_⟩
        exact Bool.noConfusion (hdead.symm.trans (hguard p' hp' k hpend hb))
      exact hun.step hr hst (hkeyed.world.bodies hb) False.elim
  | @swept active listing ht =>
    refine ⟨nofun, fun active' listing' hph k hkl hk => ?_⟩
    cases hph
    cases hx with
    | ask hans =>
      have hb := hans.1 k hkl
      have hids := hkeyed.world.bodies hb
      exact ⟨(h.stored active rfl k hk hb).step hr hst hids False.elim, hst.ids_subset hids⟩
  | put | insertBody | insert | successor | submission | dsn | alert =>
    refine hvoid ?_
    split <;> rfl
  | _ => exact hvoid rfl

/-! ## Runs -/

/-- **What a sweep may still delete is unwanted**, in every run that meets the condition. -/
theorem spared (h : Reach (cluster site) unhurried c) : ∀ p ∈ c.procs, c.Spared p.phase := by
  refine h.invariant (I := fun c => ∀ p ∈ c.procs, c.Spared p.phase) ?_ ?_
  · rintro c rfl p hp
    exact absurd hp (Multiset.notMem_zero p)
  · intro c l c' hr ih hguard hst
    have hkeep : ∀ p ∈ c.procs, c'.Spared p.phase :=
      fun p hp => (ih p hp).step hr hguard hst hp
    intro p' hp'
    cases hst with
    | start t ht =>
      rcases Multiset.mem_cons.mp hp' with rfl | hp'
      · exact ⟨nofun, nofun⟩
      · exact hkeep p' hp'
    | @op p ps o kont r f n hp hprog hx =>
      have hin : p ∈ c.procs := hp ▸ Multiset.mem_cons_self _ _
      rcases Multiset.mem_cons.mp hp' with rfl | hp'
      · have hturn := (procs_ok hr p hin).turn_to hprog hx
        refine hx.spared hr hguard (.op hp hprog hx) rfl hturn (ih p hin) fun he => ?_
        have hold := hkeep p hin
        rw [← he] at hold
        exact hold
      · exact hkeep p' (hp ▸ Multiset.mem_cons_of_mem hp')
    | finish hp hprog => exact hkeep p' (hp ▸ Multiset.mem_cons_of_mem hp')
    | expire | tick => exact hkeep p' hp'
    | @lose p ps hp hh =>
      rcases Multiset.mem_cons.mp hp' with rfl | hp'
      · exact hkeep p (hp ▸ Multiset.mem_cons_self _ _)
      · exact hkeep p' (hp ▸ Multiset.mem_cons_of_mem hp')
    | crash hp => exact hkeep p' (hp ▸ Multiset.mem_cons_of_mem hp')

/-- **The sweep deletes what nobody wants.**  In every run that meets the condition, whoever else
    is running and whatever breaks: when a sweep deletes a body, no queued or deferred row refers
    to it, and no message with this key is between the draw of its id and its publish. -/
theorem sweep_spares_wanted {p : Proc} {r : Bool} {f : Fate}
    (h : Reach (cluster site) unhurried c)
    (hst : Step site c (.op p (.write (.delete k)) r f) c') (hp : p.task = .sweep) :
    (∀ id row, c.world.rows id = some row → row.status.live = true → row.bodyRef.key ≠ k) ∧
      ∀ p' ∈ c.procs, p'.phase.pending ≠ some k := by
  have hkeyed := keyed h
  obtain ⟨hin, hturn⟩ := hst.turn h
  have hspared := spared h p hin
  have hun : c.Unwanted k := by
    generalize p.phase.next (.write (.delete k)) r = ph' at hturn
    generalize p.phase = ph at hturn hspared
    rw [hp] at hturn
    cases hturn with
    | orphan ht hl ha => exact (hspared.listed _ _ rfl k hl ha).1
    | oversized ht => cases ht
    | relayed ht | bounced ht | unsent ht => cases ht
  refine ⟨?_, hun.absent⟩
  rintro id row hrow hlive rfl
  have hlive : c.world.live id = true := (Option.any_eq_true _ _).mpr ⟨row, hrow, hlive⟩
  rw [← (hkeyed.world.rows hrow).1] at hlive
  exact Bool.noConfusion (hun.dead.symm.trans hlive)

/-! ## Who can be in which phase -/

/-- Only a producer brings a message in, and only a sweep is past the query of one. -/
structure Phase.InRole (ph : Phase) (t : Task) : Prop where
  pending : ∀ id, ph.pending = some id → t.produces = true
  sweeps : ph.sweeps = true → t = .sweep

theorem Turn.in_role {t : Task} {ph ph' : Phase} {o : Op} {r : o.Ret} (h : Turn t ph o r ph')
    (hin : ph.InRole t) : ph'.InRole t := by
  cases h with
  | read | undelivered | relayed | bounced | unsent | orphan | suppress | prune | announce
  | attempt => exact hin
  | queried ht | swept ht => exact ⟨nofun, fun _ => ht⟩
  | draw ht => exact ⟨fun _ _ => ht, nofun⟩
  | redraw ht => exact ⟨fun _ _ => ht ▸ rfl, nofun⟩
  | put ht | insertBody ht | insert ht =>
    split
    · exact ⟨fun _ _ => ht, nofun⟩
    · exact ⟨nofun, nofun⟩
  | successor | submission | dsn | alert => split <;> exact ⟨nofun, nofun⟩
  | _ => exact ⟨nofun, nofun⟩

theorem in_role (h : Reach (cluster site) ok c) : ∀ p ∈ c.procs, p.phase.InRole p.task :=
  procs_invariant (Q := fun _ p => p.phase.InRole p.task) (fun _ _ _ _ hq => hq)
    (fun _ _ _ => ⟨nofun, nofun⟩)
    (fun hr _ hin hk hx hq => ((procs_ok hr _ hin).turn_to hk hx).in_role hq)
    (fun _ _ _ hq => hq) h

end

/-! ## Tasks that meet the condition -/

/-- The task is a sweep. -/
def Task.cleans : Task → Bool
  | .sweep => true
  | _ => false

theorem Task.cleans_iff {t : Task} : t.cleans = true ↔ t = .sweep := by
  cases t <;> simp [cleans]

/-- Without a sweep every step is unhurried. -/
theorem unhurried_of_none {site : Site} {ok : Cluster → Label → Prop} {c c' : Cluster} {l : Label}
    (hall : ∀ p ∈ c.procs, p.task.cleans = false) (hr : Reach (cluster site) ok c)
    (hst : Step site c l c') : unhurried c l := by
  have hno : ∀ p ∈ c.procs, p.phase.sweeps = false := by
    intro p hp
    refine Bool.eq_false_iff.mpr fun hs => ?_
    have hsweep := Task.cleans_iff.mpr ((in_role hr p hp).sweeps hs)
    exact Bool.noConfusion (hsweep.symm.trans (hall p hp))
  have hlists : ∀ p ∈ c.procs, p.phase.lists = false := by
    intro p hp
    have hs := hno p hp
    generalize p.phase = ph at hs ⊢
    cases ph <;> first | rfl | cases hs
  cases l with
  | op p o r f =>
    cases o with
    | write wr =>
      cases wr with
      | put | insertBody => exact fun _ => hlists
      | recordAttempt => exact fun _ _ => .inr hno
      | _ => trivial
    | ask q =>
      cases q with
      | activeBodyRefs =>
        cases hst with
        | op hp hk hx =>
          have hin : p ∈ c.procs := hp ▸ Multiset.mem_cons_self _ _
          have hob := (procs_ok hr p hin).obeys
          rw [hk] at hob
          have hsweep := Task.cleans_iff.mpr hob.1.2
          exact Bool.noConfusion (hsweep.symm.trans (hall p hin))
      | _ => trivial
    | _ => trivial
  | _ => trivial

/-- With nothing but sweeps every step is unhurried. -/
theorem unhurried_of_sweeps {site : Site} {ok : Cluster → Label → Prop} {c c' : Cluster}
    {l : Label} (hall : ∀ p ∈ c.procs, p.task = .sweep) (hr : Reach (cluster site) ok c)
    (hst : Step site c l c') : unhurried c l := by
  cases l with
  | op p o r f =>
    obtain ⟨hin, hturn⟩ := hst.turn hr
    have hsweep := hall p hin
    generalize p.phase.next o r = ph' at hturn
    generalize p.phase = ph at hturn
    rw [hsweep] at hturn
    cases o with
    | write wr =>
      cases wr with
      | put => cases hturn with
        | put ht => cases ht
      | insertBody => cases hturn with
        | insertBody ht => cases ht
      | recordAttempt => cases hturn with
        | attempt ht | close ht | note ht => cases ht
      | _ => trivial
    | ask q =>
      cases q with
      | activeBodyRefs =>
        intro p' hp' k hpend
        have hprod := (in_role hr p' hp').pending k hpend
        rw [hall p' hp'] at hprod
        cases hprod
      | _ => trivial
    | _ => trivial
  | _ => trivial

/-! ## Two sweeps -/

/-- The body the task is about to delete. -/
def Proc.deletes (p : Proc) : Option String :=
  match p.prog with
  | .call (.write (.delete k)) _ => some k
  | _ => none

/-- A stage on which a sweep is about to delete this body. -/
def Stage.sweeping (s : Stage) (k : String) : Bool :=
  s.procs.any fun p => p.task.cleans && p.deletes == some k

theorem Stage.sweeping.step (site : Site) {s : Stage} {k : String} (h : s.sweeping k = true) :
    ∃ p r f c', p.task = .sweep ∧ Step site s.cluster (.op p (.write (.delete k)) r f) c' := by
  obtain ⟨p, hp, hcl⟩ := List.any_eq_true.mp h
  obtain ⟨ht, hd⟩ := Bool.and_eq_true_iff.mp hcl
  have hd := eq_of_beq hd
  obtain ⟨ps, hps⟩ := Multiset.exists_cons_of_mem (s := s.cluster.procs) hp
  unfold Proc.deletes at hd
  split at hd
  · rename_i kont hk
    cases hd
    have hx : Exec site.net p.task (p.conf s.world) (.write (.delete k)) Fate.ok.reported .ok _ :=
      .write rfl
    exact ⟨p, _, _, _, Task.cleans_iff.mp ht, .op hps hk hx⟩
  · cases hd

/-- A submission whose insert fails: its body stays behind. -/
def abandonedScript : List Cue :=
  [.start (.submit (envelopeSession "a@s.test" ["b@r.test"]) [])] ++ Cue.calls 0 "m1" 3 ++
    [.call 0 { fate := .failed }] ++ Cue.calls 0 "" 2

/-- A sweep up to its first delete. -/
def sweepScript : List Cue := [.start .sweep] ++ Cue.calls 0 "" 2 ++ [.refs 0, .call 0 {}]

/-- The sweep deletes the body that was left behind. -/
theorem sweep_spares_wanted_abandoned : ∃ c : Cluster,
    (∃ p r f c', p.task = .sweep ∧
      Step (plainSite anyReply) c (.op p (.write (.delete "m1")) r f) c') ∧
      (∀ id row, c.world.rows id = some row → row.status.live = true → row.bodyRef.key ≠ "m1") ∧
        ∀ p' ∈ c.procs, p'.phase.pending ≠ some "m1" := by
  have hplay : (Stage.script (plainSite anyReply) deliveringOracle {} abandonedScript).any (fun s =>
      s.procs.isEmpty ∧ (s.script (plainSite anyReply) deliveringOracle sweepScript).any
        (fun s' => s'.sweeping "m1") = true) = true := by decide
  obtain ⟨s, hs, hend⟩ := (Option.any_eq_true _ _).mp hplay
  obtain ⟨hempty, hsweep⟩ := of_decide_eq_true hend
  obtain ⟨s', hs', hdel⟩ := (Option.any_eq_true _ _).mp hsweep
  have hempty := List.isEmpty_iff.mp hempty
  have hr : Reach (cluster (plainSite anyReply)) unhurried s.cluster := by
    refine Stage.script_reach (fun t => !t.cleans) (by decide) (fun q _ s l c' hall hr hst _ _ => ?_)
      Stage.empty_reach (fun p hp => absurd hp List.not_mem_nil) hs
    exact unhurried_of_none (fun p hp => Bool.not_eq_true' _ ▸ hall p hp) hr hst
  have hr' : Reach (cluster (plainSite anyReply)) unhurried s'.cluster := by
    refine Stage.script_reach Task.cleans (by decide) (fun q _ s l c' hall hr hst _ _ => ?_) hr
      (fun p hp => absurd (hempty ▸ hp) List.not_mem_nil) hs'
    exact unhurried_of_sweeps (fun p hp => Task.cleans_iff.mp (hall p hp)) hr hst
  obtain ⟨p, r, f, c', ht, hst⟩ := Stage.sweeping.step (plainSite anyReply) hdel
  exact ⟨s'.cluster, ⟨p, r, f, c', ht, hst⟩, sweep_spares_wanted hr' hst ht⟩

/-- A submission stores its body before the sweep reads the active refs, and inserts its row and
    publishes its job before the sweep lists the store. -/
def overtakenScript : List Cue :=
  [.start (.submit (envelopeSession "a@s.test" ["b@r.test"]) [])] ++ Cue.calls 0 "m1" 3 ++
    [.start .sweep] ++ Cue.calls 0 "" 2 ++ [.refs 0] ++ Cue.calls 1 "" 4 ++ [.call 0 {}]

/-- The sweep deletes the body of a message that was accepted and is queued. -/
theorem sweep_deletes_accepted :
    ¬ ∀ (site : Site) (c c' : Cluster) (p : Proc) (k : String) (r : Bool) (f : Fate),
      Reach (cluster site) calm c → Step site c (.op p (.write (.delete k)) r f) c' →
        p.task = .sweep →
          (∀ id row, c.world.rows id = some row → row.status.live = true →
            row.bodyRef.key ≠ k) ∧ ∀ p' ∈ c.procs, p'.phase.pending ≠ some k := by
  intro hclaim
  have hplay : (Stage.script (plainSite anyReply) deliveringOracle {} overtakenScript).any
      (fun s => s.sweeping "m1" ∧ s.world.live "m1" = true ∧ .accepted "m1" ∈ s.world.log) =
        true := by decide
  obtain ⟨s, hs, hend⟩ := (Option.any_eq_true _ _).mp hplay
  obtain ⟨hsweep, hlive, -⟩ := of_decide_eq_true hend
  obtain ⟨p, r, f, c', ht, hst⟩ := Stage.sweeping.step (plainSite anyReply) hsweep
  have hr : Reach (cluster (plainSite anyReply)) calm s.cluster := Stage.script_calm (by decide) hs
  obtain ⟨row, hrow, hl⟩ := (Option.any_eq_true _ _).mp hlive
  have hkey := ((keyed hr).world.rows hrow).1
  exact (hclaim _ _ _ p "m1" r f hr hst ht).1 "m1" row hrow hl hkey

end Novamail

/-
  The body of a message is there for as long as somebody has to send it.

  It is not, in general: a requeue gives the message a second job while the first may already be on
  its way to the delete, and a worker that dies between its delete, or the publish of a successor,
  and its ack leaves a job behind whose body is or will be gone.  `careful` is the condition under
  which none of this happens, step by step, and under it `Custody` is an invariant.
-/
import Novamail.System.Custody
import Novamail.System.Play

namespace Novamail

open Novamail.Core

/-! ## The condition -/

/-- Nothing of the message is under way: it has no job, nobody holds one or generates its bounce,
    and it is not being brought in. -/
structure Cluster.Settled (c : Cluster) (id : MsgId) : Prop where
  jobs : ∀ q j, (q, .job j) ∈ c.world.bus → j.messageID ≠ id
  procs : ∀ p ∈ c.procs, p.task.carries id = true → p.held = none ∧ p.task.bounces id = false
  pending : ∀ p ∈ c.procs, p.phase.pending ≠ some id

/-- The delivery may go back to the broker: a worker has not published the job's successor, and if
    it has sent the message, the body is still stored. -/
def Proc.MayBreak (p : Proc) (w : World) : Prop :=
  p.held ≠ none → p.phase ≠ .moved ∧
    ∀ j, p.task = .deliver (.job j) → p.phase.unsent = false →
      (w.bodies j.bodyRef.key).isSome = true

/-- **The condition.**  There is no sweep.  A successor is not handed out before the job is acked.
    A requeue publishes only a settled message whose body is stored.  A worker whose delivery was
    taken back neither deletes the body nor publishes a successor while the message is under way.
    No worker dies, or loses its connection, after it has published a successor, or after its
    delete took effect. -/
def careful (c : Cluster) : Label → Prop
  | .start t => t ≠ .sweep ∧ ∀ id, t.carries id = true →
      ∀ p ∈ c.procs, p.task.carries id = true → p.held ≠ none → p.phase ≠ .moved
  | .op p (.write (.delete _)) _ f => f.applied = true → ∀ j, p.task = .deliver (.job j) →
      p.held ≠ none ∨ c.Settled j.messageID
  | .op p (.write (.publish _ _)) _ f => f.applied = true → ∀ j, p.task = .deliver (.job j) →
      p.held ≠ none ∨
        (c.Settled j.messageID ∧ (c.world.bodies j.bodyRef.key).isSome = true)
  | .op p (.write (.publishRelayJob j)) _ f => f.applied = true → p.task = .requeue j.messageID →
      c.Settled j.messageID ∧ (c.world.bodies j.bodyRef.key).isSome = true
  | .lose p => p.MayBreak c.world
  | .crash p => p.MayBreak c.world
  | _ => True

/-! ## The changes a call makes -/

section
variable {t : Task} {w w' : World} {held : Bool} {ph ph' : Phase} {f : Fate} {R : Side → Nat}
  {id : MsgId} {b b' : Bool}

theorem below_of_eq (hc : ph'.carries id = 0) (hs : ph'.stores id = 0) (hm : ph ≠ .moved)
    (hu : ph'.unsent = true → ph.unsent = true) : ph'.Below ph id :=
  ⟨hc ▸ Nat.zero_le _, hs ▸ Nat.zero_le _, fun h => absurd h hm, hu⟩

theorem Phase.Below.refl (ph : Phase) (id : MsgId) : ph.Below ph id :=
  ⟨le_rfl, le_rfl, fun h => h, fun h => h⟩

namespace Custody

/-- A change of phase that counts for no more. -/
theorem quiet (h : Custody (w.fig id + (t.fig held ph id + R)) b) (hfig : w'.fig id = w.fig id)
    (hbelow : ph'.Below ph id) (hb : b = true → b' = true) :
    Custody (w'.fig id + (t.fig held ph' id + R)) b' := by
  refine h.mono (fun s => ?_) hb
  rw [hfig]
  exact Nat.add_le_add_left (Nat.add_le_add_right (Task.fig_le hbelow s) _) _

/-- A write that neither publishes nor touches the body. -/
theorem write {wr : Write} (h : Custody (w.fig id + (t.fig held ph id + R)) (w.bodies id).isSome)
    (hp : wr.publishes = none) (hk : wr.bodyKey ≠ some id) (hbelow : ph'.Below ph id) :
    Custody ((w.after t wr f).fig id + (t.fig held ph' id + R))
      ((w.after t wr f).bodies id).isSome := by
  refine h.quiet (World.fig_after_none hp) hbelow fun hb => ?_
  rw [World.after_bodies_of_ne hk]
  exact hb

/-- Storing a body: the producer goes on to `stored`, or gives up. -/
theorem store {wr : Write} {key : MsgId}
    (h : Custody (w.fig id + (t.fig held (.drawn key) id + R)) (w.bodies id).isSome)
    (hs : wr.stores key) (hp : wr.publishes = none) :
    Custody ((w.after t wr f).fig id +
      (t.fig held (if f.reported then .stored key else .ended) id + R))
        ((w.after t wr f).bodies id).isSome := by
  obtain ⟨hkeep, hstored⟩ := World.after_stores (w := w) (t := t) (f := f) hs
  cases hrep : f.reported with
  | false =>
    rw [if_neg Bool.false_ne_true]
    exact h.quiet (World.fig_after_none hp) (below_of_eq rfl rfl nofun fun _ => rfl) (hkeep id)
  | true =>
    rw [if_pos rfl]
    by_cases hid : key = id
    · subst hid
      rw [World.fig_after_none hp]
      exact ⟨h.one, h.solo, h.new, h.far, fun _ => hstored (Fate.applied_of_reported hrep)⟩
    · refine h.quiet (World.fig_after_none hp) ⟨le_rfl, ?_, nofun, fun _ => rfl⟩ (hkeep id)
      show (decide (some key = some id)).toNat ≤ _
      rw [decide_eq_false fun hc => hid (Option.some_inj.mp hc)]
      exact Nat.zero_le _

/-- Drawing an id that nothing is counted for. -/
theorem draw {new : MsgId} (h : Custody (w.fig id + (t.fig held ph id + R)) b)
    (hzero : new = id → ∀ s, (w.fig id + (t.fig held ph id + R)) s = 0) (hm : ph ≠ .moved)
    (hu : ph.unsent = true) : Custody (w.fig id + (t.fig held (.drawn new) id + R)) b := by
  by_cases hid : new = id
  · subst hid
    have hz := hzero rfl
    obtain ⟨hown, hnear, hneed⟩ := t.fig_le_held held (.drawn new) new
    have hcar : (Phase.drawn new).carries new = 1 := by simp [Phase.carries, Phase.pending]
    have hsto : (Phase.drawn new).stores new = 0 := rfl
    have hun : t.fig held (.drawn new) new .unacked = t.fig held ph new .unacked := rfl
    have hfar : t.fig held (.drawn new) new .far = t.fig held ph new .far := rfl
    have z1 := hz .own
    have z2 := hz .unacked
    have z3 := hz .far
    have z4 := hz .need
    simp only [Pi.add_apply] at z1 z2 z3 z4
    constructor <;> simp only [Pi.add_apply] <;> omega
  · refine h.quiet rfl (below_of_eq ?_ rfl hm fun _ => hu) fun hb => hb
    show (decide (some new = some id)).toNat = 0
    rw [decide_eq_false fun hc => hid (Option.some_inj.mp hc)]
    rfl

/-- An oversized submission drops the body it stored. -/
theorem oversized {key : MsgId} (hR : Ordered R)
    (h : Custody (w.fig id + (t.fig held (.stored key) id + R)) (w.bodies id).isSome) :
    Custody ((w.after t (.delete key) f).fig id + (t.fig held .ended id + R))
      ((w.after t (.delete key) f).bodies id).isSome := by
  have hbelow : Phase.ended.Below (.stored key) id := below_of_eq rfl rfl nofun fun _ => rfl
  by_cases hid : key = id
  · subst hid
    rw [World.fig_after_none rfl]
    refine h.drop (fun s => ?_) ?_
    · exact Nat.add_le_add_left (Nat.add_le_add_right (Task.fig_le hbelow s) _) _
    · have hone := h.one
      have hnew := h.new
      have hcoming : t.fig held (.stored key) key .coming = 1 := by
        simp [Task.fig, Phase.carries, Phase.pending]
      have hF := (t.fig_ordered held (.stored key) key).coming
      have hneed := (t.fig_le_held held .ended key).2.2
      have hsto : Phase.ended.stores key = 0 := rfl
      have hun : t.fig held .ended key .unacked = t.fig held (.stored key) key .unacked := rfl
      have hW := w.fig_ordered key
      have hW1 := hW.need
      have hW2 := hW.near
      have hR1 := hR.need
      have hR2 := hR.near
      simp only [Pi.add_apply] at hone hnew ⊢
      omega
  · exact h.write rfl (fun hc => hid (Option.some_inj.mp hc)) hbelow

/-- A delete of a body that nobody needs. -/
theorem delete {key : MsgId}
    (h : Custody (w.fig id + (t.fig held ph id + R)) (w.bodies id).isSome)
    (hneed : f.applied = true → key = id → (w.fig id + (t.fig held ph id + R)) .need = 0) :
    Custody ((w.after t (.delete key) f).fig id + (t.fig held ph id + R))
      ((w.after t (.delete key) f).bodies id).isSome := by
  by_cases hid : key = id
  · cases hf : f.applied with
    | false =>
      refine h.quiet (World.fig_after_none rfl) (.refl _ _) fun hb => ?_
      rw [World.after_bodies_of_failed hf]
      exact hb
    | true =>
      rw [World.fig_after_none rfl]
      exact h.drop (fun _ => le_rfl) (hneed hf hid)
  · exact h.write rfl (fun hc => hid (Option.some_inj.mp hc)) (.refl _ _)

/-- A publish that failed. -/
theorem unpublished {wr : Write} {d : Queue × Wire}
    (h : Custody (w.fig id + (t.fig held ph id + R)) (w.bodies id).isSome)
    (hp : wr.publishes = some d) (hf : f.applied = false) (hbelow : ph'.Below ph id) :
    Custody ((w.after t wr f).fig id + (t.fig held ph' id + R))
      ((w.after t wr f).bodies id).isSome := by
  refine h.quiet (World.fig_after_failed hf) hbelow fun hb => ?_
  rw [World.after_bodies_of_publish hp]
  exact hb

/-- The entry of a producer covers the job it publishes. -/
theorem fig_published_le {q : Queue} {j : RelayJob} (hc : ph'.carries id = 0)
    (hs : ph'.stores id = 0) (s : Side) :
    jobFig id (q, .job j) s + t.fig held ph' id s ≤ t.fig held (.inserted j.messageID) id s := by
  by_cases hid : j.messageID = id
  · subst hid
    have hcar : (Phase.inserted j.messageID).carries j.messageID = 1 := by
      simp [Phase.carries, Phase.pending]
    have hsto : (Phase.inserted j.messageID).stores j.messageID = 1 := by
      simp [Phase.stores, Phase.storing]
    have hjob : ((Wire.job j).carries j.messageID).toNat = 1 := by simp [Wire.carries]
    have hqueue := toNat_and_le ((Wire.job j).carries j.messageID) (decide (q ≠ .dlq))
    cases s with
    | own =>
      have hmoved := toNat_and_le (t.carries j.messageID && held) (decide (ph' ≠ .moved))
      show ((Wire.job j).carries j.messageID).toNat +
        ((t.carries j.messageID && held && decide (ph' ≠ .moved)).toNat + ph'.carries j.messageID) ≤
          (t.carries j.messageID && held && true).toNat + Phase.carries (.inserted _) _
      rw [Bool.and_true]
      omega
    | near =>
      show ((Wire.job j).carries j.messageID && decide (q ≠ .dlq)).toNat +
        ((t.delivers j.messageID && held).toNat + ph'.carries j.messageID) ≤
          (t.delivers j.messageID && held).toNat + Phase.carries (.inserted _) _
      omega
    | need =>
      have hunsent := toNat_and_le (t.delivers j.messageID && held) ph'.unsent
      show ((Wire.job j).carries j.messageID && decide (q ≠ .dlq)).toNat +
        ((t.delivers j.messageID && held && ph'.unsent).toNat + ph'.stores j.messageID) ≤
          (t.delivers j.messageID && held && true).toNat + Phase.stores (.inserted _) _
      rw [Bool.and_true]
      omega
    | coming =>
      show 0 + ph'.carries _ ≤ Phase.carries (.inserted _) _
      omega
    | unacked | far => exact (Nat.zero_add _).le
  · rw [jobFig_other (d := (q, .job j)) (decide_eq_false hid), Nat.zero_add]
    exact Task.fig_le (below_of_eq hc hs Phase.noConfusion fun _ => rfl) s

/-- The first publish of a message. -/
theorem publish_new {wr : Write} {q : Queue} {j : RelayJob}
    (h : Custody (w.fig id + (t.fig held (.inserted j.messageID) id + R)) (w.bodies id).isSome)
    (hp : wr.publishes = some (q, .job j)) (hc : ph'.carries id = 0) (hs : ph'.stores id = 0) :
    Custody ((w.after t wr f).fig id + (t.fig held ph' id + R))
      ((w.after t wr f).bodies id).isSome := by
  cases hf : f.applied with
  | false => exact h.unpublished hp hf (below_of_eq hc hs Phase.noConfusion fun _ => rfl)
  | true =>
    refine h.mono (fun s => ?_) fun hb => ?_
    · have hle : jobFig id (q, .job j) s + t.fig held ph' id s ≤
          t.fig held (.inserted j.messageID) id s := fig_published_le hc hs s
      rw [World.fig_after_publish hp hf]
      simp only [Pi.add_apply]
      omega
    · rw [World.after_bodies_of_publish hp]
      exact hb

/-- A worker publishes the successor of its job. -/
theorem successor {wr : Write} {q : Queue} {j : RelayJob}
    (h : Custody (w.fig id + (t.fig held .start id + R)) (w.bodies id).isSome)
    (hp : wr.publishes = some (q, .job j)) (hf : f.applied = true)
    (ht : t.delivers id = decide (j.messageID = id))
    (hok : t.delivers id = true → held = true ∨
      ((∀ s, (w.fig id + (t.fig held .start id + R)) s = 0) ∧ (w.bodies id).isSome = true)) :
    Custody ((w.after t wr f).fig id + (t.fig held .moved id + R))
      ((w.after t wr f).bodies id).isSome := by
  have hbelow : Phase.moved.Below .start id := below_of_eq rfl rfl nofun fun _ => rfl
  rw [World.fig_after_publish hp hf, World.after_bodies_of_publish hp]
  cases hdel : t.delivers id with
  | false =>
    refine h.mono (fun s => ?_) fun hb => hb
    have hjob : jobFig id (q, .job j) s = 0 := jobFig_other (d := (q, .job j)) (ht.symm.trans hdel) s
    have hle : t.fig held .moved id s ≤ t.fig held .start id s := Task.fig_le hbelow s
    simp only [Pi.add_apply]
    omega
  | true =>
    have hcar : t.carries id = true := by
      rw [Task.carries_eq, hdel]
      rfl
    have hid : (Wire.job j).carries id = true := ht.symm.trans hdel
    have j1 : jobFig id (q, .job j) .own = 1 := congrArg Bool.toNat hid
    have j2 : jobFig id (q, .job j) .near ≤ 1 := Bool.toNat_le _
    have j3 : jobFig id (q, .job j) .need = jobFig id (q, .job j) .near := rfl
    have j4 : jobFig id (q, .job j) .coming = 0 := rfl
    have j5 : jobFig id (q, .job j) .unacked = 0 := rfl
    have j6 : jobFig id (q, .job j) .far = 0 := rfl
    rcases hok hdel with hheld | ⟨hz, hb⟩
    · -- the worker's own entry makes room for the successor
      subst hheld
      have f1 : t.fig true .start id .own = 1 := by
        simp [Task.fig, hcar, Phase.carries, Phase.pending]
      have f2 : t.fig true .start id .need = 1 := by
        simp [Task.fig, hdel, Phase.unsent, Phase.stores, Phase.storing]
      have f3 : t.fig true .start id .near = 1 := by
        simp [Task.fig, hdel, Phase.carries, Phase.pending]
      have f4 : t.fig true .start id .unacked = 1 := by simp [Task.fig, hcar]
      have m1 : t.fig true .moved id .own = 0 := by
        simp [Task.fig, Phase.carries, Phase.pending]
      have m2 : t.fig true .moved id .unacked = t.fig true .start id .unacked := rfl
      have m3 : t.fig true .moved id .coming = t.fig true .start id .coming := rfl
      have m4 : t.fig true .moved id .far = t.fig true .start id .far := rfl
      obtain ⟨hone, hsolo, hnew, hfar, hbody⟩ := h
      simp only [Pi.add_apply] at hone hsolo hnew hfar hbody
      refine ⟨?_, ?_, ?_, ?_, fun _ => hbody (by omega)⟩ <;> simp only [Pi.add_apply] <;> omega
    · have hle : ∀ s, t.fig held .moved id s ≤ t.fig held .start id s := Task.fig_le hbelow
      have l1 := hle .own
      have l2 := hle .unacked
      have l3 := hle .coming
      have l4 := hle .far
      have z1 := hz .own
      have z2 := hz .unacked
      have z3 := hz .coming
      have z4 := hz .far
      simp only [Pi.add_apply] at z1 z2 z3 z4
      refine ⟨?_, ?_, ?_, ?_, fun _ => hb⟩ <;> simp only [Pi.add_apply] <;> omega

/-- A requeue publishes a job for a settled message. -/
theorem requeue {wr : Write} {d : Queue × Wire}
    (h : Custody (w.fig id + (t.fig held ph id + R)) (w.bodies id).isSome)
    (hp : wr.publishes = some d) (hbelow : ph'.Below ph id)
    (hok : f.applied = true → d.2.carries id = true →
      (∀ s, (w.fig id + (t.fig held ph id + R)) s = 0) ∧ (w.bodies id).isSome = true) :
    Custody ((w.after t wr f).fig id + (t.fig held ph' id + R))
      ((w.after t wr f).bodies id).isSome := by
  cases hf : f.applied with
  | false => exact h.unpublished hp hf hbelow
  | true =>
    have hle : ∀ s, t.fig held ph' id s ≤ t.fig held ph id s := Task.fig_le hbelow
    rw [World.fig_after_publish hp hf, World.after_bodies_of_publish hp]
    cases hid : d.2.carries id with
    | false =>
      refine h.mono (fun s => ?_) fun hb => hb
      have hjob := jobFig_other hid s
      have hs := hle s
      simp only [Pi.add_apply]
      omega
    | true =>
      obtain ⟨hz, hb⟩ := hok hf hid
      have j1 : jobFig id d .own ≤ 1 := Bool.toNat_le _
      have j2 : jobFig id d .coming = 0 := rfl
      have j3 : jobFig id d .unacked = 0 := rfl
      have j4 : jobFig id d .far = 0 := rfl
      have l1 := hle .own
      have l2 := hle .unacked
      have l3 := hle .coming
      have l4 := hle .far
      have z1 := hz .own
      have z2 := hz .unacked
      have z3 := hz .coming
      have z4 := hz .far
      simp only [Pi.add_apply] at z1 z2 z3 z4
      refine ⟨?_, ?_, ?_, ?_, fun _ => hb⟩ <;> simp only [Pi.add_apply] <;> omega

/-- A delivery is settled without going back. -/
theorem settle (h : Custody (w.fig id + (t.fig held ph id + R)) b) :
    Custody (w.fig id + (t.fig false .done id + R)) b :=
  h.mono (fun s => Nat.add_le_add_left (Nat.add_le_add_right (Task.fig_done_le s) _) _) fun hb => hb

/-- A delivery goes back to the broker. -/
theorem giveBack {held : Option (Queue × Wire)}
    (h : Custody (w.fig id + (t.fig held.isSome ph id + R)) b)
    (hheld : held = none ∨ held = t.delivery) (hm : held ≠ none → ph ≠ .moved)
    (hu : held ≠ none → t.delivers id = true → ph.unsent = false → b = true) :
    Custody ((w.giveBack held).fig id + (t.fig false ph id + R)) b := by
  cases hd : held with
  | none =>
    subst hd
    exact h
  | some d =>
    subst hd
    have hdel : t.delivery = some d := (hheld.resolve_left nofun).symm
    have hfig : (w.giveBack (some d)).fig id = jobFig id d + w.fig id := World.fig_cons rfl id
    rw [hfig]
    have hcover : ∀ s, (s = .need → ph.unsent = true ∨ d.1 = .dlq) →
        (jobFig id d + w.fig id + (t.fig false ph id + R)) s ≤
          (w.fig id + (t.fig true ph id + R)) s := by
      intro s hs
      have hle : jobFig id d s + t.fig false ph id s ≤ t.fig true ph id s :=
        Task.fig_giveBack_le hdel (hm nofun) hs
      simp only [Pi.add_apply]
      omega
    by_cases hneed : ph.unsent = true ∨ d.1 = .dlq
    · exact h.mono (fun s => hcover s fun _ => hneed) fun hb => hb
    obtain ⟨hsent, hq⟩ := not_or.mp hneed
    by_cases hid : t.delivers id = true
    · -- a sent message is sent again: its body must still be there
      have hb := hu nofun hid (Bool.eq_false_iff.mpr hsent)
      have l1 := hcover .own nofun
      have l2 := hcover .unacked nofun
      have l3 := hcover .coming nofun
      have l4 := hcover .near nofun
      have l5 := hcover .far nofun
      exact ⟨l1.trans h.one, l2.trans h.solo,
        fun hc => Nat.le_zero.mp ((h.new (hc.trans_le l3)) ▸ l2),
        fun hf => Nat.le_zero.mp ((h.far (hf.trans_le l5)) ▸ l4), fun _ => hb⟩
    · refine h.mono (fun s => ?_) fun hb => hb
      have hcar : d.2.carries id = false := by
        cases t with
        | deliver wire =>
          cases hdel
          exact Bool.eq_false_iff.mpr hid
        | bounce wire =>
          cases hdel
          exact absurd rfl hq
        | _ => cases hdel
      have hjob := jobFig_other hcar s
      have hle : t.fig false ph id s ≤ t.fig (some d).isSome ph id s := Task.fig_lost_le s
      simp only [Pi.add_apply]
      omega

end Custody

/-! ## One call -/

/-- What the condition says of one call, for one id. -/
structure Permit (t : Task) (held : Bool) (o : Op) (f : Fate) (id : MsgId) (n : Side → Nat)
    (stored : Bool) : Prop where
  delete : ∀ key, o = .write (.delete key) → f.applied = true → t.delivers id = true →
    held = true ∨ ∀ s, n s = 0
  publish : ∀ q j, o = .write (.publish q j) → f.applied = true → t.delivers id = true →
    held = true ∨ ((∀ s, n s = 0) ∧ stored = true)
  requeue : ∀ j, o = .write (.publishRelayJob j) → f.applied = true →
    t = .requeue j.messageID → j.messageID = id → (∀ s, n s = 0) ∧ stored = true

/-- **One call keeps custody.** -/
theorem Exec.custody {net : Net} {held : Option (Queue × Wire)} {o : Op} {r : o.Ret} {n : Conf}
    (hx : Exec net t ⟨w, held, ph⟩ o r f n) (hturn : Turn t ph o r ph') (hR : Ordered R)
    (hheld : held = none ∨ held = t.delivery)
    (hkeys : ∀ j, t.job = some j → j.bodyRef.key = j.messageID) (hsweep : t ≠ .sweep)
    (hdrawn : id ∉ w.ids → ∀ s, (w.fig id + (t.fig held.isSome ph id + R)) s = 0)
    (hok : Permit t held.isSome o f id (w.fig id + (t.fig held.isSome ph id + R))
      (w.bodies id).isSome)
    (h : Custody (w.fig id + (t.fig held.isSome ph id + R)) (w.bodies id).isSome) :
    Custody (n.world.fig id + (t.fig n.held.isSome ph' id + R)) (n.world.bodies id).isSome := by
  have hW := w.fig_ordered id
  have hF := t.fig_ordered held.isSome ph id
  cases hturn with
  | read | undelivered =>
    cases hx
    exact h.quiet rfl (.refl _ _) fun hb => hb
  | selected | queried | swept | suppressed =>
    cases hx
    exact h.quiet rfl (below_of_eq rfl rfl (by rintro ⟨⟩) fun _ => rfl) fun hb => hb
  | delivered =>
    cases hx
    exact h.quiet rfl (below_of_eq rfl rfl (by rintro ⟨⟩) (by rintro ⟨⟩)) fun hb => hb
  | draw | redraw =>
    cases hx with
    | newID hnew => exact h.draw (fun he => hdrawn (he ▸ hnew)) (by rintro ⟨⟩) rfl
  | put =>
    cases hx
    exact h.store ⟨_, .inl rfl⟩ rfl
  | insertBody =>
    cases hx
    exact h.store ⟨_, .inr rfl⟩ rfl
  | oversized =>
    cases hx
    exact h.oversized hR
  | @relayed j ok ht =>
    -- the worker holds the only delivery, and has sent it
    cases hx
    refine h.delete fun hf hid => ?_
    have hdel : t.delivers id = true := by
      rw [ht]
      exact decide_eq_true ((hkeys j (by rw [ht]; rfl)).symm.trans hid)
    rcases hok.delete _ rfl hf hdel with hheld | hz
    · have hcar : t.carries id = true := by
        rw [Task.carries_eq, hdel]
        rfl
      have f1 : t.fig held.isSome .closed id .own = 1 := by
        simp [Task.fig, hcar, hheld, Phase.carries, Phase.pending]
      have f2 : t.fig held.isSome .closed id .unacked = 1 := by simp [Task.fig, hcar, hheld]
      have f3 : t.fig held.isSome .closed id .need = 0 := by
        simp [Task.fig, Phase.unsent, Phase.stores, Phase.storing]
      have hone := h.one
      have hsolo := h.solo
      have hW1 := hW.need
      have hW2 := hW.near
      have hR1 := hR.need
      have hR2 := hR.near
      simp only [Pi.add_apply] at hone hsolo ⊢
      omega
    · exact hz .need
  | @bounced j i ok ht | @unsent j ok ht =>
    -- while a bounce generator runs, nobody is on the delivery side
    cases hx
    refine h.delete fun _ hid => ?_
    have hbnc : t.bounces id = true := by
      rw [ht]
      exact decide_eq_true ((hkeys j (by rw [ht]; rfl)).symm.trans hid)
    have hfar : ∀ ph, t.fig held.isSome ph id .far = 1 := fun _ => congrArg Bool.toNat hbnc
    have hnear := h.far (by simp only [Pi.add_apply, hfar]; omega)
    have hle := (hW.add (hF.add hR)).need
    omega
  | orphan ht => exact absurd ht hsweep
  | insert =>
    cases hx
    refine h.write rfl (by rintro ⟨⟩) ?_
    split
    · exact ⟨le_rfl, le_rfl, (by rintro ⟨⟩), fun _ => rfl⟩
    · exact below_of_eq rfl rfl (by rintro ⟨⟩) fun _ => rfl
  | attempt | suppress | prune | announce =>
    cases hx
    exact h.write rfl (by rintro ⟨⟩) (.refl _ _)
  | close | note =>
    cases hx
    exact h.write rfl (by rintro ⟨⟩) (below_of_eq rfl rfl (by rintro ⟨⟩) fun h => h)
  | @successor j q a ok ht hq =>
    cases hx with
    | write hposs =>
      cases f with
      | lost => cases hposs
      | failed => exact h.unpublished rfl rfl (.refl _ _)
      | ok =>
        refine h.successor rfl rfl ?_ fun hdel => hok.publish _ _ rfl rfl hdel
        rw [ht]
        rfl
  | @submission _ _ _ j _ _ hid | @alert _ _ _ _ j _ _ hid | @dsn _ _ j _ _ hid =>
    cases hx
    subst hid
    refine h.publish_new rfl ?_ ?_
    · split <;> rfl
    · split <;> rfl
  | @requeue row j ok ht =>
    cases hx
    refine h.requeue rfl (below_of_eq rfl rfl (by rintro ⟨⟩) fun _ => rfl) fun hf hid => ?_
    exact hok.requeue j rfl hf ht (of_decide_eq_true hid)
  | ack =>
    cases hx
    exact h.settle
  | retry ht =>
    cases hx
    exact (h.giveBack hheld (fun _ => (by rintro ⟨⟩)) fun _ _ => (by rintro ⟨⟩)).settle
  | regenerate ht =>
    cases hx
    exact (h.giveBack hheld (fun _ => (by rintro ⟨⟩)) fun _ _ => (by rintro ⟨⟩)).settle
  | garbage =>
    cases hx
    exact h.settle

end

/-! ## Figures that are zero -/

theorem Task.fig_zero {t : Task} {held : Bool} {ph : Phase} {id : MsgId}
    (h : t.carries id = true → held = false ∧ t.bounces id = false) (hp : ph.pending ≠ some id)
    (s : Side) : t.fig held ph id s = 0 := by
  have hcar : ph.carries id = 0 := by
    unfold Phase.carries
    rw [decide_eq_false hp]
    rfl
  have hsto : ph.stores id = 0 := Nat.le_zero.mp (hcar ▸ ph.stores_le id)
  have hor := t.carries_eq id
  cases hc : t.carries id with
  | false =>
    obtain ⟨hdel, hbnc⟩ := Bool.or_eq_false_iff.mp (hor.symm.trans hc)
    cases s <;> simp [Task.fig, hc, hdel, hbnc, hcar, hsto]
  | true =>
    obtain ⟨rfl, hbnc⟩ := h hc
    cases s <;> simp [Task.fig, hbnc, hcar, hsto]

theorem Cluster.fig_zero {c : Cluster} {id : MsgId}
    (hjobs : ∀ d ∈ c.world.bus, d.2.carries id = false)
    (hprocs : ∀ p ∈ c.procs, p.task.carries id = true → p.held = none ∧ p.task.bounces id = false)
    (hpending : ∀ p ∈ c.procs, p.phase.pending ≠ some id) (s : Side) : c.fig id s = 0 := by
  have hw : c.world.fig id = 0 := by
    refine Multiset.sum_eq_zero fun x hx => ?_
    obtain ⟨d, hd, rfl⟩ := Multiset.mem_map.mp hx
    exact funext (jobFig_other (hjobs d hd))
  have hp : procsFig c.procs id = 0 := by
    refine Multiset.sum_eq_zero fun x hx => ?_
    obtain ⟨p, hin, rfl⟩ := Multiset.mem_map.mp hx
    refine funext (Task.fig_zero (fun hc => ?_) (hpending p hin))
    obtain ⟨hheld, hbnc⟩ := hprocs p hin hc
    exact ⟨by rw [hheld]; rfl, hbnc⟩
  show c.world.fig id s + procsFig c.procs id s = 0
  rw [hw, hp]
  rfl

/-- Nothing is counted for a settled message. -/
theorem Cluster.Settled.fig_zero {c : Cluster} {id : MsgId} (h : c.Settled id) (s : Side) :
    c.fig id s = 0 := by
  refine Cluster.fig_zero (fun d hd => ?_) h.procs h.pending s
  obtain ⟨q, wire⟩ := d
  cases wire with
  | job j => exact decide_eq_false (h.jobs q j hd)
  | garbage => rfl

/-- Nothing is counted for an id that was not drawn. -/
theorem Cluster.Keyed.fig_zero {c : Cluster} {id : MsgId} (h : c.Keyed) (hid : id ∉ c.world.ids)
    (s : Side) : c.fig id s = 0 := by
  refine Cluster.fig_zero (fun d hd => ?_) (fun p hp hc => ?_) (fun p hp hph => ?_) s
  · obtain ⟨q, wire⟩ := d
    cases wire with
    | job j => exact decide_eq_false fun he => hid (he ▸ (h.world.jobs hd).drawn)
    | garbage => rfl
  · obtain ⟨j, hj, he⟩ := Option.any_eq_true _ _ |>.mp hc
    exact absurd (of_decide_eq_true he ▸ ((h.tasks p hp).job hj).drawn) hid
  · exact hid ((h.tasks p hp).pending hph)

/-- Those who hold a delivery they have not moved on are owners. -/
theorem unacked_le_own {ps : Multiset Proc} {id : MsgId}
    (h : ∀ p ∈ ps, p.task.carries id = true → p.held ≠ none → p.phase ≠ .moved) :
    procsFig ps id .unacked ≤ procsFig ps id .own := by
  induction ps using Multiset.induction_on with
  | empty => exact le_rfl
  | cons p ps ih =>
    rw [procsFig_cons]
    refine Nat.add_le_add ?_ (ih fun p' hp' => h p' (Multiset.mem_cons_of_mem hp'))
    refine le_trans (toNat_le_of_imp fun hb => ?_) (Nat.le_add_right _ _)
    obtain ⟨hc, hh⟩ := Bool.and_eq_true_iff.mp hb
    refine Bool.and_eq_true_iff.mpr ⟨hb, decide_eq_true ?_⟩
    exact h p (Multiset.mem_cons_self _ _) hc (Option.isSome_iff_ne_none.mp hh)

/-! ## Runs -/

/-- A consumer starts. -/
theorem Custody.start {t : Task} {d : Queue × Wire} {W P : Side → Nat} {id : MsgId} {b : Bool}
    (hd : t.delivery = some d) (hW : Ordered W) (hP : Ordered P) (hidle : W .unacked = 0)
    (hle : t.carries id = true → P .unacked ≤ P .own)
    (h : Custody (jobFig id d + W + P) b) : Custody (W + (t.fig true .start id + P)) b := by
  have hcar : t.carries id = d.2.carries id := by
    cases t with
    | deliver w =>
      cases hd
      cases w <;> rfl
    | bounce w =>
      cases hd
      cases w <;> rfl
    | _ => cases hd
  cases hc : d.2.carries id with
  | false =>
    refine h.mono (fun s => ?_) fun hb => hb
    have hz : t.fig true .start id s = 0 := by
      have hpending : Phase.start.pending ≠ some id := nofun
      refine Task.fig_zero (fun hc' => ?_) hpending s
      rw [hcar, hc] at hc'
      cases hc'
    simp only [Pi.add_apply]
    omega
  | true =>
    have hle := hle (hcar.trans hc)
    have hW1 := hW.near
    have hW2 := hW.need
    have hW3 := hW.coming
    have hP1 := hP.near
    have hP2 := hP.coming
    obtain ⟨hone, hsolo, hnew, hfar, hbody⟩ := h
    simp only [Pi.add_apply] at hone hsolo hnew hfar hbody
    have c1 : Phase.start.carries id = 0 := rfl
    have c2 : Phase.start.stores id = 0 := rfl
    have j1 : jobFig id d .own = 1 := congrArg Bool.toNat hc
    have j2 : jobFig id d .unacked = 0 := rfl
    have j3 : jobFig id d .coming = 0 := rfl
    have j4 : jobFig id d .far = 0 := rfl
    have f1 : t.fig true .start id .own = 1 := by simp [Task.fig, hcar, hc, c1]
    have f2 : t.fig true .start id .unacked = 1 := by simp [Task.fig, hcar, hc]
    have f3 : t.fig true .start id .coming = 0 := rfl
    cases t with
    | deliver w =>
      -- the job was on the delivery side, and still is
      cases hd
      have hdel : (Task.deliver w).delivers id = true := hc
      have j5 : jobFig id (.work, w) .near = 1 := by simp [jobFig, hc]
      have j6 : jobFig id (.work, w) .need = 1 := by simp [jobFig, hc]
      have f4 : (Task.deliver w).fig true .start id .near = 1 := by simp [Task.fig, hdel, c1]
      have f5 : (Task.deliver w).fig true .start id .need = 1 := by
        simp [Task.fig, hdel, c2, Phase.unsent]
      have f6 : (Task.deliver w).fig true .start id .far = 0 := rfl
      refine ⟨?_, ?_, ?_, ?_, fun _ => hbody (by omega)⟩ <;> simp only [Pi.add_apply] <;> omega
    | bounce w =>
      -- the job was the last owner, so nobody is left on the delivery side
      cases hd
      have f4 : (Task.bounce w).fig true .start id .near = 0 := rfl
      have f5 : (Task.bounce w).fig true .start id .need = 0 := rfl
      have hP3 := hP.need
      refine ⟨?_, ?_, ?_, ?_, fun hn => absurd hn ?_⟩ <;> simp only [Pi.add_apply] <;> omega
    | _ => cases hd

/-- No sweep runs. -/
theorem no_sweep {site : Site} {c : Cluster} (h : Reach (cluster site) careful c) :
    ∀ p ∈ c.procs, p.task ≠ .sweep :=
  procs_invariant (Q := fun _ p => p.task ≠ .sweep) (fun _ _ _ _ hq => hq)
    (fun _ hok _ => hok.1) (fun _ _ _ _ _ hq => hq) (fun _ _ _ hq => hq) h

/-- The condition on a call, in figures. -/
theorem careful.permit {site : Site} {c : Cluster} {p : Proc} {o : Op} {r : o.Ret} {f : Fate}
    {k : o.Ret → Handler Bool} (hr : Reach (cluster site) careful c) (hin : p ∈ c.procs)
    (hk : p.prog = .call o k) (hok : careful c (.op p o r f)) (id : MsgId) :
    Permit p.task p.held.isSome o f id (c.fig id) (c.world.bodies id).isSome := by
  have hkeys := (keyed hr).tasks p hin
  have hkey : ∀ j, p.task = .deliver (.job j) → j.bodyRef.key = j.messageID := by
    intro j ht
    exact (hkeys.job (by rw [ht]; rfl)).key
  refine ⟨?_, ?_, ?_⟩
  · rintro key rfl hf hd
    obtain ⟨j, ht, rfl⟩ := Task.of_delivers hd
    exact (hok hf j ht).imp Option.isSome_iff_ne_none.mpr Cluster.Settled.fig_zero
  · rintro q j' rfl hf hd
    obtain ⟨j, ht, rfl⟩ := Task.of_delivers hd
    refine (hok hf j ht).imp Option.isSome_iff_ne_none.mpr fun hs => ⟨hs.1.fig_zero, ?_⟩
    exact hkey j ht ▸ hs.2
  · rintro j rfl hf ht rfl
    obtain ⟨hs, hb⟩ := hok hf ht
    have hknown := (((procs_ok hr p hin).turn hk r).write_keyed hkeys).job rfl
    exact ⟨hs.fig_zero, hknown.key ▸ hb⟩

theorem Cluster.fig_eq {c : Cluster} {p : Proc} {ps : Multiset Proc} (h : c.procs = p ::ₘ ps)
    (id : MsgId) : c.fig id =
      c.world.fig id + (p.task.fig p.held.isSome p.phase id + procsFig ps id) := by
  unfold fig
  rw [h, procsFig_cons]

/-- A delivery that may go back to the broker. -/
theorem custody_giveBack {site : Site} {c : Cluster} {p : Proc} {ps : Multiset Proc} {id : MsgId}
    (hr : Reach (cluster site) careful c) (hp : c.procs = p ::ₘ ps) (hok : p.MayBreak c.world)
    (h : Custody (c.world.fig id + (p.task.fig p.held.isSome p.phase id + procsFig ps id))
      (c.world.bodies id).isSome) :
    Custody ((c.world.giveBack p.held).fig id + (p.task.fig false p.phase id + procsFig ps id))
      (c.world.bodies id).isSome := by
  have hin : p ∈ c.procs := hp ▸ Multiset.mem_cons_self _ _
  refine h.giveBack ((procs_ok hr p hin).held.imp_right And.left) (fun hh => (hok hh).1) ?_
  intro hh hd hu
  obtain ⟨j, ht, hid⟩ := Task.of_delivers hd
  have hkey := (((keyed hr).tasks p hin).job (j := j) (by rw [ht]; rfl)).key
  exact hid ▸ hkey ▸ (hok hh).2 j ht hu

/-- **Custody holds in every run that meets the condition.** -/
theorem custody {site : Site} {c : Cluster} (h : Reach (cluster site) careful c) (id : MsgId) :
    Custody (c.fig id) (c.world.bodies id).isSome := by
  refine h.invariant (I := fun c => Custody (c.fig id) (c.world.bodies id).isSome) ?_ ?_
  · rintro c rfl
    exact ⟨Nat.zero_le _, Nat.zero_le _, nofun, nofun, nofun⟩
  · intro c l c' hr ih hok hst
    have hkeys := keyed hr
    cases hst with
    | start t hd =>
      show Custody ((c.world.starting t).fig id + procsFig (t.launch site ::ₘ c.procs) id) _
      rw [procsFig_cons]
      cases hdel : t.delivery with
      | none =>
        have hbus : (c.world.starting t).bus = c.world.bus := by
          show (c.world.handOut t.delivery).bus = _
          rw [hdel]
          rfl
        have hz : ∀ s, t.fig t.delivery.isSome .start id s = 0 := by
          refine Task.fig_zero (fun hc => ?_) (Option.some_ne_none id).symm
          cases t <;> first | cases hc | cases hdel
        refine ih.mono (fun s => ?_) fun hb => hb
        show (((c.world.starting t).bus).map (jobFig id)).sum s +
          (t.fig t.delivery.isSome .start id s + procsFig c.procs id s) ≤ c.fig id s
        rw [hbus, hz, Nat.zero_add]
        exact le_rfl
      | some d =>
        have hmem := hd d hdel
        have hbus : (c.world.starting t).bus = c.world.bus.erase d := by
          show (c.world.handOut t.delivery).bus = _
          rw [hdel]
          rfl
        have hcount : Custody (jobFig id d + (c.world.starting t).fig id + procsFig c.procs id)
            (c.world.bodies id).isSome := by
          rw [← World.fig_erase hmem hbus id]
          exact ih
        have hheld : (t.launch site).held.isSome = true := congrArg Option.isSome hdel
        rw [hheld]
        exact hcount.start hdel (World.fig_ordered _ id) (procsFig_ordered _ id)
          ((c.world.starting t).fig_idle id).2.1 fun hc => unacked_le_own (hok.2 id hc)
    | @op p ps o k r f n hp hk hx =>
      have hin : p ∈ c.procs := hp ▸ Multiset.mem_cons_self _ _
      have hfig := c.fig_eq hp id
      have hpermit := careful.permit hr hin hk hok id
      have hdrawn : id ∉ c.world.ids → ∀ s, c.fig id s = 0 := fun hid s => hkeys.fig_zero hid s
      rw [hfig] at ih hpermit hdrawn
      have hnext := hx.custody ((procs_ok hr p hin).turn_to hk hx) (procsFig_ordered ps id)
        ((procs_ok hr p hin).held.imp_right And.left)
        (fun j hj => ((hkeys.tasks p hin).job hj).key) (no_sweep hr p hin) hdrawn hpermit ih
      rw [Cluster.fig_eq (p := p.resume n (k r)) rfl id]
      exact hnext
    | @finish p ps ok hp hk =>
      rw [c.fig_eq hp id] at ih
      refine ih.mono (fun s => ?_) fun hb => hb
      show c.world.fig id s + procsFig ps id s ≤ c.world.fig id s + (_ + procsFig ps id s)
      omega
    | @expire q wire hq hm =>
      refine ih.mono (fun s => ?_) fun hb => hb
      have hout : c.world.fig id = jobFig id (q, wire) +
          World.fig { c.world with bus := c.world.bus.erase (q, wire) } id :=
        World.fig_erase hm rfl id
      have hsame : jobFig id (.work, wire) s = jobFig id (q, wire) s := by
        cases q <;> first | rfl | cases hq
      have hback : World.fig { c.world with bus := (.work, wire) ::ₘ c.world.bus.erase (q, wire) } id =
          jobFig id (.work, wire) + World.fig { c.world with bus := c.world.bus.erase (q, wire) } id :=
        World.fig_cons rfl id
      show World.fig _ id s + procsFig c.procs id s ≤ c.world.fig id s + procsFig c.procs id s
      rw [hout, hback]
      simp only [Pi.add_apply, hsame]
      exact le_rfl
    | @lose p ps hp hh =>
      rw [c.fig_eq hp id] at ih
      rw [Cluster.fig_eq (p := { p with held := none }) rfl id]
      exact custody_giveBack hr hp hok ih
    | @crash p ps hp =>
      rw [c.fig_eq hp id] at ih
      refine (custody_giveBack hr hp hok ih).mono (fun s => ?_) fun hb => hb
      exact Nat.add_le_add_left (Nat.le_add_left _ _) _
    | tick => exact ih

/-- **Bodies are available.**  In every run that meets the condition, every job outside the DLQ,
    and every job that a worker holds unacked and has not sent, has its body in the store; so a
    worker that is about to read the body of its job finds it. -/
theorem body_available {site : Site} {c : Cluster} (h : Reach (cluster site) careful c) :
    (∀ q j, (q, .job j) ∈ c.world.bus → q ≠ .dlq →
        (c.world.bodies j.bodyRef.key).isSome = true) ∧
      (∀ p ∈ c.procs, ∀ j, p.task = .deliver (.job j) → p.held ≠ none → p.phase.unsent = true →
        (c.world.bodies j.bodyRef.key).isSome = true) ∧
      ∀ p ∈ c.procs, ∀ key k, p.prog = .call (.ask (.get key)) k → p.held ≠ none →
        (c.world.bodies key).isSome = true := by
  have hheld : ∀ p ∈ c.procs, ∀ j, p.task = .deliver (.job j) → p.held ≠ none →
      p.phase.unsent = true → (c.world.bodies j.bodyRef.key).isSome = true := by
    intro p hin j ht hh hu
    have hknown := ((keyed h).tasks p hin).job (j := j) (by rw [ht]; rfl)
    rw [hknown.key]
    obtain ⟨ps, hp⟩ := Multiset.exists_cons_of_mem hin
    refine (custody h j.messageID).body ?_
    rw [c.fig_eq hp]
    have hone : p.task.fig p.held.isSome p.phase j.messageID .need =
        1 + p.phase.stores j.messageID := by
      have hsome : p.held.isSome = true := Option.isSome_iff_ne_none.mpr hh
      have hdel : p.task.delivers j.messageID = true := by
        rw [ht]
        exact decide_eq_true rfl
      simp [Task.fig, hdel, hsome, hu]
    simp only [Pi.add_apply]
    omega
  refine ⟨fun q j hm hq => ?_, hheld, fun p hin key k hk hh => ?_⟩
  · rw [((keyed h).world.jobs hm).key]
    refine (custody h j.messageID).body ?_
    let w' : World := { c.world with bus := c.world.bus.erase (q, .job j) }
    have herase : c.world.fig j.messageID = jobFig j.messageID (q, .job j) + w'.fig j.messageID :=
      World.fig_erase hm rfl j.messageID
    have hone : jobFig j.messageID (q, .job j) .need = 1 := by simp [jobFig, Wire.carries, hq]
    show 0 < c.world.fig j.messageID .need + procsFig c.procs j.messageID .need
    rw [herase]
    simp only [Pi.add_apply]
    omega
  · have hob := (procs_ok h p hin).obeys
    rw [hk] at hob
    obtain ⟨hph, j, ht, rfl⟩ := hob.1
    exact hheld p hin j ht hh (by rw [hph]; rfl)

/-- A submission that succeeds. -/
def submittedScript : List Cue :=
  [.start (.submit (envelopeSession "a@s.test" ["b@r.test"]) [])] ++ Cue.calls 0 "m1" 7

/-- The task is a submission. -/
def Task.submits : Task → Bool
  | .submit _ _ => true
  | _ => false

/-- Submissions on their own meet the condition. -/
theorem careful_of_submits {c : Cluster} {l : Label} (hcalm : calm c l)
    (h : l.about Task.submits) : careful c l := by
  cases l with
  | start t =>
    cases t with
    | submit s body => exact ⟨nofun, fun _ hc => nomatch hc⟩
    | _ => cases h
  | op p o r f =>
    have hsub : p.task.submits = true := h
    have hdel : ∀ j, p.task ≠ .deliver (.job j) := fun j hj => by
      rw [hj] at hsub
      cases hsub
    have hreq : ∀ id, p.task ≠ .requeue id := fun id hj => by
      rw [hj] at hsub
      cases hsub
    cases o with
    | write wr =>
      cases wr with
      | delete key => exact fun _ j hj => absurd hj (hdel j)
      | publish q j => exact fun _ j hj => absurd hj (hdel j)
      | publishRelayJob j => exact fun _ hj => absurd hj (hreq _)
      | _ => trivial
    | _ => trivial
  | lose | crash => exact hcalm.elim
  | finish | expire | tick => trivial

/-- The task is not a sweep. -/
def Task.serves : Task → Bool
  | .sweep => false
  | _ => true

/-- The job of a message that was just submitted has its body. -/
theorem body_available_submitted : ∃ c : Cluster,
    (∃ j, (.work, .job j) ∈ c.world.bus) ∧
      (∀ q j, (q, .job j) ∈ c.world.bus → q ≠ .dlq →
        (c.world.bodies j.bodyRef.key).isSome = true) ∧
      (∀ p ∈ c.procs, ∀ j, p.task = .deliver (.job j) → p.held ≠ none → p.phase.unsent = true →
        (c.world.bodies j.bodyRef.key).isSome = true) ∧
      ∀ p ∈ c.procs, ∀ key k, p.prog = .call (.ask (.get key)) k → p.held ≠ none →
        (c.world.bodies key).isSome = true := by
  have hplay : (Stage.script (plainSite anyReply) deliveringOracle {} submittedScript).any
      (fun s => (.work, .job (Ingress.relayJob (envelopeSession "a@s.test" ["b@r.test"]) "m1")) ∈
        s.world.bus) = true := by decide
  obtain ⟨s, hs, hend⟩ := (Option.any_eq_true _ _).mp hplay
  have hr : Reach (cluster (plainSite anyReply)) careful s.cluster := by
    refine Stage.script_reach Task.submits (by decide) (fun q hq s l c' _ _ _ hl hab => ?_)
      Stage.empty_reach (fun p hp => absurd hp List.not_mem_nil) hs
    exact careful_of_submits (Cue.calm_of_labels ((by decide : ∀ q ∈ submittedScript,
      q.isCalm = true) q hq) hl) hab
  exact ⟨s.cluster, ⟨_, of_decide_eq_true hend⟩, body_available hr⟩

/-- A message is submitted and requeued; a worker delivers one of its two jobs. -/
def requeuedDeliveredScript : List Cue :=
  submittedScript ++ [.start (.requeue "m1")] ++ Cue.calls 0 "" 3 ++
    [.start (.deliver (.job (Ingress.relayJob (envelopeSession "a@s.test" ["b@r.test"]) "m1")))] ++
      Cue.calls 0 "" 11

/-- Runs without the retention sweep. -/
def unswept (_ : Cluster) (l : Label) : Prop := l ≠ .start .sweep

/-- A requeued message leaves a job without a body. -/
theorem requeued_body_gone :
    ¬ ∀ (site : Site) (c : Cluster), Reach (cluster site) unswept c →
      ∀ q j, (q, .job j) ∈ c.world.bus → q ≠ .dlq →
        (c.world.bodies j.bodyRef.key).isSome = true := by
  intro hclaim
  have hplay : (Stage.script (plainSite anyReply) deliveringOracle {} requeuedDeliveredScript).any
      (fun s => (.work, .job (Ingress.relayJob (envelopeSession "a@s.test" ["b@r.test"]) "m1")) ∈
        s.world.bus ∧ s.world.bodies "m1" = none) = true := by decide
  obtain ⟨s, hs, hend⟩ := (Option.any_eq_true _ _).mp hplay
  obtain ⟨hmem, hgone⟩ := of_decide_eq_true hend
  have hr : Reach (cluster (plainSite anyReply)) unswept s.cluster := by
    refine Stage.script_reach Task.serves (by decide) (fun q hq s l c' _ _ _ hl hab => ?_)
      Stage.empty_reach (fun p hp => absurd hp List.not_mem_nil) hs
    rintro rfl
    cases hab
  have hbody := hclaim _ s.cluster hr _ _ hmem nofun
  have hnone : s.cluster.world.bodies "m1" = none := hgone
  rw [show (Ingress.relayJob _ _).bodyRef.key = "m1" from rfl, hnone] at hbody
  cases hbody

end Novamail

/-
  Who still needs the body of a message.

  A body is shared by every job of its message and by every handler that holds one.  For each id six
  figures are kept, each a sum over the jobs on the broker and the running tasks: how many own the
  message (a job, a consumer before it has moved it on, a producer), how many of these are
  producers, how many hold a delivery of it unacked, how many are on the delivery side of it, how
  many of these still need the body, and how many bounce generators run for it.  `Custody` is the
  invariant on the six; the lemmas say which changes keep it.
-/
import Mathlib.Algebra.Ring.Nat
import Mathlib.Algebra.BigOperators.Group.Multiset.Basic
import Mathlib.Algebra.Group.Pi.Basic
import Novamail.System.Fresh
import Novamail.System.Keys

namespace Novamail

open Novamail.Core

/-! ## The six figures -/

/-- What is counted of a message. -/
inductive Side where
  /-- Jobs, consumers that have not moved theirs on, and producers on their way. -/
  | own
  /-- Producers on their way. -/
  | coming
  /-- Consumers that hold an unacked delivery. -/
  | unacked
  /-- Jobs outside the DLQ, workers that hold one, and producers on their way. -/
  | near
  /-- Those of them that still need the body. -/
  | need
  /-- Running bounce generators, whether they still hold their delivery or not. -/
  | far
  deriving DecidableEq

/-- The id whose body is stored and whose job is not yet published. -/
def Phase.storing : Phase → Option MsgId
  | .stored id | .inserted id => some id
  | _ => none

/-- The phase has stored this id's body. -/
def Phase.stores (ph : Phase) (id : MsgId) : Nat := (decide (ph.storing = some id)).toNat

/-- No provider has reported Delivered. -/
def Phase.unsent : Phase → Bool
  | .sent | .closed => false
  | _ => true

/-- The task delivers a job with this id. -/
def Task.delivers (t : Task) (id : MsgId) : Bool :=
  match t with
  | .deliver w => w.carries id
  | _ => false

theorem Task.of_delivers {t : Task} {id : MsgId} (h : t.delivers id = true) :
    ∃ j, t = .deliver (.job j) ∧ j.messageID = id := by
  cases t with
  | deliver w =>
    cases w with
    | job j => exact ⟨j, rfl, of_decide_eq_true h⟩
    | garbage => cases h
  | _ => cases h

/-- The task generates the bounce of a job with this id. -/
def Task.bounces (t : Task) (id : MsgId) : Bool :=
  match t with
  | .bounce w => w.carries id
  | _ => false

theorem Task.of_bounces {t : Task} {id : MsgId} (h : t.bounces id = true) :
    ∃ j, t = .bounce (.job j) ∧ j.messageID = id := by
  cases t with
  | bounce w =>
    cases w with
    | job j => exact ⟨j, rfl, of_decide_eq_true h⟩
    | garbage => cases h
  | _ => cases h

/-- The figures of a job on the broker. -/
def jobFig (id : MsgId) (d : Queue × Wire) : Side → Nat
  | .own => (d.2.carries id).toNat
  | .near | .need => (d.2.carries id && d.1 ≠ .dlq).toNat
  | .coming | .unacked | .far => 0

/-- The figures of a task; `held` says whether it still holds its delivery. -/
def Task.fig (t : Task) (held : Bool) (ph : Phase) (id : MsgId) : Side → Nat
  | .own => (t.carries id && held && ph ≠ .moved).toNat + ph.carries id
  | .coming => ph.carries id
  | .unacked => (t.carries id && held).toNat
  | .near => (t.delivers id && held).toNat + ph.carries id
  | .need => (t.delivers id && held && ph.unsent).toNat + ph.stores id
  | .far => (t.bounces id).toNat

/-- The figures of the broker. -/
def World.fig (w : World) (id : MsgId) : Side → Nat := (w.bus.map (jobFig id)).sum

/-- The figures of a bag of tasks. -/
def procsFig (ps : Multiset Proc) (id : MsgId) : Side → Nat :=
  (ps.map fun p => p.task.fig p.held.isSome p.phase id).sum

/-- The figures of the deployment. -/
def Cluster.fig (c : Cluster) (id : MsgId) : Side → Nat := c.world.fig id + procsFig c.procs id

/-- **The invariant.**  One owner, one unacked delivery and none of a message that is still coming,
    nobody on the delivery side while a bounce generator runs, and a body for those who need it. -/
structure Custody (n : Side → Nat) (stored : Bool) : Prop where
  one : n .own ≤ 1
  solo : n .unacked ≤ 1
  new : 0 < n .coming → n .unacked = 0
  far : 0 < n .far → n .near = 0
  body : 0 < n .need → stored = true

/-! ## How the figures relate -/

theorem Task.carries_eq (t : Task) (id : MsgId) : t.carries id = (t.delivers id || t.bounces id) := by
  cases t with
  | deliver w => cases w <;> simp [Task.carries, Task.job, Task.delivers, Task.bounces, Wire.carries]
  | bounce w => cases w <;> simp [Task.carries, Task.job, Task.delivers, Task.bounces, Wire.carries]
  | _ => rfl

theorem Phase.stores_le (ph : Phase) (id : MsgId) : ph.stores id ≤ ph.carries id := by
  cases ph <;> first | exact Nat.le_refl _ | exact Nat.zero_le _

/-- The figures of one thing: producers are owners, those in need are on the delivery side, and those are owners or hold
    a delivery. -/
structure Ordered (n : Side → Nat) : Prop where
  coming : n .coming ≤ n .own
  need : n .need ≤ n .near
  near : n .near ≤ n .own + n .unacked

theorem Ordered.add {n m : Side → Nat} (hn : Ordered n) (hm : Ordered m) : Ordered (n + m) := by
  have h1 := hn.need
  have h2 := hn.near
  have h3 := hm.need
  have h4 := hm.near
  refine ⟨Nat.add_le_add hn.coming hm.coming, ?_, ?_⟩
  · show n .need + m .need ≤ n .near + m .near
    omega
  · show n .near + m .near ≤ n .own + m .own + (n .unacked + m .unacked)
    omega

theorem toNat_and_le (a b : Bool) : (a && b).toNat ≤ a.toNat := by cases a <;> cases b <;> decide

theorem jobFig_ordered (id : MsgId) (d : Queue × Wire) : Ordered (jobFig id d) where
  coming := Nat.zero_le _
  need := le_rfl
  near := (toNat_and_le _ _).trans (Nat.le_add_right _ _)

theorem Task.fig_ordered (t : Task) (held : Bool) (ph : Phase) (id : MsgId) :
    Ordered (t.fig held ph id) where
  coming := Nat.le_add_left _ _
  need := Nat.add_le_add (toNat_and_le _ _) (ph.stores_le id)
  near := by
    have hle : (t.delivers id && held).toNat ≤ (t.carries id && held).toNat := by
      rw [Task.carries_eq]
      cases t.delivers id <;> cases held <;> simp
    show (t.delivers id && held).toNat + ph.carries id ≤
      (t.carries id && held && decide (ph ≠ .moved)).toNat + ph.carries id +
        (t.carries id && held).toNat
    omega

theorem sum_ordered {α : Type} (f : α → Side → Nat) (hf : ∀ a, Ordered (f a)) (s : Multiset α) :
    Ordered (s.map f).sum := by
  induction s using Multiset.induction_on with
  | empty => exact ⟨le_rfl, le_rfl, Nat.zero_le _⟩
  | cons a s ih =>
    rw [Multiset.map_cons, Multiset.sum_cons]
    exact (hf a).add ih

theorem World.fig_ordered (w : World) (id : MsgId) : Ordered (w.fig id) :=
  sum_ordered _ (jobFig_ordered id) _

theorem procsFig_ordered (ps : Multiset Proc) (id : MsgId) : Ordered (procsFig ps id) :=
  sum_ordered _ (fun p => p.task.fig_ordered _ _ id) _

/-- The broker has no producers, holds no delivery and runs no generator. -/
theorem World.fig_idle (w : World) (id : MsgId) :
    w.fig id .coming = 0 ∧ w.fig id .unacked = 0 ∧ w.fig id .far = 0 := by
  unfold World.fig
  induction w.bus using Multiset.induction_on with
  | empty => exact ⟨rfl, rfl, rfl⟩
  | cons d s ih =>
    rw [Multiset.map_cons, Multiset.sum_cons]
    exact ⟨(Nat.zero_add _).trans ih.1, (Nat.zero_add _).trans ih.2.1,
      (Nat.zero_add _).trans ih.2.2⟩

theorem procsFig_cons (p : Proc) (ps : Multiset Proc) (id : MsgId) :
    procsFig (p ::ₘ ps) id = p.task.fig p.held.isSome p.phase id + procsFig ps id := by
  unfold procsFig
  rw [Multiset.map_cons, Multiset.sum_cons]

theorem World.fig_cons {w w' : World} {d : Queue × Wire} (h : w'.bus = d ::ₘ w.bus) (id : MsgId) :
    w'.fig id = jobFig id d + w.fig id := by
  unfold fig
  rw [h, Multiset.map_cons, Multiset.sum_cons]

theorem World.fig_erase {w w' : World} {d : Queue × Wire} (hd : d ∈ w.bus)
    (h : w'.bus = w.bus.erase d) (id : MsgId) : w.fig id = jobFig id d + w'.fig id := by
  have hw : w.bus = d ::ₘ w'.bus := by rw [h, Multiset.cons_erase hd]
  exact World.fig_cons hw id

/-- The broker after a write. -/
theorem World.fig_after (w : World) (t : Task) (wr : Write) (f : Fate) (id : MsgId) :
    (w.after t wr f).fig id =
      (if f.applied then wr.publishes.elim 0 (jobFig id) else 0) + w.fig id := by
  have hbus := w.after_bus t wr f
  cases hf : f.applied with
  | false =>
    rw [hf, if_neg Bool.false_ne_true] at hbus
    rw [if_neg Bool.false_ne_true, zero_add]
    unfold fig
    rw [hbus]
  | true =>
    rw [hf, if_pos rfl] at hbus
    rw [if_pos rfl]
    cases hp : wr.publishes with
    | none =>
      rw [hp] at hbus
      unfold fig
      rw [hbus]
      exact (zero_add _).symm
    | some d =>
      rw [hp] at hbus
      exact World.fig_cons hbus id

/-! ## Changes that keep custody -/

namespace Custody

variable {n n' : Side → Nat} {b b' : Bool}

/-- Fewer of everything, and the body is still there. -/
theorem mono (h : Custody n b) (hle : ∀ s, n' s ≤ n s) (hb : b = true → b' = true) :
    Custody n' b' where
  one := (hle _).trans h.one
  solo := (hle _).trans h.solo
  new hc := Nat.le_zero.mp (h.new (hc.trans_le (hle _)) ▸ hle _)
  far hf := Nat.le_zero.mp (h.far (hf.trans_le (hle _)) ▸ hle _)
  body hn := hb (h.body (hn.trans_le (hle _)))

/-- Fewer of everything, and nobody needs the body. -/
theorem drop (h : Custody n b) (hle : ∀ s, n' s ≤ n s) (hneed : n' .need = 0) : Custody n' b' where
  one := (hle _).trans h.one
  solo := (hle _).trans h.solo
  new hc := Nat.le_zero.mp (h.new (hc.trans_le (hle _)) ▸ hle _)
  far hf := Nat.le_zero.mp (h.far (hf.trans_le (hle _)) ▸ hle _)
  body hn := absurd hneed hn.ne'

end Custody

/-- The phase counts for no more than another. -/
structure Phase.Below (ph' ph : Phase) (id : MsgId) : Prop where
  carries : ph'.carries id ≤ ph.carries id
  stores : ph'.stores id ≤ ph.stores id
  moved : ph = .moved → ph' = .moved
  unsent : ph'.unsent = true → ph.unsent = true

theorem toNat_le_of_imp {a b : Bool} (h : a = true → b = true) : a.toNat ≤ b.toNat := by
  cases a with
  | false => exact Nat.zero_le _
  | true => rw [h rfl]

/-- A task's figures fall with its phase. -/
theorem Task.fig_le {t : Task} {held : Bool} {ph ph' : Phase} {id : MsgId}
    (h : ph'.Below ph id) (s : Side) : t.fig held ph' id s ≤ t.fig held ph id s := by
  cases s with
  | own =>
    refine Nat.add_le_add (toNat_le_of_imp fun hb => ?_) h.carries
    obtain ⟨hch, hm⟩ := Bool.and_eq_true_iff.mp hb
    exact Bool.and_eq_true_iff.mpr ⟨hch, decide_eq_true fun hc => of_decide_eq_true hm (h.moved hc)⟩
  | coming => exact h.carries
  | unacked => exact le_rfl
  | near => exact Nat.add_le_add_left h.carries _
  | need =>
    refine Nat.add_le_add (toNat_le_of_imp fun hb => ?_) h.stores
    obtain ⟨hdh, hu⟩ := Bool.and_eq_true_iff.mp hb
    exact Bool.and_eq_true_iff.mpr ⟨hdh, h.unsent hu⟩
  | far => exact le_rfl

/-- Without its delivery a task counts for no more than with it. -/
theorem Task.fig_lost_le {t : Task} {held : Bool} {ph : Phase} {id : MsgId} (s : Side) :
    t.fig false ph id s ≤ t.fig held ph id s := by
  cases s with
  | own =>
    refine Nat.add_le_add_right (toNat_le_of_imp fun hb => ?_) _
    rw [Bool.and_false, Bool.false_and] at hb
    cases hb
  | coming => exact le_rfl
  | unacked =>
    refine toNat_le_of_imp fun hb => ?_
    rw [Bool.and_false] at hb
    cases hb
  | near =>
    refine Nat.add_le_add_right (toNat_le_of_imp fun hb => ?_) _
    rw [Bool.and_false] at hb
    cases hb
  | need =>
    refine Nat.add_le_add_right (toNat_le_of_imp fun hb => ?_) _
    rw [Bool.and_false, Bool.false_and] at hb
    cases hb
  | far => exact le_rfl

/-- The broker is the same after a write that publishes nothing. -/
theorem World.fig_after_none {w : World} {t : Task} {wr : Write} {f : Fate} {id : MsgId}
    (hp : wr.publishes = none) : (w.after t wr f).fig id = w.fig id := by
  rw [fig_after, hp]
  show (if f.applied = true then 0 else 0) + w.fig id = w.fig id
  rw [ite_self, zero_add]

theorem World.fig_after_failed {w : World} {t : Task} {wr : Write} {f : Fate} {id : MsgId}
    (hf : f.applied = false) : (w.after t wr f).fig id = w.fig id := by
  rw [fig_after, hf, if_neg Bool.false_ne_true, zero_add]

theorem World.fig_after_publish {w : World} {t : Task} {wr : Write} {f : Fate} {id : MsgId}
    {d : Queue × Wire} (hp : wr.publishes = some d) (hf : f.applied = true) :
    (w.after t wr f).fig id = jobFig id d + w.fig id := by
  rw [fig_after, hf, if_pos rfl, hp]
  rfl

/-- A job of another message counts for nothing. -/
theorem jobFig_other {id : MsgId} {d : Queue × Wire} (h : d.2.carries id = false) (s : Side) :
    jobFig id d s = 0 := by
  cases s <;> simp [jobFig, h]

/-- What a task counts for, apart from its phase, is at most the delivery it holds. -/
theorem Task.fig_le_held (t : Task) (held : Bool) (ph : Phase) (id : MsgId) :
    t.fig held ph id .own ≤ t.fig held ph id .unacked + ph.carries id ∧
      t.fig held ph id .near ≤ t.fig held ph id .unacked + ph.carries id ∧
        t.fig held ph id .need ≤ t.fig held ph id .unacked + ph.stores id := by
  have hdel : (t.delivers id && held).toNat ≤ (t.carries id && held).toNat := by
    rw [Task.carries_eq]
    cases t.delivers id <;> cases held <;> simp
  refine ⟨Nat.add_le_add_right (toNat_and_le _ _) _, Nat.add_le_add_right hdel _, ?_⟩
  exact Nat.add_le_add_right ((toNat_and_le _ _).trans hdel) _

theorem World.after_bodies_of_ne {w : World} {t : Task} {wr : Write} {f : Fate} {k : String}
    (h : wr.bodyKey ≠ some k) : (w.after t wr f).bodies k = w.bodies k := by
  unfold after
  rw [record_bodies]
  split
  · exact Write.apply_bodies_of_ne h
  · rfl

theorem World.after_bodies_of_failed {w : World} {t : Task} {wr : Write} {f : Fate}
    (hf : f.applied = false) : (w.after t wr f).bodies = w.bodies := by
  unfold after
  rw [record_bodies, hf, if_neg Bool.false_ne_true]

theorem World.after_bodies_of_publish {w : World} {t : Task} {wr : Write} {f : Fate} {k : String}
    {d : Queue × Wire} (hp : wr.publishes = some d) : (w.after t wr f).bodies k = w.bodies k := by
  refine after_bodies_of_ne ?_
  cases wr with
  | publish => exact nofun
  | publishRelayJob => exact nofun
  | _ => cases hp

/-- A write that stores a body. -/
def Write.stores (wr : Write) (k : String) : Prop := ∃ b, wr = .put k b ∨ wr = .insertBody k b

/-- Storing a body leaves no body behind that was there, and the new one is there if it took
    effect. -/
theorem World.after_stores {w : World} {t : Task} {wr : Write} {f : Fate} {key : String}
    (h : wr.stores key) :
    (∀ k, (w.bodies k).isSome = true → ((w.after t wr f).bodies k).isSome = true) ∧
      (f.applied = true → ((w.after t wr f).bodies key).isSome = true) := by
  have hstored : f.applied = true → ((w.after t wr f).bodies key).isSome = true := by
    intro hf
    unfold after
    rw [record_bodies, hf, if_pos rfl]
    obtain ⟨b, rfl | rfl⟩ := h
    · exact congrArg Option.isSome (Function.update_self key (some b) w.bodies)
    · exact congrArg Option.isSome (Function.update_self key (some b) w.bodies)
  refine ⟨fun k hk => ?_, hstored⟩
  by_cases hkey : key = k
  · subst hkey
    cases hf : f.applied with
    | true => exact hstored hf
    | false =>
      unfold after
      rw [record_bodies, hf, if_neg Bool.false_ne_true]
      exact hk
  · rw [after_bodies_of_ne]
    · exact hk
    · obtain ⟨b, rfl | rfl⟩ := h <;> exact fun hc => hkey (Option.some_inj.mp hc)

/-- A settled task counts only as a running generator. -/
theorem Task.fig_done_le {t : Task} {held : Bool} {ph : Phase} {id : MsgId} (s : Side) :
    t.fig false .done id s ≤ t.fig held ph id s := by
  cases s with
  | far => exact le_rfl
  | coming => exact Nat.zero_le _
  | own | unacked | near | need =>
    simp [Task.fig, Phase.carries, Phase.stores, Phase.pending, Phase.storing]

/-- A delivery that goes back to the broker counts there for what it counted with its task. -/
theorem Task.fig_giveBack_le {t : Task} {d : Queue × Wire} {ph : Phase} {id : MsgId}
    (hd : t.delivery = some d) (hm : ph ≠ .moved) {s : Side}
    (hu : s = .need → ph.unsent = true ∨ d.1 = .dlq) :
    jobFig id d s + t.fig false ph id s ≤ t.fig true ph id s := by
  cases t with
  | deliver w =>
    cases hd
    have hu : s = .need → ph.unsent = true := fun hs => (hu hs).resolve_right nofun
    have hcar : (Task.deliver w).carries id = w.carries id := by
      rw [Task.carries_eq]
      exact Bool.or_false _
    cases s <;> simp_all [Task.fig, jobFig, Task.delivers, Task.bounces]
  | bounce w =>
    cases hd
    have hcar : (Task.bounce w).carries id = w.carries id := by
      rw [Task.carries_eq]
      exact Bool.false_or _
    cases s <;> simp [Task.fig, jobFig, hcar, Task.delivers, Task.bounces, hm]
  | _ => cases hd

end Novamail

/-
  Weighing a deployment.

  A tally gives every job on the broker and every running task a weight and adds the weights up.
  `Step.tally_le` is the one induction step behind every bound of this kind: a task that starts
  weighs no more than the delivery it takes, a job whose TTL is over weighs no more than before, and
  what a call adds is paid by what the step is allowed to cost.
-/
import Mathlib.Algebra.BigOperators.Group.Multiset.Basic
import Novamail.System.Cluster

namespace Novamail

open Novamail.Core

/-- The weight of a job on the broker, and of a running task. -/
structure Weights where
  job : Queue × Wire → Nat
  proc : Proc → Nat

/-- The weight of the jobs on the broker. -/
def World.tally (w : World) (g : Weights) : Nat := (w.bus.map g.job).sum

/-- The weight of some tasks. -/
def procsTally (ps : Multiset Proc) (g : Weights) : Nat := (ps.map g.proc).sum

/-- The weight of the deployment. -/
def Cluster.tally (c : Cluster) (g : Weights) : Nat := c.world.tally g + procsTally c.procs g

section
variable {g : Weights}

theorem procsTally_cons (p : Proc) (ps : Multiset Proc) (g : Weights) :
    procsTally (p ::ₘ ps) g = g.proc p + procsTally ps g := by
  unfold procsTally
  rw [Multiset.map_cons, Multiset.sum_cons]

theorem Cluster.tally_cons {c : Cluster} {p : Proc} {ps : Multiset Proc}
    (h : c.procs = p ::ₘ ps) (g : Weights) :
    c.tally g = c.world.tally g + (g.proc p + procsTally ps g) := by
  unfold tally
  rw [h, procsTally_cons]

namespace World

variable {w w' : World} {d : Queue × Wire}

theorem tally_congr (h : w'.bus = w.bus) (g : Weights) : w'.tally g = w.tally g := by
  unfold tally
  rw [h]

theorem tally_cons (h : w'.bus = d ::ₘ w.bus) (g : Weights) :
    w'.tally g = g.job d + w.tally g := by
  unfold tally
  rw [h, Multiset.map_cons, Multiset.sum_cons]

theorem tally_erase (hd : d ∈ w.bus) (h : w'.bus = w.bus.erase d) (g : Weights) :
    w.tally g = g.job d + w'.tally g := by
  have hw : w.bus = d ::ₘ w'.bus := by rw [h, Multiset.cons_erase hd]
  exact tally_cons hw g

/-- A delivery that is put back weighs again. -/
theorem tally_giveBack (w : World) (held : Option (Queue × Wire)) (g : Weights) :
    (w.giveBack held).tally g = held.elim 0 g.job + w.tally g := by
  cases held with
  | none => exact (Nat.zero_add _).symm
  | some d => exact tally_cons rfl g

/-- A publish adds the weight of its job, if it took effect; nothing else adds weight. -/
theorem tally_after (w : World) (t : Task) (wr : Write) (f : Fate) (g : Weights) :
    (w.after t wr f).tally g =
      (if f.applied then wr.publishes.elim 0 g.job else 0) + w.tally g := by
  have hbus := w.after_bus t wr f
  cases hf : f.applied with
  | false =>
    rw [hf, if_neg Bool.false_ne_true] at hbus
    rw [if_neg Bool.false_ne_true, Nat.zero_add]
    exact tally_congr hbus g
  | true =>
    rw [hf, if_pos rfl] at hbus
    rw [if_pos rfl]
    cases hp : wr.publishes with
    | none =>
      rw [hp] at hbus
      exact (tally_congr hbus g).trans (Nat.zero_add _).symm
    | some d =>
      rw [hp] at hbus
      exact tally_cons hbus g

/-- A task that starts takes its delivery off the broker. -/
theorem tally_starting {t : Task} (h : ∀ d, t.delivery = some d → d ∈ w.bus) (g : Weights) :
    w.tally g = t.delivery.elim 0 g.job + (w.starting t).tally g := by
  cases hd : t.delivery with
  | none =>
    refine (tally_congr ?_ g).symm.trans (Nat.zero_add _).symm
    unfold starting handOut
    rw [hd]
    rfl
  | some d =>
    refine tally_erase (h d hd) ?_ g
    unfold starting handOut
    rw [hd]
    rfl

end World

section
variable {site : Site} {ok : Cluster → Label → Prop} {c c' : Cluster} {l : Label}
  {cost gain : Nat}

/-- **What a step adds to a tally.**  `cost` is what the step uses up beside, `gain` what it is
    allowed to add. -/
theorem Step.tally_le (hst : Step site c l c') (g : Weights)
    (hidle : (∀ p o r f, l ≠ .op p o r f) → cost ≤ gain)
    (hstart : ∀ t, l = .start t → g.proc (t.launch site) ≤ t.delivery.elim 0 g.job)
    (hop : ∀ p o k r f n, l = .op p o r f → p ∈ c.procs → p.prog = .call o k →
      Exec site.net p.task (p.conf c.world) o r f n →
      cost + (n.world.tally g + g.proc (p.resume n (k r))) ≤
        gain + (c.world.tally g + g.proc p))
    (hexpire : ∀ q w, l = .expire q w → q.isWait = true → g.job (.work, w) ≤ g.job (q, w))
    (hlose : ∀ p, l = .lose p → p ∈ c.procs →
      p.held.elim 0 g.job + g.proc { p with held := none } ≤ g.proc p)
    (hcrash : ∀ p, l = .crash p → p ∈ c.procs → p.held.elim 0 g.job ≤ g.proc p) :
    cost + c'.tally g ≤ gain + c.tally g := by
  cases hst with
  | start t hd =>
    have hbus := World.tally_starting hd g
    have hown := hstart t rfl
    have hfree := hidle fun _ _ _ _ => Label.noConfusion
    show cost + ((c.world.starting t).tally g + procsTally (t.launch site ::ₘ c.procs) g) ≤
      gain + (c.world.tally g + procsTally c.procs g)
    rw [procsTally_cons]
    omega
  | @op p ps o k r f n hp hk hx =>
    have hin : p ∈ c.procs := hp ▸ Multiset.mem_cons_self _ _
    have hown := hop p o k r f n rfl hin hk hx
    rw [Cluster.tally_cons hp]
    show cost + (n.world.tally g + procsTally (p.resume n (k r) ::ₘ ps) g) ≤ _
    rw [procsTally_cons]
    omega
  | @finish p ps a hp hk =>
    have hfree := hidle fun _ _ _ _ => Label.noConfusion
    have hbus : (c.world.record (p.task.markEnd p.phase a)).tally g = c.world.tally g := rfl
    rw [Cluster.tally_cons hp]
    show cost + ((c.world.record (p.task.markEnd p.phase a)).tally g + procsTally ps g) ≤ _
    omega
  | @expire q w hq hm =>
    have hfree := hidle fun _ _ _ _ => Label.noConfusion
    have hless := hexpire q w rfl hq
    have herase : c.world.tally g = g.job (q, w) +
        World.tally { c.world with bus := c.world.bus.erase (q, w) } g := World.tally_erase hm rfl g
    have hcons : World.tally { c.world with bus := (.work, w) ::ₘ c.world.bus.erase (q, w) } g =
        g.job (.work, w) + World.tally { c.world with bus := c.world.bus.erase (q, w) } g :=
      World.tally_cons rfl g
    show cost + (World.tally { c.world with bus := (.work, w) ::ₘ c.world.bus.erase (q, w) } g +
      procsTally c.procs g) ≤ gain + (c.world.tally g + procsTally c.procs g)
    omega
  | @lose p ps hp hh =>
    have hin : p ∈ c.procs := hp ▸ Multiset.mem_cons_self _ _
    have hfree := hidle fun _ _ _ _ => Label.noConfusion
    have hown := hlose p rfl hin
    have hback := c.world.tally_giveBack p.held g
    rw [Cluster.tally_cons hp]
    show cost + ((c.world.giveBack p.held).tally g +
      procsTally ({ p with held := none } ::ₘ ps) g) ≤ _
    rw [procsTally_cons]
    omega
  | @crash p ps hp =>
    have hin : p ∈ c.procs := hp ▸ Multiset.mem_cons_self _ _
    have hfree := hidle fun _ _ _ _ => Label.noConfusion
    have hown := hcrash p rfl hin
    have hback := c.world.tally_giveBack p.held g
    rw [Cluster.tally_cons hp]
    show cost + ((c.world.giveBack p.held).tally g + procsTally ps g) ≤ _
    omega
  | tick n =>
    have hfree := hidle fun _ _ _ _ => Label.noConfusion
    show cost + c.tally g ≤ gain + c.tally g
    omega

end

end

end Novamail

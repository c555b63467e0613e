/-
  Handlers as single steps.

  `handlers site` is the deployment in which each run of a handler is one step: the world before,
  the whole program, the world after.  Between two steps nothing is running, so the state is the
  world alone.  `Whole.steps` shows every such step to be a run of `cluster site` that starts and
  ends with no task, hence that every run of whole handlers is a run of the interleaved deployment.
-/
import Novamail.System.Cluster

namespace Novamail

open Novamail.Core

/-- What a step of the whole-handler system was. -/
inductive WholeLabel where
  | run (t : Task)
  | expire (q : Queue) (w : Wire)
  | tick (n : Nat)

/-- One whole run of a handler, a TTL expiry, or the passing of time. -/
inductive Whole (site : Site) : World → WholeLabel → World → Prop where
  | run {w : World} {t : Task} {ok : Bool} {c : Conf}
      (h : ∀ d, t.delivery = some d → d ∈ w.bus)
      (hrun : Prog.Run (fun c o r c' => ∃ f, Exec site.net t c o r f c')
        ⟨w.starting t, t.delivery, .start⟩ (t.program site) ok c) :
      Whole site w (.run t) (c.world.record (t.markEnd c.phase ok))
  | expire {w : World} {q : Queue} {wire : Wire} (hq : q.isWait = true) (hm : (q, wire) ∈ w.bus) :
      Whole site w (.expire q wire) { w with bus := (.work, wire) ::ₘ w.bus.erase (q, wire) }
  | tick {w : World} (n : Nat) : Whole site w (.tick n) { w with clock := w.clock + n }

/-- The deployment with whole handlers as steps. -/
def handlers (site : Site) : LTS World WholeLabel where
  init w := w = {}
  step := Whole site

/-- No operator requeues a message. -/
def noRequeue : World → WholeLabel → Prop
  | _, .run (.requeue _) => False
  | _, _ => True

/-- The same in the interleaved deployment, and no process dies and no connection is lost. -/
def calmNoRequeue (c : Cluster) (l : Label) : Prop := calm c l ∧ ∀ id, l ≠ .start (.requeue id)

/-- A guard that lets tasks call and end, TTLs expire and time pass. -/
def Permits (ok : Cluster → Label → Prop) : Prop :=
  ∀ c l, calm c l → (∀ t, l ≠ .start t) → ok c l

theorem permits_calmNoRequeue : Permits calmNoRequeue := fun _ _ h hs => ⟨h, fun _ => hs _⟩

section
variable {site : Site} {ok : Cluster → Label → Prop}

/-- A program run without interruption is a run of the deployment, whatever else is running. -/
theorem run_steps (hok : Permits ok) (p : Proc) (ps : Multiset Proc) {c c' : Conf}
    {m : Handler Bool} {a : Bool}
    (h : Prog.Run (fun c o r c' => ∃ f, Exec site.net p.task c o r f c') c m a c') :
    Steps (cluster site) ok ⟨c.world, p.resume c m ::ₘ ps⟩
      ⟨c'.world, p.resume c' (.pure a) ::ₘ ps⟩ := by
  induction h with
  | pure => exact .refl _
  | @call s s' s'' o k r a head rest ih =>
    obtain ⟨f, hx⟩ := head
    have hst : Step site ⟨s.world, p.resume s (.call o k) ::ₘ ps⟩
        (.op (p.resume s (.call o k)) o r f) ⟨s'.world, p.resume s' (k r) ::ₘ ps⟩ :=
      Step.op (p := p.resume s (.call o k)) rfl rfl hx
    exact .head (hok _ (.op (p.resume s (.call o k)) o r f) trivial fun _ => Label.noConfusion)
      hst ih

/-- **A step of the whole-handler system is a run of the deployment** from rest to rest. -/
theorem Whole.steps (hok : Permits ok) {w w' : World} {l : WholeLabel} (h : Whole site w l w')
    (hl : ∀ t, l = .run t → ∀ c, ok c (.start t)) :
    Steps (cluster site) ok ⟨w, 0⟩ ⟨w', 0⟩ := by
  cases h with
  | @run t a c hd hrun =>
    have hstart : Step site ⟨w, 0⟩ (.start t) ⟨w.starting t, t.launch site ::ₘ 0⟩ := .start t hd
    have hbody := run_steps hok (t.launch site) 0 hrun
    have hfinish : Step site ⟨c.world, (t.launch site).resume c (.pure a) ::ₘ 0⟩
        (.finish ((t.launch site).resume c (.pure a)) a)
        ⟨c.world.record (t.markEnd c.phase a), 0⟩ := .finish rfl rfl
    refine .head (hl t rfl _) hstart (hbody.trans ?_)
    exact .one (hok _ (.finish ((t.launch site).resume c (.pure a)) a) trivial
      fun _ => Label.noConfusion) hfinish
  | @expire q wire hq hm =>
    have hst : Step site ⟨w, 0⟩ (.expire q wire)
        ⟨{ w with bus := (.work, wire) ::ₘ w.bus.erase (q, wire) }, 0⟩ := .expire hq hm
    exact .one (hok _ (.expire q wire) trivial fun _ => Label.noConfusion) hst
  | tick n =>
    have hst : Step site ⟨w, 0⟩ (.tick n) ⟨{ w with clock := w.clock + n }, 0⟩ := .tick n
    exact .one (hok _ (.tick n) trivial fun _ => Label.noConfusion) hst

/-- **Runs of whole handlers are runs of the deployment.** -/
theorem handlers_reach {okw : World → WholeLabel → Prop} (hok : Permits ok)
    (hstart : ∀ w t, okw w (.run t) → ∀ c, ok c (.start t)) {w : World}
    (h : Reach (handlers site) okw w) : Reach (cluster site) ok ⟨w, 0⟩ := by
  induction h with
  | init hs =>
    subst hs
    exact .init rfl
  | step _ hokw hst ih => exact ih.trans (Whole.steps hok hst fun t ht => hstart _ t (ht ▸ hokw))

end

/-- Runs of whole handlers without requeues are calm runs of the deployment without requeues. -/
theorem handlers_noRequeue {site : Site} {w : World} (h : Reach (handlers site) noRequeue w) :
    Reach (cluster site) calmNoRequeue ⟨w, 0⟩ := by
  refine handlers_reach permits_calmNoRequeue (fun w t ht c => ⟨trivial, fun id he => ?_⟩) h
  cases he
  exact ht

end Novamail

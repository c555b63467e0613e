/-
  Any number of programs over one shared state.

  A service starts tasks; each task is a program, and the programs interleave call by call.  What a
  call answers and does to the shared state is the service's to say (`exec`), with a mark `F` for
  how it went that the caller need not be told.  `world` is what happens to the state by itself.

  Beside its program a running task carries a history, kept by a discipline: the program does not
  read it, results and invariants do.  `Service.obeys` is the rule that connects the two: if every
  program obeys the discipline from its start, every running program obeys it from its history.
-/
import Mathlib.Data.Multiset.AddSub
import Novamail.Core.Prog
import Novamail.Core.System

namespace Novamail.Core

/-- What a service runs: tasks `T` with calls `Op`, marks `F`, results `A` and histories `H`, over
    a state `S` to which also `E` can happen. -/
structure Service (S T : Type) {Op : Type} (Ret : Op → Type) (F E A H : Type) where
  /-- The states it may begin in. -/
  init : S → Prop
  /-- The tasks that may start. -/
  starts : S → T → Prop
  /-- The program of a task. -/
  body : T → Prog Ret A
  /-- A call of a task: its answer, how it went, and the state after it. -/
  exec : S → T → (o : Op) → Ret o → F → S → Prop
  /-- What happens by itself. -/
  world : S → E → S → Prop
  /-- What a task may call, and the history its calls leave. -/
  discipline : T → Discipline Ret H
  /-- The history of a task that starts. -/
  birth : T → H

variable {S T Op : Type} {Ret : Op → Type} {F E A H : Type}

/-- A running task. -/
structure Running (T : Type) {Op : Type} (Ret : Op → Type) (A H : Type) where
  task : T
  past : H
  rest : Prog Ret A

/-- The shared state and the running tasks. -/
structure Pool (S T : Type) {Op : Type} (Ret : Op → Type) (A H : Type) where
  shared : S
  running : Multiset (Running T Ret A H)

/-- No task is running. -/
def Pool.Quiet (p : Pool S T Ret A H) : Prop := p.running = 0

/-- What a step was. -/
inductive Act (T : Type) {Op : Type} (Ret : Op → Type) (F E A H : Type) where
  | start (t : T)
  | call (r : Running T Ret A H) (o : Op) (a : Ret o) (f : F)
  | finish (r : Running T Ret A H) (a : A)
  | world (e : E)

namespace Service

variable (V : Service S T Ret F E A H)

/-- A task that was just started. -/
def launch (t : T) : Running T Ret A H := { task := t, past := V.birth t, rest := V.body t }

/-- A task after a call. -/
def resume (r : Running T Ret A H) (o : Op) (a : Ret o) (rest : Prog Ret A) :
    Running T Ret A H :=
  { r with past := (V.discipline r.task).next r.past o a, rest := rest }

/-- One step of a pool. -/
inductive Step : Pool S T Ret A H → Act T Ret F E A H → Pool S T Ret A H → Prop where
  | start {p : Pool S T Ret A H} {t : T} (h : V.starts p.shared t) :
      Step p (.start t) ⟨p.shared, V.launch t ::ₘ p.running⟩
  | call {p : Pool S T Ret A H} {r : Running T Ret A H} {rs : Multiset (Running T Ret A H)}
      {o : Op} {k : Ret o → Prog Ret A} {a : Ret o} {f : F} {s : S} (hr : p.running = r ::ₘ rs)
      (hk : r.rest = .call o k) (hx : V.exec p.shared r.task o a f s) :
      Step p (.call r o a f) ⟨s, V.resume r o a (k a) ::ₘ rs⟩
  | finish {p : Pool S T Ret A H} {r : Running T Ret A H} {rs : Multiset (Running T Ret A H)}
      {a : A} (hr : p.running = r ::ₘ rs) (hk : r.rest = .pure a) :
      Step p (.finish r a) ⟨p.shared, rs⟩
  | world {p : Pool S T Ret A H} {e : E} {s : S} (h : V.world p.shared e s) :
      Step p (.world e) { p with shared := s }

/-- The pool as a transition system, from no running tasks. -/
def lts : LTS (Pool S T Ret A H) (Act T Ret F E A H) where
  init p := V.init p.shared ∧ p.Quiet
  step := V.Step

variable {V} {ok : Pool S T Ret A H → Act T Ret F E A H → Prop}

/-- **The invariant rule for running tasks.**  What a task has when it starts, keeps over its own
    calls, and keeps while anything else happens to the state, every running task has. -/
theorem running_invariant {Q : S → Running T Ret A H → Prop}
    (hstart : ∀ {p : Pool S T Ret A H} {t : T}, Reach V.lts ok p → V.starts p.shared t →
      Q p.shared (V.launch t))
    (hcall : ∀ {p : Pool S T Ret A H} {r : Running T Ret A H} {o : Op} {k : Ret o → Prog Ret A}
      {a : Ret o} {f : F} {s : S}, Reach V.lts ok p → ok p (.call r o a f) → r ∈ p.running →
      r.rest = .call o k → V.exec p.shared r.task o a f s → Q p.shared r →
      Q s (V.resume r o a (k a)))
    (hother : ∀ {p p' : Pool S T Ret A H} {l : Act T Ret F E A H} {r : Running T Ret A H},
      Reach V.lts ok p → ok p l → V.Step p l p' → r ∈ p.running → Q p.shared r → Q p'.shared r)
    {p : Pool S T Ret A H} (h : Reach V.lts ok p) : ∀ r ∈ p.running, Q p.shared r := by
  refine h.invariant (I := fun p => ∀ r ∈ p.running, Q p.shared r) ?_ ?_
  · intro p hinit r hr
    rw [show p.running = 0 from hinit.2] at hr
    exact absurd hr (Multiset.notMem_zero r)
  · intro p l p' hreach ih hok hst r hr
    have hkeep := fun r' hr' => hother (r := r') hreach hok hst hr' (ih r' hr')
    cases hst with
    | start h =>
      rcases Multiset.mem_cons.mp hr with rfl | hr
      · exact hstart (p := p) hreach h
      · exact hkeep r hr
    | @call r₀ rs o k a f s hr₀ hk hx =>
      rcases Multiset.mem_cons.mp hr with rfl | hr
      · have hmem : r₀ ∈ p.running := hr₀ ▸ Multiset.mem_cons_self r₀ rs
        exact hcall hreach hok hmem hk hx (ih r₀ hmem)
      · exact hkeep r (hr₀ ▸ Multiset.mem_cons_of_mem hr)
    | finish hr₀ hk => exact hkeep r (hr₀ ▸ Multiset.mem_cons_of_mem hr)
    | world h => exact hkeep r hr

/-- What every task has that may start, every running task has. -/
theorem tasks_invariant {Q : T → Prop} (hstart : ∀ s t, V.starts s t → Q t)
    {p : Pool S T Ret A H} (h : Reach V.lts ok p) : ∀ r ∈ p.running, Q r.task := by
  refine running_invariant (Q := fun _ r => Q r.task) ?_ ?_ ?_ h
  · intro p t _ hs
    exact hstart _ _ hs
  · intro p r o k a f s _ _ _ _ _ hq
    exact hq
  · intro p p' l r _ _ _ _ hq
    exact hq

/-- A running task obeys its discipline. -/
def Obeys (V : Service S T Ret F E A H) (fin : T → H → A → Prop) (r : Running T Ret A H) : Prop :=
  r.rest.Obeys (V.discipline r.task) (fin r.task) r.past

/-- **Every running program obeys its discipline**, if every program does from its start. -/
theorem obeys (fin : T → H → A → Prop)
    (hbody : ∀ t, (V.body t).Obeys (V.discipline t) (fin t) (V.birth t)) {p : Pool S T Ret A H}
    (h : Reach V.lts ok p) : ∀ r ∈ p.running, V.Obeys fin r := by
  refine running_invariant (Q := fun _ r => V.Obeys fin r) ?_ ?_ ?_ h
  · intro p t _ _
    exact hbody t
  · intro p r o k a f s _ _ _ hk _ hob
    rw [Obeys, hk] at hob
    exact hob.2 a
  · intro p p' l r _ _ _ _ hob
    exact hob

/-- The next call of a running program is one that its discipline allows. -/
theorem Obeys.allows {fin : T → H → A → Prop} {r : Running T Ret A H} {o : Op}
    {k : Ret o → Prog Ret A} (h : V.Obeys fin r) (hk : r.rest = .call o k) :
    (V.discipline r.task).allow r.past o := by
  rw [Obeys, hk] at h
  exact h.1

/-- The result of a running program is one that its discipline allows. -/
theorem Obeys.result {fin : T → H → A → Prop} {r : Running T Ret A H} {a : A}
    (h : V.Obeys fin r) (hk : r.rest = .pure a) : fin r.task r.past a := by
  rw [Obeys, hk] at h
  exact h

/-! ## A task alone -/

/-- A task that runs through while no other does, every call of it permitted by the guard. -/
inductive Solo (V : Service S T Ret F E A H) (ok : Pool S T Ret A H → Act T Ret F E A H → Prop)
    (t : T) : S → H → Prog Ret A → A → S → Prop where
  | pure {s : S} {h : H} {a : A} : Solo V ok t s h (.pure a) a s
  | call {s s' s'' : S} {h : H} {o : Op} {k : Ret o → Prog Ret A} {a : Ret o} {f : F} {b : A}
      (hok : ∀ r : Running T Ret A H, r.task = t → r.past = h → ok ⟨s, {r}⟩ (.call r o a f))
      (hx : V.exec s t o a f s')
      (rest : Solo V ok t s' ((V.discipline t).next h o a) (k a) b s'') :
      Solo V ok t s h (.call o k) b s''

theorem Solo.running {t : T} {s s' : S} {h : H} {m : Prog Ret A} {b : A}
    (hsolo : Solo V ok t s h m b s') (hend : ∀ p r a, ok p (.finish r a)) :
    ∀ ls, Trace V.lts ok ls ⟨s, {⟨t, h, m⟩}⟩ →
      ∃ ls' r, r.task = t ∧ .finish r b ∈ ls' ∧ Trace V.lts ok (ls ++ ls') ⟨s', 0⟩ := by
  induction hsolo with
  | @pure s h a =>
    intro ls htr
    exact ⟨[.finish ⟨t, h, .pure a⟩ a], _, rfl, List.mem_singleton_self _,
      htr.step (hend _ _ _) (.finish rfl rfl)⟩
  | call hok hx _ ih =>
    intro ls htr
    obtain ⟨ls', r, ht, hmem, htr'⟩ := ih _ (htr.step (hok _ rfl rfl) (.call rfl rfl hx))
    rw [List.append_assoc] at htr'
    exact ⟨_, r, ht, List.mem_append_right _ hmem, htr'⟩

/-- A run to a state without running tasks goes on with a task that runs alone. -/
theorem Solo.trace {t : T} {s s' : S} {b : A} (hsolo : Solo V ok t s (V.birth t) (V.body t) b s')
    (hstart : V.starts s t) (hbegin : ok ⟨s, 0⟩ (.start t)) (hend : ∀ p r a, ok p (.finish r a))
    {ls : List (Act T Ret F E A H)} (htr : Trace V.lts ok ls ⟨s, 0⟩) :
    ∃ ls' r, r.task = t ∧ .finish r b ∈ ls' ∧ Trace V.lts ok (ls ++ ls') ⟨s', 0⟩ := by
  obtain ⟨ls', r, ht, hmem, htr'⟩ := hsolo.running hend _ (htr.step hbegin (.start hstart))
  rw [List.append_assoc] at htr'
  exact ⟨_, r, ht, List.mem_append_right _ hmem, htr'⟩

/-- A task that is the only one makes its next call. -/
theorem Alone.call {s s' : S} {t : T} {h : H} {o : Op} {k : Ret o → Prog Ret A}
    (hr : Reach V.lts ok ⟨s, {⟨t, h, .call o k⟩}⟩) (a : Ret o) (f : F)
    (hok : ok ⟨s, {⟨t, h, .call o k⟩}⟩ (.call ⟨t, h, .call o k⟩ o a f))
    (hx : V.exec s t o a f s') :
    Reach V.lts ok ⟨s', {⟨t, (V.discipline t).next h o a, k a⟩}⟩ :=
  hr.step hok (Step.call (V := V) (Multiset.cons_zero _).symm rfl hx)

/-- A task that is the only one ends. -/
theorem Alone.finish {s : S} {t : T} {h : H} {a : A}
    (hr : Reach V.lts ok ⟨s, {⟨t, h, .pure a⟩}⟩)
    (hok : ok ⟨s, {⟨t, h, .pure a⟩}⟩ (.finish ⟨t, h, .pure a⟩ a)) : Reach V.lts ok ⟨s, 0⟩ :=
  hr.step hok (Step.finish (V := V) (Multiset.cons_zero _).symm rfl)

end Service

end Novamail.Core

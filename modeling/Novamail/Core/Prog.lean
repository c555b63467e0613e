/-
  Programs that talk to an environment, as trees.

  A handler of a distributed system is a sequence of calls (read the store, write a row, publish,
  acknowledge) whose answers it cannot predict.  `Prog Ret α` is the tree of everything such a
  handler can do: a leaf is a result, a node is one call `o` with one branch for every answer
  `r : Ret o`.  The tree is the syntax; what a call does is decided later, by whoever runs it:

  * `Prog.eval`   — run against fixed answers (a pure function of the answers);
  * `Prog.Run`    — run to completion in a state that the calls change, any legal answer allowed;
  * `Prog.Makes`  — on SOME path the program makes this call;
  * `Prog.Obeys`  — on EVERY path each call is permitted by a `Discipline`, a small automaton
    that remembers what the run has done so far, and every result is acceptable at its end.

  `Obeys` is the reason the tree exists: it is proved once for a handler, by walking its text, and
  every invariant of a system that interleaves handlers is then derived from the discipline alone,
  never from the handler.  The rules below follow the constructors: `obeys_pure`, `obeys_call`,
  and `Obeys.bind` for a handler that calls another.
-/
import Mathlib.Logic.Basic

namespace Novamail.Core

/-- A program over calls `o : Op` with answers in `Ret o`, ending in an `α`. -/
inductive Prog {Op : Type} (Ret : Op → Type) (α : Type) : Type where
  /-- The program has ended with this result. -/
  | pure (a : α) : Prog Ret α
  /-- The program makes the call `o` and goes on with `k` at the answer. -/
  | call (o : Op) (k : Ret o → Prog Ret α) : Prog Ret α

namespace Prog

variable {Op : Type} {Ret : Op → Type} {α β γ : Type}

/-! ## The monad -/

/-- Sequencing: graft `f` on every leaf. -/
protected def bind : Prog Ret α → (α → Prog Ret β) → Prog Ret β
  | .pure a, f => f a
  | .call o k, f => .call o fun r => (k r).bind f

instance : Monad (Prog Ret) where
  pure := Prog.pure
  bind := Prog.bind

/-- The program that makes one call and returns its answer. -/
def lift (o : Op) : Prog Ret (Ret o) := .call o .pure

theorem bind_pure_right (m : Prog Ret α) : Prog.bind m Prog.pure = m := by
  induction m with
  | pure a => rfl
  | call o k ih =>
    show Prog.call o (fun r => (k r).bind Prog.pure) = Prog.call o k
    rw [funext ih]

theorem bind_bind (m : Prog Ret α) (f : α → Prog Ret β) (g : β → Prog Ret γ) :
    Prog.bind (Prog.bind m f) g = Prog.bind m fun a => Prog.bind (f a) g := by
  induction m with
  | pure a => rfl
  | call o k ih =>
    show Prog.call o (fun r => ((k r).bind f).bind g) = Prog.call o _
    rw [funext ih]

instance : LawfulMonad (Prog Ret) :=
  LawfulMonad.mk' (Prog Ret) bind_pure_right (fun _ _ => rfl) bind_bind

@[simp] theorem call_bind (o : Op) (k : Ret o → Prog Ret α) (f : α → Prog Ret β) :
    Prog.call o k >>= f = Prog.call o fun r => k r >>= f := rfl

@[simp] theorem lift_bind (o : Op) (f : Ret o → Prog Ret β) :
    lift o >>= f = Prog.call o f := rfl

/-! ## Running against fixed answers -/

/-- The result when every call `o` is answered by `ans o`. -/
def eval (ans : (o : Op) → Ret o) : Prog Ret α → α
  | .pure a => a
  | .call o k => (k (ans o)).eval ans

@[simp] theorem eval_pure (ans : (o : Op) → Ret o) (a : α) :
    (Pure.pure a : Prog Ret α).eval ans = a := rfl

@[simp] theorem eval_call (ans : (o : Op) → Ret o) (o : Op) (k : Ret o → Prog Ret α) :
    (Prog.call o k).eval ans = (k (ans o)).eval ans := rfl

@[simp] theorem eval_lift (ans : (o : Op) → Ret o) (o : Op) :
    (lift o : Prog Ret (Ret o)).eval ans = ans o := rfl

@[simp] theorem eval_bind (ans : (o : Op) → Ret o) (m : Prog Ret α) (f : α → Prog Ret β) :
    (m >>= f).eval ans = (f (m.eval ans)).eval ans := by
  induction m with
  | pure a => rfl
  | call o k ih => exact ih (ans o)

/-! ## Running in a state -/

/-- `m.Run exec s a s'`: from `s`, with each call taking a step of `exec`, `m` can end with the
    result `a` in the state `s'`. -/
inductive Run {S : Type} (exec : S → (o : Op) → Ret o → S → Prop) :
    S → Prog Ret α → α → S → Prop where
  | pure {s : S} {a : α} : Run exec s (.pure a) a s
  | call {s s' s'' : S} {o : Op} {k : Ret o → Prog Ret α} {r : Ret o} {a : α}
      (head : exec s o r s') (rest : Run exec s' (k r) a s'') : Run exec s (.call o k) a s''

/-- A run starts with the first call. -/
theorem Run.of_lift_bind {S : Type} {exec : S → (o : Op) → Ret o → S → Prop} {o : Op}
    {f : Ret o → Prog Ret α} {s s' : S} {a : α} (h : Run exec s (lift o >>= f) a s') :
    ∃ r s₁, exec s o r s₁ ∧ Run exec s₁ (f r) a s' := by
  have hcall : Run exec s (Prog.call o f) a s' := h
  cases hcall with
  | call head rest => exact ⟨_, _, head, rest⟩

/-- A program that has ended changes nothing. -/
theorem Run.of_pure {S : Type} {exec : S → (o : Op) → Ret o → S → Prop} {s s' : S} {a b : α}
    (h : Run exec s (Pure.pure a : Prog Ret α) b s') : a = b ∧ s = s' := by
  have hpure : Run exec s (Prog.pure a : Prog Ret α) b s' := h
  cases hpure
  exact ⟨rfl, rfl⟩

/-- `m.Transcript es a`: `m` can make these calls, with these answers, and end with `a`. -/
inductive Transcript : Prog Ret α → List (Σ o : Op, Ret o) → α → Prop where
  | pure (a : α) : Transcript (.pure a) [] a
  | call {o : Op} {k : Ret o → Prog Ret α} (r : Ret o) {es : List (Σ o : Op, Ret o)} {a : α}
      (rest : Transcript (k r) es a) : Transcript (.call o k) (⟨o, r⟩ :: es) a

/-- One call. -/
theorem Transcript.one (o : Op) (r : Ret o) : (lift o : Prog Ret (Ret o)).Transcript [⟨o, r⟩] r :=
  .call r (.pure r)

/-- One call in front. -/
theorem Transcript.lift_bind {o : Op} {f : Ret o → Prog Ret α} {r : Ret o}
    {es : List (Σ o : Op, Ret o)} {a : α} (h : (f r).Transcript es a) :
    (lift o >>= f).Transcript (⟨o, r⟩ :: es) a := .call r h

/-- A transcript starts with the first call. -/
theorem Transcript.of_lift_bind {o : Op} {f : Ret o → Prog Ret α} {es : List (Σ o : Op, Ret o)}
    {a : α} (h : (lift o >>= f).Transcript es a) :
    ∃ r es', es = ⟨o, r⟩ :: es' ∧ (f r).Transcript es' a := by
  have hcall : (Prog.call o f).Transcript es a := h
  cases hcall with
  | call r rest => exact ⟨r, _, rfl, rest⟩

/-- A program that has ended makes no call. -/
theorem Transcript.of_pure {a b : α} {es : List (Σ o : Op, Ret o)}
    (h : (Pure.pure a : Prog Ret α).Transcript es b) : es = [] := by
  have hpure : (Prog.pure a : Prog Ret α).Transcript es b := h
  cases hpure
  rfl

/-- One program behind another. -/
theorem Transcript.bind {m : Prog Ret α} {f : α → Prog Ret β} {es es' : List (Σ o : Op, Ret o)}
    {a : α} {b : β} (hm : m.Transcript es a) (hf : (f a).Transcript es' b) :
    (m >>= f).Transcript (es ++ es') b := by
  induction hm with
  | pure a => exact hf
  | call r rest ih => exact .call r (ih hf)

/-- Some path of the program makes the call. -/
inductive Makes : Prog Ret α → Op → Prop where
  | here {o : Op} {k : Ret o → Prog Ret α} : Makes (.call o k) o
  | later {o o' : Op} {k : Ret o → Prog Ret α} (r : Ret o) (h : Makes (k r) o') :
      Makes (.call o k) o'

/-! ## Disciplines -/

end Prog

/-- What a handler may do: `allow h o` permits the call `o` after the history `h`, and `next`
    records the call and its answer. -/
structure Discipline {Op : Type} (Ret : Op → Type) (Hist : Type) where
  /-- The call is permitted after this history. -/
  allow : Hist → Op → Prop
  /-- The history after the call got this answer. -/
  next : Hist → (o : Op) → Ret o → Hist

namespace Prog

variable {Op : Type} {Ret : Op → Type} {α β : Type} {Hist : Type}

/-- From the history `h`, every call on every path is permitted and every result satisfies `fin`
    at the history it is reached with. -/
def Obeys (D : Discipline Ret Hist) (fin : Hist → α → Prop) : Hist → Prog Ret α → Prop
  | h, .pure a => fin h a
  | h, .call o k => D.allow h o ∧ ∀ r, (k r).Obeys D fin (D.next h o r)

variable {D : Discipline Ret Hist}

@[simp] theorem obeys_pure {fin : Hist → α → Prop} {h : Hist} {a : α} :
    (Pure.pure a : Prog Ret α).Obeys D fin h ↔ fin h a := Iff.rfl

@[simp] theorem obeys_call {fin : Hist → α → Prop} {h : Hist} {o : Op} {k : Ret o → Prog Ret α} :
    (Prog.call o k).Obeys D fin h ↔ D.allow h o ∧ ∀ r, (k r).Obeys D fin (D.next h o r) :=
  Iff.rfl

@[simp] theorem obeys_lift {o : Op} {fin : Hist → Ret o → Prop} {h : Hist} :
    (lift o : Prog Ret (Ret o)).Obeys D fin h ↔
      D.allow h o ∧ ∀ r, fin (D.next h o r) r := Iff.rfl

theorem obeys_lift_bind {o : Op} {f : Ret o → Prog Ret β} {fin : Hist → β → Prop} {h : Hist} :
    (lift o >>= f).Obeys D fin h ↔ D.allow h o ∧ ∀ r, (f r).Obeys D fin (D.next h o r) := Iff.rfl

/-- The sequencing rule: `m` ends in histories and results from which `f` goes on. -/
theorem Obeys.bind {mid : Hist → α → Prop} {fin : Hist → β → Prop} {m : Prog Ret α}
    {f : α → Prog Ret β} {h : Hist} (hm : m.Obeys D mid h)
    (hf : ∀ h' a, mid h' a → (f a).Obeys D fin h') : (m >>= f).Obeys D fin h := by
  induction m generalizing h with
  | pure a => exact hf h a hm
  | call o k ih => exact ⟨hm.1, fun r => ih r (hm.2 r)⟩

/-- What holds at the end of every path holds of every transcript. -/
theorem Obeys.transcript {fin : Hist → α → Prop} {m : Prog Ret α} {es : List (Σ o : Op, Ret o)}
    {a : α} (ht : m.Transcript es a) :
    ∀ {h : Hist}, m.Obeys D fin h → fin (es.foldl (fun h e => D.next h e.1 e.2) h) a := by
  induction ht with
  | pure a => exact fun hm => hm
  | call r _ ih => exact fun hm => ih (hm.2 r)

/-- A call that some path makes is permitted after some history. -/
theorem Obeys.allows {fin : Hist → α → Prop} {m : Prog Ret α} {o : Op} (hmk : m.Makes o) :
    ∀ {h : Hist}, m.Obeys D fin h → ∃ h', D.allow h' o := by
  induction hmk with
  | here => exact fun hm => ⟨_, hm.1⟩
  | later r _ ih => exact fun hm => ih (hm.2 r)

/-- The consequence rule. -/
theorem Obeys.mono {fin fin' : Hist → α → Prop} {m : Prog Ret α} {h : Hist}
    (hm : m.Obeys D fin h) (himp : ∀ h' a, fin h' a → fin' h' a) : m.Obeys D fin' h := by
  induction m generalizing h with
  | pure a => exact himp h a hm
  | call o k ih => exact ⟨hm.1, fun r => ih r (hm.2 r)⟩

end Prog

/-- Two disciplines side by side. -/
def Discipline.prod {Op : Type} {Ret : Op → Type} {H₁ H₂ : Type} (D₁ : Discipline Ret H₁)
    (D₂ : Discipline Ret H₂) : Discipline Ret (H₁ × H₂) where
  allow h o := D₁.allow h.1 o ∧ D₂.allow h.2 o
  next h o r := (D₁.next h.1 o r, D₂.next h.2 o r)

/-- The conjunction rule: a program that obeys both disciplines obeys their product. -/
theorem Prog.Obeys.prod {Op : Type} {Ret : Op → Type} {α H₁ H₂ : Type} {D₁ : Discipline Ret H₁}
    {D₂ : Discipline Ret H₂} {fin₁ : H₁ → α → Prop} {fin₂ : H₂ → α → Prop} {m : Prog Ret α}
    {h₁ : H₁} {h₂ : H₂} (hm₁ : m.Obeys D₁ fin₁ h₁) (hm₂ : m.Obeys D₂ fin₂ h₂) :
    m.Obeys (D₁.prod D₂) (fun h a => fin₁ h.1 a ∧ fin₂ h.2 a) (h₁, h₂) := by
  induction m generalizing h₁ h₂ with
  | pure a => exact ⟨hm₁, hm₂⟩
  | call o k ih => exact ⟨⟨hm₁.1, hm₂.1⟩, fun r => ih r (hm₁.2 r) (hm₂.2 r)⟩

end Novamail.Core

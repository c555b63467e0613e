/-
  Labelled transition systems and the two induction rules every safety result here uses.

  A system has initial states and labelled steps.  `Reach T ok s` says that a run of `T` in which
  every step satisfies the guard `ok` ends in `s`; with `ok` true everywhere it is plain
  reachability, and with a smaller `ok` it is "in every run whose steps all meet the condition".
  `Steps` is the unlabelled-at-the-ends companion: a guarded run from one state to another.
  `Trace T ok ls s` also says which steps the run took: `ls` are its labels, in order.  It is for
  statements about what happened on the way to `s`, which `s` need not remember.
-/
import Mathlib.Logic.Basic

namespace Novamail.Core

/-- A labelled transition system. -/
structure LTS (S L : Type) where
  /-- The states a run may start in. -/
  init : S → Prop
  /-- The steps. -/
  step : S → L → S → Prop

variable {S L : Type}

/-- `s` ends a run of `T` all of whose steps satisfy `ok`. -/
inductive Reach (T : LTS S L) (ok : S → L → Prop) : S → Prop where
  | init {s : S} (hs : T.init s) : Reach T ok s
  | step {s s' : S} {l : L} (hr : Reach T ok s) (hok : ok s l) (hst : T.step s l s') :
      Reach T ok s'

/-- A run from `s` to `s'` all of whose steps satisfy `ok`. -/
inductive Steps (T : LTS S L) (ok : S → L → Prop) : S → S → Prop where
  | refl (s : S) : Steps T ok s s
  | head {s s' s'' : S} {l : L} (hok : ok s l) (hst : T.step s l s') (h : Steps T ok s' s'') :
      Steps T ok s s''

/-- A run that ends in `s`, all of whose steps satisfy `ok`, with the labels of its steps. -/
inductive Trace (T : LTS S L) (ok : S → L → Prop) : List L → S → Prop where
  | init {s : S} (hs : T.init s) : Trace T ok [] s
  | step {ls : List L} {s s' : S} {l : L} (ht : Trace T ok ls s) (hok : ok s l)
      (hst : T.step s l s') : Trace T ok (ls ++ [l]) s'

/-- A run from one state to another, with the labels of its steps. -/
inductive Path (step : S → L → S → Prop) : S → List L → S → Prop where
  | nil (s : S) : Path step s [] s
  | cons {s s' s'' : S} {l : L} {ls : List L} (hst : step s l s') (h : Path step s' ls s'') :
      Path step s (l :: ls) s''

/-- The guard that permits every step. -/
def anyStep : S → L → Prop := fun _ _ => True

namespace Reach

variable {T : LTS S L} {ok ok' : S → L → Prop}

/-- **The invariant rule.**  What holds initially and is kept by every guarded step from a state
    that was itself reached holds in every reached state. -/
theorem invariant {I : S → Prop} (h0 : ∀ s, T.init s → I s)
    (hstep : ∀ s l s', Reach T ok s → I s → ok s l → T.step s l s' → I s') {s : S}
    (h : Reach T ok s) : I s := by
  induction h with
  | init hs => exact h0 _ hs
  | step hr hok hst ih => exact hstep _ _ _ hr ih hok hst

/-- A weaker guard reaches at least as much. -/
theorem mono (himp : ∀ s l, ok s l → ok' s l) {s : S} (h : Reach T ok s) : Reach T ok' s := by
  induction h with
  | init hs => exact .init hs
  | step _ hok hst ih => exact .step ih (himp _ _ hok) hst

/-- A run can be extended by a run. -/
theorem trans {s s' : S} (h : Reach T ok s) (hs : Steps T ok s s') : Reach T ok s' := by
  induction hs with
  | refl => exact h
  | head hok hst _ ih => exact ih (.step h hok hst)

end Reach

namespace Trace

variable {T : LTS S L} {ok ok' : S → L → Prop}

theorem reach {ls : List L} {s : S} (h : Trace T ok ls s) : Reach T ok s := by
  induction h with
  | init hs => exact .init hs
  | step _ hok hst ih => exact .step ih hok hst

/-- The invariant rule for what relates a state to the run that led to it. -/
theorem invariant {I : List L → S → Prop} (h0 : ∀ s, T.init s → I [] s)
    (hstep : ∀ ls s l s', Trace T ok ls s → I ls s → ok s l → T.step s l s' → I (ls ++ [l]) s')
    {ls : List L} {s : S} (h : Trace T ok ls s) : I ls s := by
  induction h with
  | init hs => exact h0 _ hs
  | step ht hok hst ih => exact hstep _ _ _ _ ht ih hok hst

/-- Every label of a run was a step from a state that an earlier part of the run had reached. -/
theorem of_mem {ls : List L} {s : S} (h : Trace T ok ls s) {l : L} (hl : l ∈ ls) :
    ∃ ls₁ s₁ s₂, ls₁ ⊆ ls ∧ Trace T ok ls₁ s₁ ∧ ok s₁ l ∧ T.step s₁ l s₂ := by
  induction h with
  | init => cases hl
  | @step ls s s' l' ht hok hst ih =>
    rcases List.mem_append.mp hl with hl | hl
    · obtain ⟨ls₁, s₁, s₂, hsub, hrest⟩ := ih hl
      exact ⟨ls₁, s₁, s₂, List.Subset.trans hsub (List.subset_append_left ls [l']), hrest⟩
    · cases List.mem_singleton.mp hl
      exact ⟨ls, s, s', List.subset_append_left ls [l], ht, hok, hst⟩

end Trace

namespace Path

variable {step : S → L → S → Prop}

/-- What every step of a run keeps, the run keeps. -/
theorem keeps {I : S → Prop} {s s' : S} {ls : List L} (h : Path step s ls s')
    (hstep : ∀ l ∈ ls, ∀ s s', step s l s' → I s → I s') (hI : I s) : I s' := by
  induction h with
  | nil s => exact hI
  | cons hst _ ih =>
    exact ih (fun l hl => hstep l (List.mem_cons_of_mem _ hl))
      (hstep _ List.mem_cons_self _ _ hst hI)

theorem append {s s' s'' : S} {ls ls' : List L} (h : Path step s ls s')
    (h' : Path step s' ls' s'') : Path step s (ls ++ ls') s'' := by
  induction h with
  | nil s => exact h'
  | cons hst _ ih => exact .cons hst (ih h')

end Path

/-- A run can be extended by one from where it ends. -/
theorem Trace.extend {T : LTS S L} {ls ls' : List L} {s s' : S} (h : Trace T anyStep ls s)
    (hpath : Path T.step s ls' s') : Trace T anyStep (ls ++ ls') s' := by
  induction hpath generalizing ls with
  | nil s =>
    rw [List.append_nil]
    exact h
  | cons hst _ ih =>
    rw [List.append_cons]
    exact ih (h.step trivial hst)

/-- Every reached state ends some run. -/
theorem Reach.trace {T : LTS S L} {ok : S → L → Prop} {s : S} (h : Reach T ok s) :
    ∃ ls, Trace T ok ls s := by
  induction h with
  | init hs => exact ⟨[], .init hs⟩
  | step _ hok hst ih =>
    obtain ⟨ls, ht⟩ := ih
    exact ⟨_, .step ht hok hst⟩

namespace Steps

variable {T : LTS S L} {ok : S → L → Prop}

theorem one {s s' : S} {l : L} (hok : ok s l) (hst : T.step s l s') : Steps T ok s s' :=
  .head hok hst (.refl s')

theorem trans {s s' s'' : S} (h : Steps T ok s s') (h' : Steps T ok s' s'') :
    Steps T ok s s'' := by
  induction h with
  | refl => exact h'
  | head hok hst _ ih => exact .head hok hst (ih h')

end Steps

end Novamail.Core

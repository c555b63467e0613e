/-
  First match in a list, when the order of the list is not known.

  A table is read in some order, its rows are turned into entries (a row may give none), and the
  first entry that applies decides.  The decision depends on the order if and only if two entries
  that apply disagree.
-/
import Mathlib.Data.List.Perm.Basic

namespace Novamail.Core

variable {α β : Type}

/-- The decision of the first entry that applies; no entry, no. -/
def decideFirst (p f : α → Bool) (l : List α) : Bool := (l.find? p).any f

/-- The first entry of a list that applies decides at once. -/
theorem decideFirst_cons {p f : α → Bool} {a : α} (l : List α) (h : p a = true) :
    decideFirst p f (a :: l) = f a := by
  unfold decideFirst
  rw [List.find?_cons_of_pos h]
  rfl

/-- Entries that agree decide alike in every order. -/
theorem decideFirst_perm {p f : α → Bool} {l l' : List α} (hperm : l'.Perm l)
    (hagree : ∀ a ∈ l, ∀ b ∈ l, p a = true → p b = true → f a = f b) :
    decideFirst p f l' = decideFirst p f l := by
  unfold decideFirst
  cases h : l.find? p with
  | none =>
    have hnone : l'.find? p = none :=
      List.find?_eq_none.mpr fun a ha => List.find?_eq_none.mp h a (hperm.subset ha)
    rw [hnone]
  | some a =>
    cases h' : l'.find? p with
    | none =>
      have hno := List.find?_eq_none.mp h' a (hperm.symm.subset (List.mem_of_find?_eq_some h))
      exact absurd (List.find?_some h) hno
    | some b =>
      exact hagree b (hperm.subset (List.mem_of_find?_eq_some h')) a (List.mem_of_find?_eq_some h)
        (List.find?_some h') (List.find?_some h)

/-- A row that gives an entry can be read first. -/
theorem exists_perm_filterMap [DecidableEq β] {g : β → Option α} {rows : List β} {a : α}
    (h : a ∈ rows.filterMap g) :
    ∃ (rows' : List β) (rest : List α), rows'.Perm rows ∧ rows'.filterMap g = a :: rest := by
  obtain ⟨r, hr, hg⟩ := List.mem_filterMap.mp h
  exact ⟨r :: rows.erase r, _, (List.perm_cons_erase hr).symm, List.filterMap_cons_some hg⟩

/-- **When the order does not matter.**  The decision is the same for every order of the rows iff
    any two entries that apply agree. -/
theorem decideFirst_order [DecidableEq β] {g : β → Option α} {rows : List β} {p f : α → Bool} :
    (∀ rows' : List β, rows'.Perm rows →
      decideFirst p f (rows'.filterMap g) = decideFirst p f (rows.filterMap g)) ↔
      ∀ a ∈ rows.filterMap g, ∀ b ∈ rows.filterMap g, p a = true → p b = true → f a = f b := by
  constructor
  · intro hsame a ha b hb hpa hpb
    obtain ⟨rowsa, resta, hperma, ha⟩ := exists_perm_filterMap ha
    obtain ⟨rowsb, restb, hpermb, hb⟩ := exists_perm_filterMap hb
    calc f a = decideFirst p f (rowsa.filterMap g) := by rw [ha, decideFirst_cons resta hpa]
      _ = decideFirst p f (rowsb.filterMap g) := (hsame _ hperma).trans (hsame _ hpermb).symm
      _ = f b := by rw [hb, decideFirst_cons restb hpb]
  · intro hagree rows' hperm
    exact decideFirst_perm (hperm.filterMap g) hagree

end Novamail.Core

/-
  A debounced edge detector, over any type of values.

  The detector is fed one value at a time.  It keeps the value it announced last, and a candidate
  with a count; a value other than the announced one is announced once it has come `k` times in a
  row.  The first value is the baseline: it counts as announced, without an announcement.

  What the detector does is said by the input alone: it announces exactly at the places where the
  last `k` values are equal and differ from the value announced last (`fires_iff`).
-/
import Mathlib.Logic.Basic
import Mathlib.Order.Basic

namespace Novamail.Core.Debounce

variable {α : Type} [DecidableEq α]

/-- What is kept between two values. -/
structure Detector (α : Type) where
  last : α
  pending : Option α := none
  count : Nat := 0
  deriving DecidableEq, Repr

/-- One value: the detector after it, and the value announced before, if this one is announced. -/
def feed (k : Nat) (now : α) : Option (Detector α) → Detector α × Option α
  | none => ({ last := now }, none)
  | some d =>
    if now = d.last then ({ d with pending := none, count := 0 }, none)
    else
      let count := if some now = d.pending then d.count + 1 else 1
      if count < k then ({ d with pending := some now, count := count }, none)
      else ({ last := now }, some d.last)

section

variable {k : Nat} {now : α} {d : Detector α}

/-- The announced value again: the candidate is dropped. -/
theorem feed_same (h : now = d.last) :
    feed k now (some d) = ({ d with pending := none, count := 0 }, none) := if_pos h

/-- A candidate that has not come often enough. -/
theorem feed_few (h : now ≠ d.last) {c : Nat}
    (hc : (if some now = d.pending then d.count + 1 else 1) = c) (hfew : c < k) :
    feed k now (some d) = ({ d with pending := some now, count := c }, none) := by
  subst hc
  exact (if_neg h).trans (if_pos hfew)

/-- A candidate that has. -/
theorem feed_fires (h : now ≠ d.last) {c : Nat}
    (hc : (if some now = d.pending then d.count + 1 else 1) = c) (henough : ¬c < k) :
    feed k now (some d) = ({ last := now }, some d.last) := by
  subst hc
  exact (if_neg h).trans (if_neg henough)

end

variable (k : Nat) (s : Nat → α)

/-- The detector before the value `i`, from no detector. -/
def detector : Nat → Option (Detector α)
  | 0 => none
  | i + 1 => some (feed k (s i) (detector i)).1

/-- What is announced at the value `i`: the value announced before. -/
def fires (i : Nat) : Option α := (feed k (s i) (detector k s i)).2

/-- The value announced last before `i`; the baseline where there was none. -/
def announced : Nat → α
  | 0 => s 0
  | i + 1 => if (fires k s i).isSome then s i else announced i

/-- How many values in a row, ending with `i`, are equal. -/
def streak : Nat → Nat
  | 0 => 1
  | i + 1 => if s (i + 1) = s i then streak i + 1 else 1

theorem streak_pos (i : Nat) : 0 < streak s i := by
  cases i with
  | zero => exact Nat.one_pos
  | succ i =>
    unfold streak
    split <;> omega

/-- Two in a row. -/
theorem two_le_streak (i : Nat) : 2 ≤ streak s i ↔ 0 < i ∧ s i = s (i - 1) := by
  cases i with
  | zero => simp [streak]
  | succ i =>
    have hpos := streak_pos s i
    simp only [streak, Nat.add_sub_cancel]
    split
    · rename_i hsame
      constructor
      · intro _
        exact ⟨by omega, hsame⟩
      · intro _
        omega
    · rename_i hdiff
      constructor
      · intro h
        omega
      · intro h
        exact absurd h.2 hdiff

/-- The detector after the value `i`: it has announced what was announced last, and its candidate is
    the present value with its streak, unless that is the announced one. -/
structure Tracks (i : Nat) (d : Detector α) : Prop where
  last : d.last = announced k s (i + 1)
  settled : d.pending = none → s i = d.last
  pending : ∀ x, d.pending = some x → x = s i ∧ x ≠ d.last ∧ d.count = streak s i ∧ d.count < k

variable {k s}

/-- At a value that is not the announced one, the count is its streak. -/
theorem Tracks.count {i : Nat} {d : Detector α} (h : Tracks k s i d) (hne : s (i + 1) ≠ d.last) :
    (if some (s (i + 1)) = d.pending then d.count + 1 else 1) = streak s (i + 1) := by
  unfold streak
  cases hp : d.pending with
  | none =>
    -- the value before was the announced one
    have hdiff : s (i + 1) ≠ s i := by
      rw [h.settled hp]
      exact hne
    rw [if_neg hdiff, if_neg (by simp)]
  | some x =>
    obtain ⟨rfl, -, hcount, -⟩ := h.pending x hp
    by_cases hsame : s (i + 1) = s i
    · rw [if_pos hsame, if_pos (congrArg some hsame), hcount]
    · rw [if_neg hsame, if_neg (by simpa using hsame)]

/-- The detector tracks the input, and what it does at the value `i` is read off the input: with the
    candidate's count at least `k`, it announces. -/
theorem tracks (i : Nat) :
    Tracks k s i (feed k (s i) (detector k s i)).1 ∧
      fires k s i = if s i ≠ announced k s i ∧ k ≤ streak s i then some (announced k s i) else none := by
  induction i with
  | zero =>
    have hfires : fires k s 0 = none := rfl
    refine ⟨⟨?_, fun _ => rfl, nofun⟩, ?_⟩
    · show s 0 = announced k s 1
      unfold announced
      rw [hfires]
      rfl
    · rw [hfires, if_neg (by simp [announced])]
  | succ i ih =>
    obtain ⟨htracks, -⟩ := ih
    have hdet : detector k s (i + 1) = some (feed k (s i) (detector k s i)).1 := rfl
    generalize hd : (feed k (s i) (detector k s i)).1 = d at htracks hdet
    have hlast := htracks.last
    have hfires : fires k s (i + 1) = (feed k (s (i + 1)) (some d)).2 := by
      unfold fires
      rw [hdet]
    have hnext : announced k s (i + 2) =
        if (fires k s (i + 1)).isSome then s (i + 1) else announced k s (i + 1) := rfl
    rw [hdet]
    by_cases hsame : s (i + 1) = d.last
    · rw [hfires, feed_same hsame] at hnext ⊢
      refine ⟨⟨?_, fun _ => hsame, nofun⟩, ?_⟩
      · rw [hnext]
        exact hlast
      · rw [if_neg (by rw [← hlast]; simp [hsame])]
    · have hcount := htracks.count hsame
      by_cases hfew : streak s (i + 1) < k
      · rw [hfires, feed_few hsame hcount hfew] at hnext ⊢
        refine ⟨⟨?_, nofun, ?_⟩, ?_⟩
        · rw [hnext]
          exact hlast
        · rintro x hx
          cases hx
          exact ⟨rfl, hsame, rfl, hfew⟩
        · rw [if_neg (by omega)]
      · rw [hfires, feed_fires hsame hcount hfew] at hnext ⊢
        refine ⟨⟨?_, fun _ => rfl, nofun⟩, ?_⟩
        · rw [hnext]
          rfl
        · rw [hlast] at hsame ⊢
          rw [if_pos ⟨hsame, by omega⟩]

/-- **Exactly the debounced edges are announced**, with the value announced before. -/
theorem fires_iff (i : Nat) (was : α) :
    fires k s i = some was ↔ s i ≠ announced k s i ∧ k ≤ streak s i ∧ was = announced k s i := by
  rw [(tracks i).2]
  split
  · rename_i h
    rw [Option.some.injEq, eq_comm]
    exact ⟨fun hw => ⟨h.1, h.2, hw⟩, fun hw => hw.2.2⟩
  · rename_i h
    constructor
    · intro hw
      cases hw
    · intro hw
      exact absurd ⟨hw.1, hw.2.1⟩ h

theorem fires_isSome_iff (i : Nat) :
    (fires k s i).isSome ↔ s i ≠ announced k s i ∧ k ≤ streak s i := by
  rw [(tracks i).2]
  split
  · rename_i h
    exact iff_of_true rfl h
  · rename_i h
    exact iff_of_false Bool.false_ne_true h

/-- **No lasting change is missed**: after `k` equal values the value is the announced one. -/
theorem announced_of_streak {i : Nat} (h : k ≤ streak s i) :
    announced k s (i + 1) = s i := by
  show (if (fires k s i).isSome then s i else announced k s i) = s i
  by_cases hsome : (fires k s i).isSome
  · rw [if_pos hsome]
  · rw [if_neg hsome]
    by_contra hne
    exact hsome ((fires_isSome_iff i).mpr ⟨fun heq => hne heq.symm, h⟩)

/-- Between two announcements the announced value stands. -/
theorem announced_stands {i j : Nat} (hij : i < j) (hi : (fires k s i).isSome)
    (hbetween : ∀ m, i < m → m < j → fires k s m = none) : announced k s j = s i := by
  induction j with
  | zero => omega
  | succ j ih =>
    show (if (fires k s j).isSome then s j else announced k s j) = s i
    rcases Nat.lt_or_eq_of_le (Nat.le_of_lt_succ hij) with hlt | rfl
    · rw [hbetween j hlt (by omega)]
      exact ih hlt fun m hm hmj => hbetween m hm (by omega)
    · rw [if_pos hi]

end Novamail.Core.Debounce

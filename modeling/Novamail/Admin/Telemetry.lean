/-
  `telemetry.ts`: the figures of the dashboard, from the events of the last 24 hours.

  `recent` is the part of `message_events` that the window selects.  An event has no time here, so
  the hour of one is a parameter.
-/
import Mathlib.Algebra.BigOperators.Group.Finset.Piecewise
import Mathlib.Algebra.Order.Round
import Mathlib.Data.Rat.Floor
import Mathlib.Tactic.FieldSimp
import Mathlib.Tactic.Linarith
import Novamail.World.State

namespace Novamail.Admin

/-- `by[kind] ?? 0`: `SELECT kind, count(*) … GROUP BY kind`. -/
def byKind (recent : List MessageEvent) (kind : EventKind) : Nat := recent.countP (·.kind = kind)

/-- `acceptRate`, in percent. -/
def acceptRate (relayed bounced : Nat) : ℚ :=
  if relayed + bounced > 0 then (relayed / (relayed + bounced)) * 100 else 100

/-- `Math.round(x * 100) / 100`. -/
def hundredths (x : ℚ) : ℚ := round (x * 100) / 100

/-- The array of `S` that a kind is added to; there is none for `queued`. -/
def seriesOf : EventKind → Option EventKind
  | .failed => some .bounced
  | .queued => none
  | kind => some kind

/-- `S`: the events of each hour, in the series of their kind. -/
def series (hour : MessageEvent → Nat) (recent : List MessageEvent) (kind : EventKind) (h : Nat) :
    Nat :=
  recent.countP fun e => hour e = h ∧ seriesOf e.kind = some kind

/-- What `getMetrics` answers of the events. -/
structure Metrics where
  relayed24h : Nat
  deferred24h : Nat
  bounced24h : Nat
  acceptRate : ℚ

/-- `getMetrics`. -/
def getMetrics (recent : List MessageEvent) : Metrics :=
  let relayed := byKind recent .relayed
  let deferred := byKind recent .deferred
  let bounced := byKind recent .bounced + byKind recent .failed
  { relayed24h := relayed, deferred24h := deferred, bounced24h := bounced
    acceptRate := hundredths (Admin.acceptRate relayed bounced) }

/-! ## The rate -/

/-- Nothing bounced, nothing is lost. -/
theorem acceptRate_zero (relayed : Nat) : acceptRate relayed 0 = 100 := by
  unfold acceptRate
  by_cases h : relayed + 0 > 0
  · rw [if_pos h]
    have hpos : (relayed : ℚ) ≠ 0 := Nat.cast_ne_zero.mpr (by omega)
    rw [Nat.cast_zero, add_zero, div_self hpos, one_mul]
  · rw [if_neg h]

/-- Otherwise the rate tells the relayed messages apart. -/
theorem acceptRate_eq_iff (r r' b : Nat) : acceptRate r b = acceptRate r' b ↔ b = 0 ∨ r = r' := by
  constructor
  · intro h
    rcases Nat.eq_zero_or_pos b with hb | hb
    · exact .inl hb
    · refine .inr ?_
      have hbq : (0 : ℚ) < b := Nat.cast_pos.mpr hb
      have hden : ∀ n : Nat, (n : ℚ) + b ≠ 0 := fun n => by positivity
      unfold acceptRate at h
      rw [if_pos (by omega), if_pos (by omega), mul_left_inj' (by norm_num),
        div_eq_div_iff (hden r) (hden r')] at h
      have hmul : (r : ℚ) * b = r' * b := by linarith
      exact Nat.cast_injective (mul_right_cancel₀ hbq.ne' hmul)
  · rintro (rfl | rfl)
    · rw [acceptRate_zero, acceptRate_zero]
    · rfl

/-! ## The series -/

/-- Counting hour by hour counts everything. -/
theorem sum_countP_hour {n : Nat} (hour : MessageEvent → Nat) (P : MessageEvent → Bool)
    (recent : List MessageEvent) (hhour : ∀ e ∈ recent, hour e < n) :
    ∑ h ∈ Finset.range n, recent.countP (fun e => hour e = h ∧ P e) = recent.countP P := by
  induction recent with
  | nil => exact Finset.sum_const_zero
  | cons e es ih =>
    have hone : ∑ h ∈ Finset.range n, (if decide (hour e = h ∧ P e) = true then 1 else 0) =
        if P e = true then 1 else 0 := by
      cases P e with
      | true =>
        simp only [and_true, decide_eq_true_eq, if_true]
        rw [Finset.sum_ite_eq, if_pos (Finset.mem_range.mpr (hhour e List.mem_cons_self))]
      | false => simp
    simp only [List.countP_cons, Finset.sum_add_distrib]
    rw [ih fun e he => hhour e (List.mem_cons_of_mem _ he), hone]

/-- The bounced series adds up to the bounced figure. -/
theorem series_bounced (hour : MessageEvent → Nat) (recent : List MessageEvent)
    (hhour : ∀ e ∈ recent, hour e < 24) :
    ∑ h ∈ Finset.range 24, series hour recent .bounced h = (getMetrics recent).bounced24h := by
  have hsum := sum_countP_hour hour (fun e => seriesOf e.kind = some .bounced) recent hhour
  simp only [decide_eq_true_eq] at hsum
  refine hsum.trans ?_
  show recent.countP _ = recent.countP _ + recent.countP _
  clear hsum hhour
  induction recent with
  | nil => rfl
  | cons e es ih =>
    simp only [List.countP_cons, ih]
    cases e.kind with
    | bounced | failed => simp [seriesOf]; omega
    | _ => simp [seriesOf]

end Novamail.Admin

/-
  Token buckets with reservations, over exact time.

  A bucket holds at most `burst` tokens and gains `limit` of them per unit of time.  A reservation
  takes one token at once, also when there is none: the bucket then owes it, and the reservation may
  only be used once the debt is paid (`timeToAct`).  A reservation that is not used is cancelled,
  which gives its token back unless a later reservation already counts on it (`lastEvent`).

  Everything follows from one quantity.  Refilled without a cap, a bucket with `x` tokens at the
  time `t` would have had none at `t - x / limit`.  A reservation moves that time on by `1 / limit`,
  and the time it moves it to is the SLOT of the reservation.  Slots of live reservations are
  `1 / limit` apart, and a reservation is used at most `(burst - 1) / limit` after its slot; so a
  window of length `T` has room for `burst + limit * T` of them (`Booked.window`).
-/
import Mathlib.Algebra.Order.Field.Basic
import Mathlib.Tactic.Linarith
import Mathlib.Tactic.FieldSimp
import Mathlib.Tactic.Ring

namespace Novamail.Core

/-- A token bucket. -/
structure TokenBucket (K : Type) where
  limit : K
  burst : K
  /-- The tokens at the time `last`; negative when tokens are owed. -/
  tokens : K
  last : K
  /-- The time to act of the latest reservation. -/
  lastEvent : K

/-- A reservation of one token. -/
structure Reservation (K : Type) where
  slot : K
  timeToAct : K

variable {K : Type} [Field K] [LinearOrder K]

namespace TokenBucket

/-! ## The operations -/

/-- A new bucket is full. -/
def new (limit burst : K) : TokenBucket K := ⟨limit, burst, burst, 0, 0⟩

/-- The tokens in the bucket at the time `t`. -/
def level (b : TokenBucket K) (t : K) : K := min b.burst (b.tokens + max (t - b.last) 0 * b.limit)

/-- How long a reservation that leaves so many tokens has to wait. -/
def wait (b : TokenBucket K) (tokens : K) : K := if tokens < 0 then -tokens / b.limit else 0

/-- Reserve a token at the time `t`. -/
def reserve (b : TokenBucket K) (t : K) : Reservation K × TokenBucket K :=
  let tokens := b.level t - 1
  let r : Reservation K := ⟨t - tokens / b.limit, t + b.wait tokens⟩
  (r, { b with tokens := tokens, last := t, lastEvent := r.timeToAct })

/-- The tokens to give back for a reservation: none for those reserved after it. -/
def restore (b : TokenBucket K) (r : Reservation K) : K :=
  1 - (b.lastEvent - r.timeToAct) * b.limit

/-- Cancel a reservation at the time `t`. -/
def cancel (b : TokenBucket K) (r : Reservation K) (t : K) : TokenBucket K :=
  if r.timeToAct < t ∨ b.restore r ≤ 0 then b
  else
    { b with
      tokens := min b.burst (b.level t + b.restore r)
      last := t
      lastEvent :=
        if r.timeToAct = b.lastEvent ∧ t ≤ r.timeToAct - 1 / b.limit then
          r.timeToAct - 1 / b.limit
        else b.lastEvent }

/-- When the bucket, refilled without a cap, would have had no token. -/
def empty (b : TokenBucket K) (t : K) : K := t - b.level t / b.limit

section
variable {b : TokenBucket K} {t t' : K}

theorem level_le_burst : b.level t ≤ b.burst := min_le_left ..

/-- At the time of the last change the level is what was put there. -/
theorem level_last (h : b.tokens ≤ b.burst) : b.level b.last = b.tokens := by
  unfold level
  rw [sub_self, max_self, zero_mul, add_zero, min_eq_right h]

variable [IsStrictOrderedRing K]

/-- A new bucket stays full. -/
theorem level_new {limit burst : K} (hlimit : 0 ≤ limit) :
    (TokenBucket.new limit burst).level t = burst :=
  min_eq_left (le_add_of_nonneg_right (mul_nonneg (le_max_right ..) hlimit))

/-- A bucket gains no more than its rate. -/
theorem level_le (hlimit : 0 < b.limit) (h : t ≤ t') :
    b.level t' ≤ b.level t + (t' - t) * b.limit := by
  have hgain : 0 ≤ (t' - t) * b.limit := mul_nonneg (sub_nonneg.mpr h) hlimit.le
  have hmax : max (t' - b.last) 0 ≤ max (t - b.last) 0 + (t' - t) := by
    rcases le_total t' b.last with hle | hle
    · rw [max_eq_right (sub_nonpos.mpr hle)]
      exact add_nonneg (le_max_right ..) (sub_nonneg.mpr h)
    · rw [max_eq_left (sub_nonneg.mpr hle)]
      have := le_max_left (t - b.last) 0
      linarith
  have hmul := mul_le_mul_of_nonneg_right hmax hlimit.le
  rw [add_mul] at hmul
  unfold level
  rw [← min_add_add_right]
  exact le_min ((min_le_left ..).trans (le_add_of_nonneg_right hgain))
    ((min_le_right ..).trans (by linarith))

/-- As time passes, the bucket runs no further ahead. -/
theorem empty_mono (hlimit : 0 < b.limit) (h : t ≤ t') : b.empty t ≤ b.empty t' := by
  have hle := level_le hlimit h
  have hdiv : b.level t' / b.limit ≤ b.level t / b.limit + (t' - t) := by
    rw [div_add' _ _ _ hlimit.ne', div_le_div_iff_of_pos_right hlimit]
    exact hle
  unfold empty
  linarith

/-- The bucket is at most full. -/
theorem le_empty (hlimit : 0 < b.limit) : t - b.burst / b.limit ≤ b.empty t := by
  have hdiv := (div_le_div_iff_of_pos_right hlimit).mpr (level_le_burst (b := b) (t := t))
  unfold empty
  linarith

end

/-! ## Reserving -/

section
variable (b : TokenBucket K) (t : K)

@[simp] theorem reserve_limit : (b.reserve t).2.limit = b.limit := rfl
@[simp] theorem reserve_burst : (b.reserve t).2.burst = b.burst := rfl
@[simp] theorem reserve_lastEvent : (b.reserve t).2.lastEvent = (b.reserve t).1.timeToAct := rfl

variable [IsStrictOrderedRing K]

/-- The slot of a reservation follows the time at which the bucket was empty. -/
theorem reserve_slot :
    (b.reserve t).1.slot = b.empty t + 1 / b.limit := by
  show t - (b.level t - 1) / b.limit = t - b.level t / b.limit + 1 / b.limit
  ring

/-- A reservation that has to wait acts in its slot. -/
theorem reserve_wait (h : b.level t < 1) : (b.reserve t).1.timeToAct = (b.reserve t).1.slot := by
  show t + b.wait (b.level t - 1) = t - (b.level t - 1) / b.limit
  unfold wait
  rw [if_pos (sub_neg.mpr h)]
  ring

/-- A reservation that finds a token acts at once. -/
theorem reserve_now (h : 1 ≤ b.level t) : (b.reserve t).1.timeToAct = t := by
  show t + b.wait (b.level t - 1) = t
  unfold wait
  rw [if_neg (not_lt.mpr (sub_nonneg.mpr h)), add_zero]

theorem slot_le_timeToAct (hlimit : 0 < b.limit) :
    (b.reserve t).1.slot ≤ (b.reserve t).1.timeToAct := by
  rcases lt_or_ge (b.level t) 1 with h | h
  · exact (reserve_wait b t h).ge
  · rw [reserve_now b t h]
    show t - (b.level t - 1) / b.limit ≤ t
    have := div_nonneg (sub_nonneg.mpr h) hlimit.le
    linarith

theorem timeToAct_le_slot (hlimit : 0 < b.limit) (hburst : 1 ≤ b.burst) :
    (b.reserve t).1.timeToAct ≤ (b.reserve t).1.slot + (b.burst - 1) / b.limit := by
  rcases lt_or_ge (b.level t) 1 with h | h
  · rw [reserve_wait b t h]
    exact le_add_of_nonneg_right (div_nonneg (sub_nonneg.mpr hburst) hlimit.le)
  · rw [reserve_now b t h]
    show t ≤ t - (b.level t - 1) / b.limit + (b.burst - 1) / b.limit
    have := (div_le_div_iff_of_pos_right hlimit).mpr
      (sub_le_sub_right (level_le_burst (b := b) (t := t)) 1)
    linarith

/-- After a reservation the bucket was empty in its slot. -/
theorem reserve_empty : (b.reserve t).2.empty t = (b.reserve t).1.slot := by
  have hlevel : (b.reserve t).2.level t = b.level t - 1 :=
    level_last (b := (b.reserve t).2) ((sub_le_self _ zero_le_one).trans level_le_burst)
  show t - (b.reserve t).2.level t / b.limit = t - (b.level t - 1) / b.limit
  rw [hlevel]

end

/-! ## Cancelling -/

section
variable {b : TokenBucket K} {r : Reservation K} {t : K}

@[simp] theorem cancel_limit : (b.cancel r t).limit = b.limit := by
  unfold cancel
  split <;> rfl

@[simp] theorem cancel_burst : (b.cancel r t).burst = b.burst := by
  unfold cancel
  split <;> rfl

/-- Cancelling gives back what `restore` says, up to the cap. -/
theorem cancel_level (hact : t ≤ r.timeToAct) (hrestore : 0 < b.restore r) :
    (b.cancel r t).level t = min b.burst (b.level t + b.restore r) := by
  have hpos : ¬ (r.timeToAct < t ∨ b.restore r ≤ 0) :=
    not_or.mpr ⟨not_lt.mpr hact, not_le.mpr hrestore⟩
  unfold cancel
  rw [if_neg hpos]
  exact level_last (b := { b with
    tokens := min b.burst (b.level t + b.restore r), last := t, lastEvent := _ }) (min_le_left ..)

end

end TokenBucket

/-! ## What a book of reservations keeps -/

open TokenBucket

/-- `live` are reservations, the latest first, that the bucket `b` has to honour at the time
    `now`. -/
structure Booked (b : TokenBucket K) (now : K) (live : List (Reservation K)) : Prop where
  /-- Slots are a token apart. -/
  spaced : live.Pairwise fun later earlier => earlier.slot + 1 / b.limit ≤ later.slot
  /-- The bucket was empty at no earlier slot. -/
  below : ∀ r ∈ live, r.slot ≤ b.empty now
  /-- A reservation acts in its slot or up to a burst later. -/
  early : ∀ r ∈ live, r.slot ≤ r.timeToAct ∧ r.timeToAct ≤ r.slot + (b.burst - 1) / b.limit
  /-- A reservation that has yet to act acts in its slot. -/
  acts : ∀ r ∈ live, r.timeToAct = r.slot ∨ r.timeToAct ≤ now
  /-- The last event is that of the latest reservation that has yet to act. -/
  event : ∀ r ∈ live, r.timeToAct ≤ b.lastEvent ∨ r.timeToAct ≤ now

/-- A reservation that may still be cancelled. -/
def Pending (b : TokenBucket K) (now : K) (r : Reservation K) : Prop :=
  r.timeToAct = r.slot ∧ (r.timeToAct ≤ b.lastEvent ∨ r.timeToAct < now)

namespace Booked

variable {b b' : TokenBucket K} {now t : K} {live live' : List (Reservation K)}
  {r k : Reservation K}

theorem nil : Booked b now [] :=
  ⟨.nil, List.forall_mem_nil _, List.forall_mem_nil _, List.forall_mem_nil _,
    List.forall_mem_nil _⟩

/-- Fewer reservations. -/
theorem sublist (h : Booked b now live) (hsub : live'.Sublist live) : Booked b now live' :=
  ⟨h.spaced.sublist hsub, fun r hr => h.below r (hsub.subset hr),
    fun r hr => h.early r (hsub.subset hr), fun r hr => h.acts r (hsub.subset hr),
    fun r hr => h.event r (hsub.subset hr)⟩

variable [IsStrictOrderedRing K]

/-- Time passes. -/
theorem tick (h : Booked b now live) (hlimit : 0 < b.limit) (ht : now ≤ t) : Booked b t live :=
  ⟨h.spaced, fun r hr => (h.below r hr).trans (empty_mono hlimit ht), h.early,
    fun r hr => (h.acts r hr).imp_right fun hle => hle.trans ht,
    fun r hr => (h.event r hr).imp_right fun hle => hle.trans ht⟩

/-- A full bucket may be replaced by a new one. -/
theorem renew (h : Booked b now live) (hlimit : 0 < b.limit) (hfull : b.level now = b.burst) :
    Booked (.new b.limit b.burst) now live := by
  have hempty : b.empty now = now - b.burst / b.limit := by
    unfold TokenBucket.empty
    rw [hfull]
  refine ⟨h.spaced, fun r hr => ?_, h.early, h.acts, fun r hr => .inr ?_⟩
  · exact (h.below r hr).trans (hempty.trans_le (le_empty (b := .new b.limit b.burst) hlimit))
  · have hslot := (h.below r hr).trans_eq hempty
    have hact := (h.early r hr).2
    have hone : 0 < 1 / b.limit := one_div_pos.mpr hlimit
    rw [sub_div] at hact
    linarith

/-- A token is reserved. -/
theorem reserve (h : Booked b now live) (hlimit : 0 < b.limit) (hburst : 1 ≤ b.burst) :
    Booked (b.reserve now).2 now ((b.reserve now).1 :: live) := by
  have hslot := reserve_slot b now
  have hone : 0 < 1 / b.limit := one_div_pos.mpr hlimit
  have hnew : ∀ r ∈ live, r.slot + 1 / b.limit ≤ (b.reserve now).1.slot := by
    intro r hr
    have := h.below r hr
    linarith
  refine ⟨List.pairwise_cons.mpr ⟨hnew, h.spaced⟩,
    List.forall_mem_cons.mpr ⟨(reserve_empty b now).ge, fun r hr => ?_⟩,
    List.forall_mem_cons.mpr ⟨⟨slot_le_timeToAct b now hlimit,
      timeToAct_le_slot b now hlimit hburst⟩, h.early⟩,
    List.forall_mem_cons.mpr ⟨?_, h.acts⟩,
    List.forall_mem_cons.mpr ⟨.inl le_rfl, fun r hr => ?_⟩⟩
  · rw [reserve_empty]
    have := hnew r hr
    linarith
  · rcases lt_or_ge (b.level now) 1 with hlt | hge
    · exact .inl (reserve_wait b now hlt)
    · exact .inr (reserve_now b now hge).le
  · rcases h.acts r hr with heq | hle
    · refine .inl ?_
      have hle := hnew r hr
      have := slot_le_timeToAct b now hlimit
      rw [reserve_lastEvent, heq]
      linarith
    · exact .inr hle

/-- When a cancelled reservation gives something back, it is the last that has yet to act: every
    other one has its slot a token earlier. -/
theorem slot_le_of_restore {before after : List (Reservation K)}
    (h : Booked b now (before ++ k :: after)) (hlimit : 0 < b.limit) (hk : k.timeToAct = k.slot)
    (hact : now ≤ k.timeToAct) (hrestore : 0 < b.restore k) :
    ∀ r ∈ before ++ after, r.slot + 1 / b.limit ≤ k.slot := by
  obtain ⟨-, hsplit, hacross⟩ := List.pairwise_append.mp h.spaced
  intro r hr
  rcases List.mem_append.mp hr with hr | hr
  · -- a later reservation would leave nothing to give back
    exfalso
    have hlater := hacross r hr k List.mem_cons_self
    have hrmem : r ∈ before ++ k :: after := List.mem_append_left _ hr
    have hslot := (h.early r hrmem).1
    have hone : 0 < 1 / b.limit := one_div_pos.mpr hlimit
    have hevent : b.lastEvent < k.timeToAct + 1 / b.limit := by
      have hmul : (b.lastEvent - k.timeToAct) * b.limit < 1 := sub_pos.mp hrestore
      have hdiv := (lt_div_iff₀ hlimit).mpr hmul
      linarith
    rcases h.event r hrmem with hle | hle
    · linarith
    · linarith
  · exact (List.pairwise_cons.mp hsplit).1 r hr

/-- A reservation that is cancelled leaves the book. -/
theorem cancel {before after : List (Reservation K)} (h : Booked b now (before ++ k :: after))
    (hlimit : 0 < b.limit) (hk : Pending b now k) :
    Booked (b.cancel k now) now (before ++ after) := by
  have hfewer : (before ++ after).Sublist (before ++ k :: after) :=
    (List.Sublist.refl before).append (List.sublist_cons_self k after)
  have hrest := h.sublist hfewer
  by_cases hnothing : k.timeToAct < now ∨ b.restore k ≤ 0
  · unfold TokenBucket.cancel
    rw [if_pos hnothing]
    exact hrest
  obtain ⟨hact, hrestore⟩ := not_or.mp hnothing
  have hact : now ≤ k.timeToAct := not_lt.mp hact
  have hrestore : 0 < b.restore k := not_le.mp hrestore
  have hearlier := h.slot_le_of_restore hlimit hk.1 hact hrestore
  refine ⟨by rw [cancel_limit]; exact hrest.spaced, fun r hr => ?_,
    by rw [cancel_burst, cancel_limit]; exact hrest.early, hrest.acts, fun r hr => ?_⟩
  · -- at most one token is given back, and the bucket was empty in the slot of `k`
    have hone : b.restore k ≤ 1 := by
      have hle : k.timeToAct ≤ b.lastEvent := hk.2.resolve_right (not_lt.mpr hact)
      exact sub_le_self _ (mul_nonneg (sub_nonneg.mpr hle) hlimit.le)
    have hlevel : (b.cancel k now).level now ≤ b.level now + 1 := by
      rw [cancel_level hact hrestore]
      exact (min_le_right ..).trans (by linarith)
    have hdiv := (div_le_div_iff_of_pos_right hlimit).mpr hlevel
    rw [add_div] at hdiv
    have hbelow := h.below k (List.mem_append_right _ List.mem_cons_self)
    have hslot := hearlier r hr
    unfold TokenBucket.empty at hbelow ⊢
    rw [cancel_limit]
    linarith
  · unfold TokenBucket.cancel
    rw [if_neg hnothing]
    dsimp only
    split
    · rcases hrest.acts r hr with heq | hle
      · have hslot := hearlier r hr
        refine .inl ?_
        rw [heq, hk.1]
        linarith
      · exact .inr hle
    · exact hrest.event r hr

end Booked

namespace Pending

variable {b : TokenBucket K} {now t : K} {live : List (Reservation K)} {r k : Reservation K}

omit [Field K] in
theorem tick (h : Pending b now r) (ht : now ≤ t) : Pending b t r :=
  ⟨h.1, h.2.imp_right fun hlt => hlt.trans_le ht⟩

variable [IsStrictOrderedRing K]

/-- A reservation that has to wait is pending. -/
theorem reserve_self (hwait : b.level now < 1) :
    Pending (b.reserve now).2 now (b.reserve now).1 :=
  ⟨reserve_wait b now hwait, .inl le_rfl⟩

/-- A later reservation. -/
theorem reserve (h : Pending b now r) (hbook : Booked b now live) (hr : r ∈ live)
    (hlimit : 0 < b.limit) : Pending (b.reserve now).2 now r := by
  refine ⟨h.1, .inl ?_⟩
  have hone : 0 < 1 / b.limit := one_div_pos.mpr hlimit
  have hslot := hbook.below r hr
  have hnew := reserve_slot b now
  have hact := slot_le_timeToAct b now hlimit
  rw [reserve_lastEvent, h.1]
  linarith

/-- Another reservation is cancelled. -/
theorem cancel {before after : List (Reservation K)} (h : Pending b now r)
    (hbook : Booked b now (before ++ k :: after)) (hr : r ∈ before ++ after)
    (hlimit : 0 < b.limit) (hk : Pending b now k) : Pending (b.cancel k now) now r := by
  by_cases hnothing : k.timeToAct < now ∨ b.restore k ≤ 0
  · unfold TokenBucket.cancel
    rw [if_pos hnothing]
    exact h
  obtain ⟨hact, hrestore⟩ := not_or.mp hnothing
  have hslot := hbook.slot_le_of_restore hlimit hk.1 (not_lt.mp hact) (not_le.mp hrestore) r hr
  refine ⟨h.1, ?_⟩
  unfold TokenBucket.cancel
  rw [if_neg hnothing]
  dsimp only
  split
  · refine .inl ?_
    rw [h.1, hk.1]
    linarith
  · exact h.2

end Pending

/-! ## The window -/

section
variable [IsStrictOrderedRing K]

/-- Slots a token apart, the latest first, between two times. -/
theorem slots_length {limit lo hi : K} (hlimit : 0 < limit) :
    ∀ {live : List (Reservation K)},
      (live.Pairwise fun later earlier => earlier.slot + 1 / limit ≤ later.slot) →
      (∀ r ∈ live, lo ≤ r.slot ∧ r.slot ≤ hi) → lo ≤ hi →
      (live.length : K) ≤ 1 + (hi - lo) * limit := by
  intro live
  induction live generalizing hi with
  | nil =>
    intro _ _ hle
    have := mul_nonneg (sub_nonneg.mpr hle) hlimit.le
    rw [List.length_nil, Nat.cast_zero]
    linarith
  | cons r rest ih =>
    intro hspaced hrange hle
    obtain ⟨hfirst, hrest⟩ := List.pairwise_cons.mp hspaced
    obtain ⟨⟨hlo, hhi⟩, hranges⟩ := List.forall_mem_cons.mp hrange
    cases rest with
    | nil =>
      have := mul_nonneg (sub_nonneg.mpr hle) hlimit.le
      rw [List.length_singleton, Nat.cast_one]
      linarith
    | cons r' rest' =>
      -- the others fit below the slot of the first
      have hr' := hfirst r' List.mem_cons_self
      have hlo' := (hranges r' List.mem_cons_self).1
      have hbelow : ∀ x ∈ r' :: rest', lo ≤ x.slot ∧ x.slot ≤ r.slot - 1 / limit :=
        fun x hx => ⟨(hranges x hx).1, le_sub_iff_add_le.mpr (hfirst x hx)⟩
      have hcount := ih hrest hbelow (hlo'.trans (le_sub_iff_add_le.mpr hr'))
      have hone : 1 / limit * limit = 1 := one_div_mul_cancel hlimit.ne'
      have hmul := mul_le_mul_of_nonneg_right (sub_le_sub_right hhi lo) hlimit.le
      rw [List.length_cons, Nat.cast_succ]
      have hexpand : (r.slot - 1 / limit - lo) * limit = (r.slot - lo) * limit - 1 := by
        rw [sub_right_comm, sub_mul, hone]
      rw [hexpand] at hcount
      linarith

/-- **The window.**  Of the reservations a bucket has to honour, at most `burst + limit * T` act
    within a window of length `T`. -/
theorem Booked.window {b : TokenBucket K} {now start T : K} {live acting : List (Reservation K)}
    (h : Booked b now live) (hsub : acting.Sublist live) (hlimit : 0 < b.limit)
    (hburst : 1 ≤ b.burst) (hT : 0 ≤ T)
    (hin : ∀ r ∈ acting, start ≤ r.timeToAct ∧ r.timeToAct ≤ start + T) :
    (acting.length : K) ≤ b.burst + b.limit * T := by
  have hbook := h.sublist hsub
  have hroom : 0 ≤ (b.burst - 1) / b.limit := div_nonneg (sub_nonneg.mpr hburst) hlimit.le
  have hslots : ∀ r ∈ acting, start - (b.burst - 1) / b.limit ≤ r.slot ∧ r.slot ≤ start + T := by
    intro r hr
    obtain ⟨hearly, hlate⟩ := hbook.early r hr
    obtain ⟨hstart, hend⟩ := hin r hr
    exact ⟨by linarith, by linarith⟩
  have hcount := slots_length hlimit hbook.spaced hslots (by linarith)
  have hcancel : (b.burst - 1) / b.limit * b.limit = b.burst - 1 :=
    div_mul_cancel₀ _ hlimit.ne'
  have hexpand : (start + T - (start - (b.burst - 1) / b.limit)) * b.limit =
      b.limit * T + (b.burst - 1) := by
    rw [sub_sub_eq_add_sub, add_assoc, add_sub_cancel_left, add_mul, hcancel, mul_comm T]
  rw [hexpand] at hcount
  linarith

end

end Novamail.Core

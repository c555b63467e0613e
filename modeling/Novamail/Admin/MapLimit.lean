/-
  `mapLimit` of `deliverability.ts`: a function mapped over items by a few workers at a time.

  The workers share one index.  Each runs without a pause from one `await` to the next, so a step of
  the system is the fulfilment of a call, or one worker from behind its `await` to the next or to
  its end; in what order, nothing says.  The crux is one count (`Inv.once`): the calls that are
  outstanding and those that were answered are, together, the indices below `next`, each once.
-/
import Mathlib.Algebra.Order.Floor.Semiring
import Mathlib.Data.List.Nodup
import Mathlib.Data.List.Perm.Basic
import Mathlib.Data.Rat.Floor
import Novamail.Core.System

namespace Novamail.MapLimit

open Novamail.Core

variable {T R : Type}

/-! ## The program -/

/-- Where a worker is. -/
inductive Worker (R : Type)
  /-- It awaits `fn(items[i])`. -/
  | calling (i : Nat)
  /-- That call was fulfilled with `r`, and the worker has not run since. -/
  | answered (i : Nat) (r : R)
  /-- Its loop has ended. -/
  | done
  deriving DecidableEq, Repr

/-- A run of `mapLimit`. -/
structure MapRun (T R : Type) where
  next : Nat
  /-- The array of results, with the holes of `new Array`. -/
  out : List (Option R)
  workers : List (Worker R)
  /-- The calls of `fn`: the argument, and the index it is for. -/
  calls : List (T × Nat)
  /-- What the promise of `mapLimit` was resolved with. -/
  returned : Option (List (Option R))

/-- The loop of a worker, to the next `await` or the end. -/
def MapRun.turn (items : List T) (s : MapRun T R) : MapRun T R × Worker R :=
  if h : s.next < items.length then
    ({ s with next := s.next + 1, calls := s.calls ++ [(items.get ⟨s.next, h⟩, s.next)] },
      .calling s.next)
  else (s, .done)

/-- `Array.from({ length: n }, worker)`: the workers start one after the other. -/
def launch (items : List T) : Nat → MapRun T R
  | 0 => { next := 0, out := List.replicate items.length none, workers := [], calls := []
           returned := none }
  | n + 1 =>
    let (s, w) := (launch items n).turn items
    { s with workers := s.workers ++ [w] }

/-- `Math.min(limit, items.length)` as the length of an array: a fraction is cut off. -/
def lanes (limit : WithTop Rat) (n : Nat) : Nat :=
  match limit with
  | none => n
  | some q => ⌊min q n⌋₊

/-- What happens in a run. -/
inductive Event (R : Type)
  /-- The call for an index is fulfilled. -/
  | settle (i : Nat) (r : R)
  /-- A worker whose call was fulfilled goes on. -/
  | resume
  /-- `Promise.all` is fulfilled, and `out` returned. -/
  | resolve
  deriving DecidableEq, Repr

/-- A step of a run. -/
inductive Step (items : List T) : MapRun T R → Event R → MapRun T R → Prop
  | settle {s : MapRun T R} {as bs : List (Worker R)} {i : Nat}
      (hw : s.workers = as ++ .calling i :: bs) (r : R) :
      Step items s (.settle i r) { s with workers := as ++ .answered i r :: bs }
  | resume {s s' : MapRun T R} {as bs : List (Worker R)} {i : Nat} {r : R} {w : Worker R}
      (hw : s.workers = as ++ .answered i r :: bs)
      (hturn : { s with out := s.out.set i (some r) }.turn items = (s', w)) :
      Step items s .resume { s' with workers := as ++ w :: bs }
  | resolve {s : MapRun T R} (hdone : ∀ w ∈ s.workers, w = .done) (hopen : s.returned = none) :
      Step items s .resolve { s with returned := some s.out }

/-- `mapLimit(items, limit, fn)`, of an `fn` that never rejects. -/
def mapLimit (items : List T) (limit : WithTop Rat) : LTS (MapRun T R) (Event R) where
  init s := s = launch items (lanes limit items.length)
  step := Step items

/-- The calls that were fulfilled so far: the index, and the result. -/
def answers (ls : List (Event R)) : List (Nat × R) :=
  ls.filterMap fun
    | .settle i r => some (i, r)
    | _ => none

@[simp] theorem answers_settle (ls : List (Event R)) (i : Nat) (r : R) :
    answers (ls ++ [.settle i r]) = answers ls ++ [(i, r)] := by
  simp [answers]

@[simp] theorem answers_resume (ls : List (Event R)) :
    answers (ls ++ [.resume]) = answers ls := by
  simp [answers]

@[simp] theorem answers_resolve (ls : List (Event R)) :
    answers (ls ++ [.resolve]) = answers ls := by
  simp [answers]

/-- The index whose call a worker awaits. -/
def Worker.awaited : Worker R → Option Nat
  | .calling i => some i
  | _ => none

/-- A worker that has its answer. -/
def Worker.woken : Worker R → Bool
  | .answered _ _ => true
  | _ => false

/-! ## The invariant -/

/-- What holds of a run after the events `ls`. -/
structure Inv (items : List T) (ls : List (Event R)) (s : MapRun T R) : Prop where
  calls : s.calls = items.zipIdx.take s.next
  next_le : s.next ≤ items.length
  length_out : s.out.length = items.length
  /-- An index below `next` is awaited by one worker or was answered once. -/
  once : (s.workers.filterMap Worker.awaited ++ (answers ls).map Prod.fst).Perm
    (List.range s.next)
  /-- An answer is in the array, or on its way to it. -/
  written : ∀ i r, (i, r) ∈ answers ls ↔
    s.out[i]? = some (some r) ∨ .answered i r ∈ s.workers
  finished : .done ∈ s.workers → s.next = items.length
  returned : ∀ out, s.returned = some out → out = s.out ∧ ∀ w ∈ s.workers, w = .done
  /-- Every answer is waited for and taken, and then only the return is left. -/
  length : ls.length + s.workers.countP Worker.woken =
    2 * (answers ls).length + if s.returned.isSome then 1 else 0

variable {items : List T} {ls : List (Event R)} {s : MapRun T R}

theorem Inv.nodup (h : Inv items ls s) : ((answers ls).map Prod.fst).Nodup :=
  (List.nodup_append.mp (h.once.nodup_iff.mpr List.nodup_range)).2.1

/-- An index has one answer. -/
theorem Inv.unique (h : Inv items ls s) {i : Nat} {r r' : R} (hr : (i, r) ∈ answers ls)
    (hr' : (i, r') ∈ answers ls) : r = r' :=
  (Prod.ext_iff.mp (List.inj_on_of_nodup_map h.nodup hr hr' rfl)).2

theorem Inv.lt_of_answer (h : Inv items ls s) {i : Nat} {r : R} (hr : (i, r) ∈ answers ls) :
    i < items.length := by
  have hin : i ∈ List.range s.next :=
    h.once.mem_iff.mp (List.mem_append_right _ (List.mem_map_of_mem (f := Prod.fst) hr))
  exact Nat.lt_of_lt_of_le (List.mem_range.mp hin) h.next_le

/-- The loop of a worker keeps the invariant, wherever the worker stands. -/
theorem Inv.turn {as bs : List (Worker R)} (h : Inv items ls s) (hw : s.workers = as ++ bs)
    (hopen : s.returned = none) {s' : MapRun T R} {w : Worker R}
    (hturn : s.turn items = (s', w)) : Inv items ls { s' with workers := as ++ w :: bs } := by
  unfold MapRun.turn at hturn
  have honce := h.once
  have hwritten := h.written
  have hfinished := h.finished
  have hlength := h.length
  rw [hw] at honce hwritten hfinished hlength
  simp only [List.filterMap_append, List.countP_append] at honce hlength
  have hwoken : ∀ i r, Worker.answered i r ∈ as ++ w :: bs ↔ Worker.answered i r ∈ as ++ bs := by
    intro i r
    have hne : Worker.answered i r ≠ w := by
      split at hturn <;> cases hturn <;> nofun
    simp [hne]
  split at hturn
  · rename_i hlt
    cases hturn
    constructor
    · have hitem : items.zipIdx[s.next]? = some (items.get ⟨s.next, hlt⟩, s.next) := by
        simp [hlt]
      show s.calls ++ _ = items.zipIdx.take (s.next + 1)
      rw [List.take_add_one, hitem, h.calls]
      rfl
    · exact hlt
    · exact h.length_out
    · have hmove : (as.filterMap Worker.awaited ++ (s.next :: bs.filterMap Worker.awaited) ++
          (answers ls).map Prod.fst).Perm (s.next :: List.range s.next) := by
        rw [List.append_assoc] at honce ⊢
        exact List.perm_middle.trans (honce.cons _)
      simp only [List.filterMap_append, List.filterMap_cons, Worker.awaited]
      rw [List.range_succ]
      exact hmove.trans (List.perm_append_singleton _ _).symm
    · intro i r
      rw [hwoken]
      exact hwritten i r
    · intro hdone
      have hbefore : Worker.done ∈ as ++ bs := by simpa using hdone
      exact absurd (hfinished hbefore) (Nat.ne_of_lt hlt)
    · intro out hout
      exact absurd (hopen.symm.trans hout) nofun
    · simpa [Worker.woken] using hlength
  · rename_i hge
    cases hturn
    constructor
    · exact h.calls
    · exact h.next_le
    · exact h.length_out
    · simp only [List.filterMap_append, List.filterMap_cons, Worker.awaited]
      exact honce
    · intro i r
      rw [hwoken]
      exact hwritten i r
    · exact fun _ => Nat.le_antisymm h.next_le (Nat.le_of_not_lt hge)
    · intro out hout
      exact absurd (hopen.symm.trans hout) nofun
    · simpa [Worker.woken] using hlength

theorem turn_eq (items : List T) (s : MapRun T R) :
    (s.turn items).1.workers = s.workers ∧ (s.turn items).1.returned = s.returned ∧
      (s.turn items).1.out = s.out ∧ (s.turn items).2.woken = false := by
  unfold MapRun.turn
  split
  · exact ⟨rfl, rfl, rfl, rfl⟩
  · exact ⟨rfl, rfl, rfl, rfl⟩

theorem turn_workers (items : List T) (s : MapRun T R) (ws : List (Worker R)) :
    { s with workers := ws }.turn items =
      ({ (s.turn items).1 with workers := ws }, (s.turn items).2) := by
  unfold MapRun.turn
  split <;> rfl

theorem launch_returned (items : List T) (n : Nat) :
    (launch (R := R) items n).returned = none := by
  induction n with
  | zero => rfl
  | succ n ih => exact (turn_eq items (launch items n)).2.1.trans ih

/-- The workers start. -/
theorem Inv.launch (n : Nat) : Inv items [] (launch (R := R) items n) := by
  induction n with
  | zero =>
    constructor
    · rfl
    · exact Nat.zero_le _
    · exact List.length_replicate
    · exact List.Perm.refl _
    · intro i r
      refine iff_of_false nofun ?_
      rintro (hout | hin)
      · have hhole : (List.replicate items.length (none : Option R))[i]? = some (some r) := hout
        rw [List.getElem?_replicate] at hhole
        split at hhole <;> cases hhole
      · cases hin
    · exact nofun
    · exact nofun
    · rfl
  | succ n ih =>
    let t := MapRun.turn items (MapLimit.launch (R := R) items n)
    have heq : MapLimit.launch items (n + 1) =
        { t.1 with workers := (MapLimit.launch items n).workers ++ [t.2] } := by
      show { t.1 with workers := t.1.workers ++ [t.2] } = _
      rw [(turn_eq items (MapLimit.launch items n)).1]
    rw [heq]
    exact ih.turn (List.append_nil _).symm (launch_returned items n) rfl

/-- While a worker is not done, nothing was returned. -/
theorem Inv.open (h : Inv items ls s) {w : Worker R} (hin : w ∈ s.workers) (hw : w ≠ .done) :
    s.returned = none := by
  cases hret : s.returned with
  | none => rfl
  | some out => exact absurd ((h.returned out hret).2 w hin) hw

/-- A call is fulfilled. -/
theorem Inv.settle {as bs : List (Worker R)} {i : Nat} (h : Inv items ls s)
    (hw : s.workers = as ++ .calling i :: bs) (r : R) :
    Inv items (ls ++ [.settle i r]) { s with workers := as ++ .answered i r :: bs } := by
  have hopen := h.open (w := .calling i) (by simp [hw]) (fun heq => by cases heq)
  have honce := h.once
  have hlength := h.length
  have hmem : ∀ w : Worker R, w ≠ .calling i →
      (w ∈ as ++ .answered i r :: bs ↔ w ∈ s.workers ∨ w = .answered i r) := by
    intro w hne
    simp only [hw, List.mem_append, List.mem_cons, hne, false_or]
    tauto
  rw [hw] at honce hlength
  constructor
  · exact h.calls
  · exact h.next_le
  · exact h.length_out
  · simp only [List.filterMap_append, List.filterMap_cons, Worker.awaited, answers_settle,
      List.map_append, List.map_cons, List.map_nil] at honce ⊢
    refine List.Perm.trans ?_ honce
    rw [← List.append_assoc, List.append_assoc _ (i :: _), List.cons_append]
    refine (List.perm_append_singleton _ _).trans ?_
    rw [List.append_assoc]
    exact List.perm_middle.symm
  · intro j q
    show _ ↔ _ ∨ Worker.answered j q ∈ as ++ .answered i r :: bs
    rw [hmem (.answered j q) (fun heq => by cases heq), answers_settle, List.mem_append, h.written,
      List.mem_singleton, Worker.answered.injEq, Prod.mk.injEq, or_assoc]
  · intro hdone
    exact h.finished (((hmem .done (fun heq => by cases heq)).mp hdone).resolve_right (fun heq => by cases heq))
  · intro out hout
    exact absurd (hopen.symm.trans hout) (fun heq => by cases heq)
  · simp only [answers_settle, List.length_append, List.countP_append, List.countP_cons,
      Worker.woken, hopen] at hlength ⊢
    simp at hlength ⊢
    omega

/-- A worker goes on with its answer. -/
theorem Inv.resume {as bs : List (Worker R)} {i : Nat} {r : R} {s' : MapRun T R} {w : Worker R}
    (h : Inv items ls s) (hw : s.workers = as ++ .answered i r :: bs)
    (hturn : { s with out := s.out.set i (some r) }.turn items = (s', w)) :
    Inv items (ls ++ [.resume]) { s' with workers := as ++ w :: bs } := by
  have hin : Worker.answered i r ∈ s.workers := by simp [hw]
  have hopen := h.open hin (fun heq => by cases heq)
  have hanswer : (i, r) ∈ answers ls := (h.written i r).mpr (.inr hin)
  have hlt := h.lt_of_answer hanswer
  have honce := h.once
  have hlength := h.length
  rw [hw] at honce hlength
  -- without the worker, and with its answer in the array
  have hwrite : Inv items (ls ++ [.resume])
      { s with out := s.out.set i (some r), workers := as ++ bs } := by
    constructor
    · exact h.calls
    · exact h.next_le
    · exact List.length_set.trans h.length_out
    · simp only [List.filterMap_append, List.filterMap_cons, Worker.awaited] at honce
      simp only [List.filterMap_append, answers_resume]
      exact honce
    · intro j q
      rw [answers_resume]
      show _ ↔ (s.out.set i (some r))[j]? = _ ∨ _ ∈ as ++ bs
      by_cases hj : j = i
      · subst hj
        rw [List.getElem?_set_self (by rw [h.length_out]; exact hlt)]
        constructor
        · intro hq
          rw [h.unique hq hanswer]
          exact .inl rfl
        · rintro (hq | hq)
          · cases hq
            exact hanswer
          · refine (h.written j q).mpr (.inr ?_)
            rw [hw]
            simp only [List.mem_append, List.mem_cons] at hq ⊢
            tauto
      · rw [List.getElem?_set_ne (Ne.symm hj), h.written, hw]
        simp [hj]
    · intro hdone
      refine h.finished ?_
      rw [hw]
      simpa using hdone
    · intro out hout
      exact absurd (hopen.symm.trans hout) (fun heq => by cases heq)
    · simp only [answers_resume, List.length_append, List.countP_append, List.countP_cons,
        Worker.woken, hopen] at hlength ⊢
      simp at hlength ⊢
      omega
  have hloop : { s with out := s.out.set i (some r), workers := as ++ bs }.turn items =
      ({ s' with workers := as ++ bs }, w) :=
    (turn_workers items { s with out := s.out.set i (some r) } (as ++ bs)).trans (by rw [hturn])
  have hkept := hwrite.turn rfl hopen hloop
  exact hkept

theorem Inv.step {e : Event R} {s' : MapRun T R} (h : Inv items ls s) (hst : Step items s e s') :
    Inv items (ls ++ [e]) s' := by
  cases hst with
  | settle hw r => exact h.settle hw r
  | resume hw hturn => exact h.resume hw hturn
  | resolve hdone hopen =>
    have honce := h.once
    have hwritten := h.written
    have hlength := h.length
    rw [← answers_resolve] at honce hwritten hlength
    refine ⟨h.calls, h.next_le, h.length_out, honce, hwritten, h.finished, ?_, ?_⟩
    · intro out hout
      exact ⟨(Option.some.inj hout).symm, hdone⟩
    · rw [List.length_append, answers_resolve] at *
      simp [hopen] at hlength ⊢
      omega

/-! ## Every run -/

theorem launch_workers (items : List T) (n : Nat) :
    (launch (R := R) items n).workers.length = n := by
  induction n with
  | zero => rfl
  | succ n ih =>
    show (((launch items n).turn items).1.workers ++ [_]).length = n + 1
    rw [List.length_append, (turn_eq items (launch items n)).1, ih]
    rfl

/-- No step adds a worker. -/
theorem Step.workers {s s' : MapRun T R} {e : Event R} (hst : Step items s e s') :
    s'.workers.length = s.workers.length := by
  cases hst with
  | settle hw r => simp [hw]
  | resume hw hturn => simp [hw]
  | resolve hdone hopen => rfl

variable {limit : WithTop Rat}

theorem run_inv (h : Trace (mapLimit items limit) anyStep ls s) :
    Inv items ls s ∧ s.workers.length = lanes limit items.length := by
  refine h.invariant (I := fun ls s => Inv items ls s ∧ s.workers.length = _) ?_ ?_
  · rintro s rfl
    exact ⟨Inv.launch _, launch_workers _ _⟩
  · rintro ls s e s' - ⟨hinv, hlen⟩ - hst
    exact ⟨hinv.step hst, hst.workers.trans hlen⟩

theorem lanes_le (hl : 1 ≤ limit) (n : Nat) : ((lanes limit n : Rat) : WithTop Rat) ≤ limit := by
  cases limit with
  | top => exact le_top
  | coe q =>
    have hq : (1 : Rat) ≤ q := WithTop.coe_le_coe.mp hl
    refine WithTop.coe_le_coe.mpr (le_trans (Nat.floor_le ?_) (min_le_left q n))
    exact le_min (by linarith) (Nat.cast_nonneg n)

/-- A worker for a list that is not empty. -/
theorem lanes_pos (hl : 1 ≤ limit) {n : Nat} (hn : 0 < n) : 0 < lanes limit n := by
  cases limit with
  | top => exact hn
  | coe q =>
    have hq : (1 : Rat) ≤ q := WithTop.coe_le_coe.mp hl
    refine Nat.floor_pos.mpr (le_min hq ?_)
    exact_mod_cast hn

/-- How many calls of `fn` are not fulfilled. -/
def outstanding (ls : List (Event R)) (s : MapRun T R) : Nat :=
  s.calls.length - (answers ls).length

theorem Inv.calls_length (h : Inv items ls s) :
    s.calls.length = (s.workers.filterMap Worker.awaited).length + (answers ls).length := by
  have honce := h.once.length_eq
  have hle := h.next_le
  rw [List.length_append, List.length_map, List.length_range] at honce
  rw [h.calls, List.length_take, List.length_zipIdx, honce]
  omega

theorem Inv.outstanding_eq (h : Inv items ls s) :
    outstanding ls s = (s.workers.filterMap Worker.awaited).length := by
  unfold outstanding
  rw [h.calls_length]
  omega

/-- What `mapLimit` promises of a run after the events `ls`. -/
structure Maps (items : List T) (limit : WithTop Rat) (ls : List (Event R)) (s : MapRun T R) :
    Prop where
  /-- `fn` is called on the items in their order, on none twice. -/
  calls : s.calls <+: items.zipIdx
  bounded : ((outstanding ls s : Rat) : WithTop Rat) ≤ limit
  /-- On the return there was a call for each item, each was fulfilled once, and its result is at
      the item's index. -/
  returns : ∀ out, s.returned = some out →
    s.calls = items.zipIdx ∧
    ((answers ls).map Prod.fst).Perm (List.range items.length) ∧
    out.length = items.length ∧
    ∀ i < items.length, ∃ r, (i, r) ∈ answers ls ∧ out[i]? = some (some r)
  /-- It waits for nothing but `fn`. -/
  live : s.returned = none → outstanding ls s = 0 → ∃ e s', Step items s e s'
  finite : ls.length ≤ 2 * items.length + 1

theorem Inv.returns (h : Inv items ls s) (hwork : 0 < items.length → s.workers ≠ [])
    {out : List (Option R)} (hout : s.returned = some out) :
    s.calls = items.zipIdx ∧ ((answers ls).map Prod.fst).Perm (List.range items.length) ∧
      out.length = items.length ∧
      ∀ i < items.length, ∃ r, (i, r) ∈ answers ls ∧ out[i]? = some (some r) := by
  obtain ⟨rfl, hdone⟩ := h.returned out hout
  have hall : s.next = items.length := by
    by_contra hne
    have hle := h.next_le
    obtain ⟨w, hw⟩ := List.exists_mem_of_ne_nil _ (hwork (by omega))
    exact hne (h.finished (hdone w hw ▸ hw))
  have hnone : s.workers.filterMap Worker.awaited = [] := by
    refine List.filterMap_eq_nil_iff.mpr fun w hw => ?_
    rw [hdone w hw]
    rfl
  have hperm := h.once
  rw [hnone, List.nil_append, hall] at hperm
  refine ⟨?_, hperm, h.length_out, fun i hi => ?_⟩
  · rw [h.calls, hall, ← List.length_zipIdx (l := items) (i := 0), List.take_length]
  · obtain ⟨a, ha, rfl⟩ := List.mem_map.mp (hperm.mem_iff.mpr (List.mem_range.mpr hi))
    refine ⟨a.2, ha, ((h.written a.1 a.2).mp ha).resolve_right fun hin => ?_⟩
    cases hdone _ hin

/-- Without a call to wait for, a worker can go on, or all have ended. -/
theorem Inv.live (h : Inv items ls s) (hopen : s.returned = none) (hnone : outstanding ls s = 0) :
    ∃ e s', Step items s e s' := by
  by_cases hdone : ∀ w ∈ s.workers, w = .done
  · exact ⟨.resolve, _, .resolve hdone hopen⟩
  · push Not at hdone
    obtain ⟨w, hin, hw⟩ := hdone
    obtain ⟨as, bs, hsplit⟩ := List.append_of_mem hin
    cases w with
    | calling i =>
      rw [h.outstanding_eq, hsplit] at hnone
      simp [Worker.awaited] at hnone
    | answered i r => exact ⟨.resume, _, .resume hsplit rfl⟩
    | done => exact absurd rfl hw

/-- **A bounded parallel map.**  Whatever the order in which the calls are fulfilled and the workers
    go on: each item is called on once, never more than `limit` at a time, and the result of its
    call is returned at its index when all calls are fulfilled. -/
theorem mapLimit_maps {items : List T} {limit : WithTop Rat} (hl : 1 ≤ limit)
    {ls : List (Event R)} {s : MapRun T R} (h : Trace (mapLimit items limit) anyStep ls s) :
    Maps items limit ls s := by
  obtain ⟨hinv, hlen⟩ := run_inv h
  have hlanes := lanes_le hl items.length
  constructor
  · rw [hinv.calls]
    exact List.take_prefix _ _
  · refine le_trans (WithTop.coe_le_coe.mpr ?_) hlanes
    have hfew := List.length_filterMap_le Worker.awaited s.workers
    rw [hinv.outstanding_eq]
    exact_mod_cast hlen ▸ hfew
  · intro out hout
    refine hinv.returns (fun hpos hnil => ?_) hout
    have hlane := lanes_pos hl hpos
    rw [hnil] at hlen
    simp only [List.length_nil] at hlen
    omega
  · exact hinv.live
  · have hcount := hinv.length
    have hcalls := hinv.calls_length
    have hle := hinv.next_le
    rw [hinv.calls, List.length_take, List.length_zipIdx] at hcalls
    split at hcount <;> omega

/-- Three items, two at a time; the second call is fulfilled first. -/
theorem mapLimit_maps_test : ∃ s : MapRun String String,
    s.returned = some [some "A", some "B", some "C"] ∧ s.calls = [("a", 0), ("b", 1), ("c", 2)] ∧
      Maps ["a", "b", "c"] 2 [.settle 1 "B", .resume, .settle 2 "C", .settle 0 "A", .resume,
        .resume, .resolve] s := by
  have hlanes : lanes 2 3 = 2 := rfl
  have h₀ : Trace (mapLimit ["a", "b", "c"] 2) anyStep ([] : List (Event String))
    (launch ["a", "b", "c"] 2) := .init (by rw [← hlanes]; rfl)
  have h₁ := h₀.step trivial (@Step.settle _ _ _ _ [.calling 0] [] 1 rfl "B")
  have h₂ := h₁.step trivial (@Step.resume _ _ _ _ _ [.calling 0] [] 1 "B" _ rfl rfl)
  have h₃ := h₂.step trivial (@Step.settle _ _ _ _ [.calling 0] [] 2 rfl "C")
  have h₄ := h₃.step trivial (@Step.settle _ _ _ _ [] [.answered 2 "C"] 0 rfl "A")
  have h₅ := h₄.step trivial (@Step.resume _ _ _ _ _ [.answered 0 "A"] [] 2 "C" _ rfl rfl)
  have h₆ := h₅.step trivial (@Step.resume _ _ _ _ _ [] [.done] 0 "A" _ rfl rfl)
  have h₇ := h₆.step trivial (.resolve (by decide) rfl)
  exact ⟨_, rfl, rfl, mapLimit_maps (by norm_num) h₇⟩

end Novamail.MapLimit

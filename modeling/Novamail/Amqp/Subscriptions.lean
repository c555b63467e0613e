/-
  Subscriptions over reconnects.

  Four facts about a scene follow one from another: `regMu` has one holder; every connection but the
  current one is gone or not yet in use; no caller works on a connection that is up and not the
  current one; and, on the current connection, a balance of what it carries, what the registry has,
  and what is under way.  The last needs the guard `steady`, which bars just the calls that upset it.
-/
import Mathlib.Data.Multiset.Bind
import Novamail.Amqp.Scene

namespace Novamail.Amqp

open Novamail.Core

/-! ## One holder of `regMu` -/

section

variable {s s' : Bus} {st st' : Stage} {w w' : Watch} {o : BusOp} {r : o.Ret}

theorem Turn.locks (h : Turn s st o r s' st') (hle : st.locked.toNat ≤ s.held.toNat) :
    s'.held.toNat + st.locked.toNat = s.held.toNat + st'.locked.toNat := by
  cases h with
  | lock hfree =>
    show 1 + 0 = s.held.toNat + 1
    rw [hfree]
    rfl
  | abandon | release | leave =>
    have := Bool.toNat_le s.held
    have hle : 1 ≤ s.held.toNat := hle
    show 0 + 1 = s.held.toNat + 0
    omega
  | _ => rfl

theorem Pass.locks (h : Pass s w o r s' w') (hle : w.locked.toNat ≤ s.held.toNat) :
    s'.held.toNat + w.locked.toNat = s.held.toNat + w'.locked.toNat := by
  cases h with
  | lock hfree =>
    show 1 + 0 = s.held.toNat + 1
    rw [hfree]
    rfl
  | unlock =>
    have := Bool.toNat_le s.held
    have hle : 1 ≤ s.held.toNat := hle
    show 0 + 1 = s.held.toNat + 0
    omega
  | _ => rfl

variable {ok : Scene → Beat → Prop} {c : Scene}

/-- The holders of `regMu` are as many as the lock says, one or none. -/
theorem one_holder (hreach : Reach scenes ok c) :
    c.stages.countP (·.locked) + c.watch.locked.toNat = c.bus.held.toNat := by
  refine hreach.invariant (I := fun c =>
    c.stages.countP (·.locked) + c.watch.locked.toNat = c.bus.held.toNat) ?_ ?_
  · rintro c rfl
    rfl
  · intro c l c' _ ih _ hst
    cases hst with
    | start =>
      show Multiset.countP _ (.begun ::ₘ c.stages) + _ = _
      rw [Multiset.countP_cons_of_neg _ (by simp [Stage.locked])]
      exact ih
    | @turn st st' rest o r s hst ht =>
      rw [hst, Multiset.countP_cons] at ih
      have hst₁ : (if st.locked then 1 else 0) = st.locked.toNat := by cases st.locked <;> rfl
      have hst₂ : (if st'.locked then 1 else 0) = st'.locked.toNat := by cases st'.locked <;> rfl
      rw [hst₁] at ih
      have := ht.locks (by omega)
      show Multiset.countP _ (st' ::ₘ rest) + c.watch.locked.toNat = s.held.toNat
      rw [Multiset.countP_cons, hst₂]
      omega
    | @finish st rest hst hover =>
      have hfree : ¬ st.locked = true := by
        cases st with
        | ended l => cases l <;> simp_all [Stage.Over, Stage.locked]
        | _ => simp_all [Stage.Over, Stage.locked]
      rw [hst, Multiset.countP_cons, if_neg hfree] at ih
      exact ih
    | lose => exact ih
    | pass hp =>
      have := hp.locks (by omega)
      dsimp only
      omega

/-- While the supervisor holds `regMu`, no caller does. -/
theorem unlocked_of_entered (hreach : Reach scenes ok c) (hw : c.watch.locked = true) :
    ∀ st ∈ c.stages, st.locked = false := by
  intro st hst
  have hcount := one_holder hreach
  rw [hw] at hcount
  have hle := Bool.toNat_le c.bus.held
  have hzero : c.stages.countP (·.locked) = 0 := by
    simp only [Bool.toNat_true] at hcount
    omega
  simpa using Multiset.countP_eq_zero.mp hzero st hst

end

/-! ## Connections -/

/-- What a call never takes back. -/
structure Bus.Grows (s s' : Bus) : Prop where
  conn : s'.conn = s.conn
  dialed : s'.dialed = s.dialed
  lost : ∀ k, s.lost k = true → s'.lost k = true
  closed : s.closed = true → s'.closed = true
  handlers : s.handlers.length ≤ s'.handlers.length

section

variable {s s' : Bus} {st st' : Stage} {w w' : Watch} {o : BusOp} {r : o.Ret}

theorem Bus.Grows.refl (s : Bus) : s.Grows s := ⟨rfl, rfl, fun _ => id, id, le_rfl⟩

theorem Bus.Grows.lose (s : Bus) (conn : Nat) :
    s.Grows { s with lost := Function.update s.lost conn true } := by
  refine ⟨rfl, rfl, fun k hk => ?_, id, le_rfl⟩
  by_cases hkc : k = conn
  · subst hkc
    exact Function.update_self ..
  · exact (Function.update_of_ne hkc ..).trans hk

theorem Turn.grows (h : Turn s st o r s' st') : s.Grows s' := by
  cases h with
  | shut => exact ⟨rfl, rfl, fun _ => id, fun _ => rfl, le_rfl⟩
  | drop => exact .lose s _
  | append =>
    refine ⟨rfl, rfl, fun _ => id, id, ?_⟩
    show _ ≤ (s.handlers ++ _).length
    rw [List.length_append]
    omega
  | _ => exact ⟨rfl, rfl, fun _ => id, id, le_rfl⟩

/-- Where the supervisor stands, when `c` is the current connection. -/
def Watch.At (s : Bus) (c : Nat) : Watch → Prop
  | .watching _ u | .sweeping _ _ u => ∀ k, u = some k → k = c
  | .down _ => s.lost c = true
  | .dialed _ d => s.lost c = true ∧ c < d ∧ d < s.dialed
  | .swapped | .entered => True
  | .closing => s.lost c = true ∧ s.closed = true

/-- The connections are in order: the current one was dialed, and the supervisor stands where it
    should. -/
def Placed (s : Bus) (w : Watch) : Prop :=
  ∃ c, s.conn = some c ∧ c < s.dialed ∧ w.At s c ∧ ∀ n, w.seen = some n → n ≤ s.handlers.length

theorem Placed.grows (h : Placed s w) (hg : s.Grows s') : Placed s' w := by
  obtain ⟨c, hc, hlt, hat, hn⟩ := h
  refine ⟨c, hg.conn.trans hc, hg.dialed ▸ hlt, ?_, fun n hn' => (hn n hn').trans hg.handlers⟩
  cases w with
  | watching | sweeping | swapped | entered => exact hat
  | down => exact hg.lost c hat
  | dialed => exact ⟨hg.lost c hat.1, hat.2.1, hg.dialed ▸ hat.2.2⟩
  | closing => exact ⟨hg.lost c hat.1, hg.closed hat.2⟩

theorem Placed.pass (h : Placed s w) (hp : Pass s w o r s' w') : Placed s' w' := by
  obtain ⟨c, hc, hlt, hat, hn⟩ := h
  cases hp with
  | stay => exact ⟨c, hc, hlt, hat, hn⟩
  | closing hclosed => exact ⟨c, hc, hlt, ⟨hat, hclosed⟩, nofun⟩
  | reopened hopen => exact absurd (hopen.symm.trans hat.2) Bool.false_ne_true
  | read => exact ⟨c, hc, hlt, fun k hk => Option.some.inj (hk.symm.trans hc), hn⟩
  | fell hlost =>
    obtain rfl := hat _ rfl
    exact ⟨_, hc, hlt, hlost, hn⟩
  | dial => exact ⟨c, hc, by dsimp only; omega, ⟨hat, hlt, by dsimp only; omega⟩, hn⟩
  | hangup => exact ⟨c, hc, hlt, (Bus.Grows.lose s _).lost c hat.1, hn⟩
  | swap => exact ⟨_, rfl, hat.2.2, trivial, nofun⟩
  | lock => exact ⟨c, hc, hlt, trivial, nofun⟩
  | registry => exact ⟨c, hc, hlt, nofun, fun n hn => (Option.some.inj hn).ge⟩
  | reread hconn => exact ⟨c, hc, hlt, fun k hk => Option.some.inj (hk.symm.trans (hconn.symm.trans hc)), hn⟩
  | unconnected hconn => exact ⟨c, hc, hlt, nofun, hn⟩
  | resubscribe | failed | unlock => exact ⟨c, hc, hlt, nofun, hn⟩

variable {ok : Scene → Beat → Prop} {c : Scene}

theorem placed (hreach : Reach scenes ok c) : Placed c.bus c.watch := by
  refine hreach.invariant (I := fun c => Placed c.bus c.watch) ?_ ?_
  · rintro c rfl
    exact ⟨0, rfl, Nat.zero_lt_one, nofun, fun n hn => (Option.some.inj hn).ge⟩
  · intro c l c' _ ih _ hst
    cases hst with
    | start | finish => exact ih
    | turn hst ht => exact ih.grows ht.grows
    | lose => exact ih.grows (.lose _ _)
    | pass hp => exact ih.pass hp

/-! ## Callers and the connections they use -/

/-- The connection a caller has read and may still use. -/
def Stage.conn : Stage → Option Nat
  | .holding _ u | .registered _ _ _ u => u
  | .subscribed _ k => some k
  | .begun | .made _ | .ended _ => none

/-- The connection of a caller is the current one or gone.  The holder of `regMu` may find that
    another was swapped in, but not that the registry was read for it; a handler whose caller works
    on a connection that is gone was there when the registry was read for the current one. -/
structure Stage.Works (s : Bus) (w : Watch) (st : Stage) : Prop where
  current : ∀ k, st.conn = some k → ∃ c, s.conn = some c ∧ k ≤ c ∧ (k = c ∨ s.lost k = true)
  locked : st.locked = true → ∀ k, st.conn = some k → s.conn = some k ∨ w.seen = none
  place : ∀ h i l u, st = .registered h i l u → i < s.handlers.length ∧
    ∀ k, u = some k → s.conn = some k ∨ ∀ n, w.seen = some n → i < n

theorem Stage.Works.grows (h : st.Works s w) (hg : s.Grows s') : st.Works s' w := by
  refine ⟨?_, ?_, ?_⟩
  · intro k hk
    obtain ⟨c, hc, hle, hor⟩ := h.current k hk
    exact ⟨c, hg.conn.trans hc, hle, hor.imp_right (hg.lost k)⟩
  · intro hl k hk
    rw [hg.conn]
    exact h.locked hl k hk
  · intro x i l u hst
    rw [hg.conn]
    exact ⟨(h.place x i l u hst).1.trans_le hg.handlers, (h.place x i l u hst).2⟩

/-- A caller without a connection, and not yet registered. -/
theorem Stage.Works.of_none (hconn : st.conn = none) (hst : ∀ h i l u, st ≠ .registered h i l u) :
    st.Works s w := by
  refine ⟨?_, ?_, fun h i l u h' => absurd h' (hst h i l u)⟩
  · intro k hk
    cases hconn.symm.trans hk
  · intro _ k hk
    cases hconn.symm.trans hk

theorem Stage.Works.turn (h : st.Works s w) (hplaced : Placed s w) (ht : Turn s st o r s' st') :
    st'.Works s' w := by
  have hg := h.grows ht.grows
  obtain ⟨c, hc, -, -, -⟩ := hplaced
  cases ht with
  | stay => exact h
  | make | shut | drop | lock | add | abandon | leave => exact .of_none rfl nofun
  | release =>
    refine ⟨hg.current, nofun, ?_⟩
    rintro _ _ _ _ ⟨⟩
    exact h.place _ _ _ _ rfl
  | read =>
    refine ⟨fun k hk => ⟨k, hk, le_rfl, .inl rfl⟩, fun _ k hk => .inl hk, nofun⟩
  | subscribe hup => exact ⟨hg.current, fun _ => hg.locked rfl, nofun⟩
  | append =>
    refine ⟨nofun, nofun, ?_⟩
    rintro _ _ _ _ ⟨⟩
    refine ⟨?_, nofun⟩
    show _ < (s.handlers ++ _).length
    rw [List.length_append, List.length_singleton]
    omega
  | reread hconn =>
    refine ⟨?_, nofun, ?_⟩
    · rintro k ⟨⟩
      exact ⟨_, hconn, le_rfl, .inl rfl⟩
    · rintro _ _ _ _ ⟨⟩
      refine ⟨(h.place _ _ _ _ rfl).1, ?_⟩
      rintro k ⟨⟩
      exact .inl hconn
  | unconnected | started | failed => exact .of_none rfl nofun

theorem Stage.Works.pass (h : st.Works s w) (hplaced : Placed s w) (hp : Pass s w o r s' w')
    (hfree : w.locked = true → st.locked = false) : st.Works s' w' := by
  obtain ⟨c, hc, hlt, hat, hn⟩ := hplaced
  cases hp with
  | stay | read | fell | reread | unconnected | resubscribe | failed | unlock =>
    exact ⟨h.current, h.locked, h.place⟩
  | dial => exact ⟨h.current, h.locked, h.place⟩
  | closing =>
    refine ⟨h.current, fun _ _ _ => .inr rfl, fun x i l u hst => ⟨(h.place x i l u hst).1, ?_⟩⟩
    exact fun _ _ => .inr nofun
  | reopened hopen => exact absurd (hopen.symm.trans hat.2) Bool.false_ne_true
  | @hangup n d =>
    have hg := h.grows (Bus.Grows.lose s d)
    exact ⟨hg.current, hg.locked, hg.place⟩
  | @swap n d =>
    refine ⟨?_, fun _ _ _ => .inr rfl, fun x i l u hst => ⟨(h.place x i l u hst).1, ?_⟩⟩
    · -- the connection that was current is gone
      intro k hk
      obtain ⟨c', hc', hle, hor⟩ := h.current k hk
      obtain rfl := Option.some.inj (hc'.symm.trans hc)
      refine ⟨d, rfl, hle.trans hat.2.1.le, .inr ?_⟩
      rcases hor with rfl | hlost
      · exact hat.1
      · exact hlost
    · exact fun _ _ => .inr nofun
  | lock => exact ⟨h.current, fun _ _ _ => .inr rfl, h.place⟩
  | registry =>
    refine ⟨h.current, ?_, ?_⟩
    · intro hl
      rw [hfree rfl] at hl
      cases hl
    · intro x i l u hst
      obtain ⟨hi, -⟩ := h.place x i l u hst
      refine ⟨hi, fun k _ => .inr ?_⟩
      rintro n ⟨⟩
      exact hi

theorem works (hreach : Reach scenes ok c) : ∀ st ∈ c.stages, st.Works c.bus c.watch := by
  refine hreach.invariant (I := fun c => ∀ st ∈ c.stages, st.Works c.bus c.watch) ?_ ?_
  · rintro c rfl st hst
    exact absurd hst (Multiset.notMem_zero st)
  · intro c l c' hreach ih _ hst st hmem
    cases hst with
    | start =>
      rcases Multiset.mem_cons.mp hmem with rfl | hmem
      · exact .of_none rfl nofun
      · exact ih st hmem
    | @turn st₀ st₁ rest o r s hst ht =>
      rcases Multiset.mem_cons.mp hmem with rfl | hmem
      · exact (ih st₀ (hst ▸ Multiset.mem_cons_self ..)).turn (placed hreach) ht
      · exact (ih st (hst ▸ Multiset.mem_cons_of_mem hmem)).grows ht.grows
    | finish hst hover => exact ih st (hst ▸ Multiset.mem_cons_of_mem hmem)
    | lose => exact (ih st hmem).grows (.lose _ _)
    | pass hp =>
      exact (ih st hmem).pass (placed hreach) hp fun hw => unlocked_of_entered hreach hw st hmem

/-- Nothing is subscribed on a connection that was never the current one. -/
theorem subs_le (hreach : Reach scenes ok c) :
    ∀ x ∈ c.bus.subs, ∃ k, c.bus.conn = some k ∧ x.1 ≤ k := by
  refine hreach.invariant
    (I := fun c => ∀ x ∈ c.bus.subs, ∃ k, c.bus.conn = some k ∧ x.1 ≤ k) ?_ ?_
  · rintro c rfl x hx
    cases hx
  · intro c l c' hreach ih _ hst
    cases hst with
    | start | finish => exact ih
    | lose => exact ih
    | @turn st st' rest o r s hst ht =>
      have hworks := works hreach st (hst ▸ Multiset.mem_cons_self ..)
      clear hst
      generalize c.bus = b at *
      cases ht with
      | subscribe | started =>
        intro x hx
        rcases List.mem_append.mp hx with hx | hx
        · exact ih x hx
        · obtain rfl := List.mem_singleton.mp hx
          obtain ⟨k, hk, hle, -⟩ := hworks.current _ rfl
          exact ⟨k, hk, hle⟩
      | _ => exact ih
    | @pass o r s w hp =>
      obtain ⟨k, hk, hlt, hat, -⟩ := placed hreach
      generalize c.bus = b at *
      generalize c.watch = v at *
      cases hp with
      | swap =>
        intro x hx
        obtain ⟨k', hk', hle⟩ := ih x hx
        obtain rfl := Option.some.inj (hk'.symm.trans hk)
        exact ⟨_, rfl, hle.trans hat.2.1.le⟩
      | resubscribe =>
        intro x hx
        rcases List.mem_append.mp hx with hx | hx
        · exact ih x hx
        · obtain rfl := List.mem_singleton.mp hx
          exact ⟨k, hk, (hat _ rfl).le⟩
      | _ => exact ih

end

/-! ## The balance of subscriptions -/

/-- The condition on a call of a caller.  A consumer is not subscribed on a connection for which the
    registry is still to be read; a handler is subscribed by its caller only on a connection for
    which the registry was read without it, and there without an error while the connection is up. -/
def callSteady (s : Bus) (w : Watch) (st : Stage) : (o : BusOp) → o.Ret → Prop
  | .invoke conn v, r =>
    s.conn = some conn →
      match st, v, r with
      | .holding _ _, .consume _ _ _ _, .ok _ => w.seen ≠ none
      | .registered _ i _ _, .consume _ _ _ _, .ok _ => ∃ n, w.seen = some n ∧ n ≤ i
      | .registered _ i _ _, _, .error _ => s.lost conn = true ∨ ∀ n, w.seen = some n → i < n
      | _, _, _ => True
  | _, _ => True

/-- The condition on a call of the supervisor: one that is made to subscribe again fails only when
    the connection is lost. -/
def passSteady (s : Bus) (w : Watch) : (o : BusOp) → o.Ret → Prop
  | .invoke conn _, .error _ => w.todo ≠ [] → s.lost conn = true
  | _, _ => True

/-- The two conditions, on a step of a link. -/
def steady (p : LinkPool) : LinkAct → Prop
  | .call r o a _ => callSteady p.shared.bus p.shared.past r.past o a
  | .world (.supervise o a) => passSteady p.shared.bus p.shared.past o a
  | _ => True

/-- The same, on a step of a scene. -/
def steadyScene (c : Scene) : Beat → Prop
  | .turn st o r => callSteady c.bus c.watch st o r
  | .pass o r => passSteady c.bus c.watch o r
  | _ => True

theorem steady_scene (p : LinkPool) (l : LinkAct) (b : Beat) (hok : steady p l)
    (hb : beat l = some b) : steadyScene (scene p) b := by
  cases l with
  | start | finish =>
    cases hb
    trivial
  | call =>
    cases hb
    exact hok
  | world e =>
    cases e with
    | lose =>
      cases hb
      trivial
    | supervise =>
      cases hb
      exact hok
    | loop => cases hb

/-- The handler that a caller has registered and is still to subscribe, unless it was there when the
    registry was read. -/
def Stage.owes (n : Nat) : Stage → Multiset Sub
  | .registered h i _ _ => if n ≤ i then {.config h} else 0
  | _ => 0

/-- The consumer that a caller has subscribed on the connection and is still to register. -/
def Stage.joins (c : Nat) : Stage → Multiset Sub
  | .subscribed cs k => if k = c then {.consumer cs} else 0
  | _ => 0

theorem Stage.of_mem_owes {st : Stage} {n : Nat} {x : Sub} (hx : x ∈ st.owes n) :
    ∃ h i l u, st = .registered h i l u ∧ x = .config h := by
  cases st with
  | registered h i l u =>
    change x ∈ (if n ≤ i then {.config h} else 0 : Multiset Sub) at hx
    split at hx
    · exact ⟨h, i, l, u, rfl, Multiset.mem_singleton.mp hx⟩
    · exact absurd hx (Multiset.notMem_zero x)
  | _ => exact absurd hx (Multiset.notMem_zero x)

theorem Stage.of_mem_joins {st : Stage} {c : Nat} {x : Sub} (hx : x ∈ st.joins c) :
    ∃ cs k, st = .subscribed cs k ∧ x = .consumer cs := by
  cases st with
  | subscribed cs k =>
    change x ∈ (if k = c then {.consumer cs} else 0 : Multiset Sub) at hx
    split at hx
    · exact ⟨cs, k, rfl, Multiset.mem_singleton.mp hx⟩
    · exact absurd hx (Multiset.notMem_zero x)
  | _ => exact absurd hx (Multiset.notMem_zero x)

/-- **The balance.**  On the current connection, while it is up: nothing, if the registry is still
    to be read for it; else what it carries, what is left to start again and what callers owe is
    what is registered and what callers bring in. -/
def Balanced (s : Bus) (w : Watch) (stages : Multiset Stage) : Prop :=
  ∀ c, s.conn = some c → s.lost c = false →
    (w.seen = none → s.live c = 0) ∧
      ∀ n, w.seen = some n → s.live c + w.todo + stages.bind (Stage.owes n) =
        s.registered + stages.bind (Stage.joins c)

section

variable {s s' : Bus} {st st' : Stage} {w w' : Watch} {o : BusOp} {r : o.Ret}

theorem Bus.live_subscribe (s : Bus) (conn c : Nat) (x : Sub) :
    Bus.live { s with subs := s.subs ++ [(conn, x)] } c =
      s.live c + if conn = c then {x} else 0 := by
  unfold Bus.live
  rw [List.filter_append, List.map_append, ← Multiset.coe_add]
  by_cases hconn : conn = c
  · rw [List.filter_cons_of_pos (by simpa using hconn), if_pos hconn]
    rfl
  · rw [List.filter_cons_of_neg (by simpa using hconn), if_neg hconn]
    rfl

theorem Bus.registered_add (s : Bus) (cs : Consumer) :
    Bus.registered { s with consumers := s.consumers ++ [cs] } =
      s.registered + {.consumer cs} := by
  unfold Bus.registered
  rw [← Multiset.coe_add, ← Multiset.coe_add, List.map_append, ← Multiset.coe_add]
  exact add_right_comm (_ : Multiset Sub) _ _

theorem Bus.registered_append (s : Bus) (h : Nat) :
    Bus.registered { s with handlers := s.handlers ++ [h] } = s.registered + {.config h} := by
  unfold Bus.registered
  rw [← Multiset.coe_add, ← Multiset.coe_add, List.map_append, ← Multiset.coe_add, add_assoc]
  rfl

/-- What a call of a caller does to the balance. -/
theorem Turn.balance (ht : Turn s st o r s' st') (hworks : st.Works s w) (hplaced : Placed s w)
    (hok : callSteady s w st o r) {c : Nat} (hc : s.conn = some c) (hup : s.lost c = false) :
    (w.seen = none → s'.live c = s.live c) ∧
      ∀ n, w.seen = some n → s'.live c + st'.owes n + (s.registered + st.joins c) =
        s.live c + st.owes n + (s'.registered + st'.joins c) := by
  -- a connection that is up and that a caller works on is the current one
  have hcurrent : ∀ k, st.conn = some k → s.lost k = false → k = c := by
    intro k hk hlost
    obtain ⟨c', hc', -, hor⟩ := hworks.current k hk
    obtain rfl := Option.some.inj (hc'.symm.trans hc)
    exact hor.resolve_right fun h => Bool.false_ne_true (hlost.symm.trans h)
  cases ht with
  | subscribe hlost =>
    obtain rfl := hcurrent _ rfl hlost
    refine ⟨fun hnone => absurd hnone (hok hc), fun n _ => ?_⟩
    rw [Bus.live_subscribe, if_pos rfl]
    simp only [Stage.owes, Stage.joins, if_true, add_zero]
    rw [add_right_comm, add_assoc]
    rfl
  | @add cs conn =>
    refine ⟨fun _ => rfl, fun n hn => ?_⟩
    rcases hworks.locked rfl conn rfl with hconn | hnone
    · obtain rfl := Option.some.inj (hconn.symm.trans hc)
      rw [Bus.registered_add]
      simp only [Stage.owes, Stage.joins, if_true, add_zero]
      rfl
    · rw [hn] at hnone
      cases hnone
  | append =>
    refine ⟨fun _ => rfl, fun n hn => ?_⟩
    obtain ⟨_, _, _, _, hle⟩ := hplaced
    rw [Bus.registered_append]
    simp only [Stage.owes, Stage.joins, if_pos (hle n hn), add_zero]
    rw [add_assoc, add_comm {_}]
    rfl
  | unconnected hnone => cases hnone.symm.trans hc
  | started hlost =>
    obtain rfl := hcurrent _ rfl hlost
    obtain ⟨m, hm, hle⟩ := hok hc
    refine ⟨fun hnone => absurd (hnone.symm.trans hm) nofun, fun n hn => ?_⟩
    obtain rfl := Option.some.inj (hm.symm.trans hn)
    rw [Bus.live_subscribe, if_pos rfl]
    simp only [Stage.owes, Stage.joins, if_pos hle, add_zero]
    rfl
  | @failed h i conn v text =>
    refine ⟨fun _ => rfl, fun n hn => ?_⟩
    have hlt : i < n := by
      rcases (hworks.place _ _ _ _ rfl).2 conn rfl with hconn | hread
      · obtain rfl := Option.some.inj (hconn.symm.trans hc)
        have hfail : s.lost conn = true ∨ ∀ n, w.seen = some n → i < n := by
          cases v <;> exact hok hc
        rcases hfail with hlost | hread
        · exact absurd (hup.symm.trans hlost) Bool.false_ne_true
        · exact hread n hn
      · exact hread n hn
    simp only [Stage.owes, if_neg (Nat.not_le.mpr hlt)]
    rfl
  | _ => exact ⟨fun _ => rfl, fun n _ => rfl⟩

/-- A caller whose stage owes and joins nothing. -/
theorem Stage.Over.nothing (h : st.Over) (n c : Nat) : st.owes n = 0 ∧ st.joins c = 0 := by
  cases st with
  | begun | ended => exact ⟨rfl, rfl⟩
  | _ => exact h.elim

variable {c : Scene}

theorem Balanced.pass {stages : Multiset Stage} (h : Balanced s w stages) (hplaced : Placed s w)
    (hworks : ∀ st ∈ stages, st.Works s w) (hfree : w.locked = true → ∀ st ∈ stages, st.locked = false)
    (hsubs : ∀ x ∈ s.subs, ∃ k, s.conn = some k ∧ x.1 ≤ k) (hok : passSteady s w o r)
    (hp : Pass s w o r s' w') : Balanced s' w' stages := by
  obtain ⟨k, hk, hlt, hat, hn⟩ := hplaced
  cases hp with
  | stay | read | fell | dial | lock | reread | unlock => exact h
  | closing =>
    intro c hc hup
    obtain rfl := Option.some.inj (hk.symm.trans hc)
    exact absurd (hup.symm.trans hat) Bool.false_ne_true
  | reopened hopen => exact absurd (hopen.symm.trans hat.2) Bool.false_ne_true
  | @hangup n d =>
    intro c hc hup
    obtain rfl := Option.some.inj (hk.symm.trans hc)
    have hlost := (Bus.Grows.lose s d).lost k hat.1
    exact absurd (hup.symm.trans hlost) Bool.false_ne_true
  | @swap n d =>
    -- the connection is new, and carries nothing
    rintro c ⟨⟩ hup
    refine ⟨fun _ => ?_, nofun⟩
    have hnone : s.subs.filter (·.1 = d) = [] := by
      refine List.filter_eq_nil_iff.mpr fun x hx hxd => ?_
      obtain ⟨k', hk', hle⟩ := hsubs x hx
      obtain rfl := Option.some.inj (hk'.symm.trans hk)
      have := of_decide_eq_true hxd
      have := hat.2.1
      omega
    show (((s.subs.filter (·.1 = d)).map (·.2) : List Sub) : Multiset Sub) = 0
    rw [hnone]
    rfl
  | registry =>
    -- everything registered is left to start, and no caller is in its critical section
    intro c hc hup
    refine ⟨nofun, ?_⟩
    rintro n ⟨⟩
    have hlive := (h c hc hup).1 rfl
    have howes : stages.bind (Stage.owes s.handlers.length) = 0 := by
      refine (Multiset.bind_congr fun st hst => ?_).trans (Multiset.bind_zero stages)
      cases st with
      | registered x i l u =>
        have hi := ((hworks _ hst).place x i l u rfl).1
        exact if_neg (Nat.not_le.mpr hi)
      | _ => rfl
    have hjoins : stages.bind (Stage.joins c) = 0 := by
      refine (Multiset.bind_congr fun st hst => ?_).trans (Multiset.bind_zero stages)
      cases st with
      | subscribed cs k => exact absurd (hfree rfl _ hst) (by simp [Stage.locked])
      | _ => rfl
    rw [hlive, howes, hjoins, zero_add]
    rfl
  | unconnected hnone => cases hnone.symm.trans hk
  | @resubscribe n conn x xs q a e text hup' =>
    intro c hc hup
    obtain rfl := Option.some.inj (hk.symm.trans hc)
    obtain rfl := hat conn rfl
    refine ⟨nofun, fun m hm => ?_⟩
    have hbal := (h _ hc hup).2 m hm
    rw [Bus.live_subscribe, if_pos rfl]
    rw [show ((Watch.sweeping n (x :: xs) (some conn)).todo : Multiset Sub) =
      {x} + (xs : Multiset Sub) from rfl, ← add_assoc] at hbal
    exact hbal
  | @failed n conn x xs v text =>
    intro c hc hup
    obtain rfl := Option.some.inj (hk.symm.trans hc)
    obtain rfl := hat conn rfl
    exact absurd (hup.symm.trans (hok (List.cons_ne_nil _ _))) Bool.false_ne_true

theorem balanced (hreach : Reach scenes steadyScene c) : Balanced c.bus c.watch c.stages := by
  refine hreach.invariant (I := fun c => Balanced c.bus c.watch c.stages) ?_ ?_
  · rintro c rfl k hk hup
    exact ⟨fun _ => rfl, fun n _ => rfl⟩
  · intro c l c' hreach ih hok hst
    cases hst with
    | start =>
      intro k hk hup
      refine ⟨(ih k hk hup).1, fun n hn => ?_⟩
      rw [Multiset.cons_bind, Multiset.cons_bind]
      simp only [Stage.owes, Stage.joins, zero_add]
      exact (ih k hk hup).2 n hn
    | @turn st st' rest o r s hst ht =>
      intro k hk hup
      have hg := ht.grows
      have hk₀ : c.bus.conn = some k := hg.conn.symm.trans hk
      have hup₀ : c.bus.lost k = false := by
        by_contra hlost
        exact Bool.false_ne_true (hup.symm.trans (hg.lost k (by simpa using hlost)))
      have hworks := works hreach st (hst ▸ Multiset.mem_cons_self ..)
      obtain ⟨hsame, hbal⟩ := ht.balance hworks (placed hreach) hok hk₀ hup₀
      refine ⟨fun hnone => (hsame hnone).trans ((ih k hk₀ hup₀).1 hnone), fun n hn => ?_⟩
      have hold := (ih k hk₀ hup₀).2 n hn
      have hnew := hbal n hn
      rw [hst, Multiset.cons_bind, Multiset.cons_bind] at hold
      rw [Multiset.cons_bind, Multiset.cons_bind]
      dsimp only
      ext x
      replace hold := congrArg (Multiset.count x) hold
      replace hnew := congrArg (Multiset.count x) hnew
      simp only [Multiset.count_add] at hold hnew ⊢
      omega
    | @finish st rest hst hover =>
      intro k hk hup
      refine ⟨(ih k hk hup).1, fun n hn => ?_⟩
      have hold := (ih k hk hup).2 n hn
      obtain ⟨howes, hjoins⟩ := hover.nothing n k
      rw [hst, Multiset.cons_bind, Multiset.cons_bind, howes, hjoins, zero_add, zero_add] at hold
      exact hold
    | @lose conn =>
      intro k hk hup
      refine ih k hk ?_
      by_contra hlost
      have := (Bus.Grows.lose c.bus conn).lost k (by simpa using hlost)
      exact Bool.false_ne_true (hup.symm.trans this)
    | pass hp =>
      exact ih.pass (placed hreach) (works hreach) (unlocked_of_entered hreach) (subs_le hreach)
        hok hp

end

/-! ## Every registration is its own -/

/-- The channel or handler that a caller has made and not registered. -/
def Stage.owned : Stage → Multiset Nat
  | .made out | .holding out _ => {out}
  | .subscribed cs _ => {cs.out}
  | .begun | .registered _ _ _ _ | .ended _ => 0

/-- The channels and handlers in the registry. -/
def Bus.names (s : Bus) : Multiset Nat := (s.consumers.map (·.out) ++ s.handlers : List Nat)

section

variable {s s' : Bus} {st st' : Stage} {w w' : Watch} {o : BusOp} {r : o.Ret}

/-- A caller makes a new name, or takes one to the registry, or drops it. -/
theorem Turn.names (h : Turn s st o r s' st') :
    (s'.made = s.made ∧ s'.names + st'.owned ≤ s.names + st.owned) ∨
      (s'.made = s.made + 1 ∧ s'.names + st'.owned = s.made ::ₘ (s.names + st.owned)) := by
  cases h with
  | make =>
    refine .inr ⟨rfl, ?_⟩
    simp only [Stage.owned, add_zero]
    exact Multiset.add_comm _ _
  | @add cs conn =>
    refine .inl ⟨rfl, le_of_eq ?_⟩
    simp only [Bus.names, Stage.owned, add_zero, List.map_append, ← Multiset.coe_add]
    exact add_right_comm _ _ _
  | append =>
    refine .inl ⟨rfl, le_of_eq ?_⟩
    simp only [Bus.names, Stage.owned, add_zero, ← Multiset.coe_add, add_assoc]
    rfl
  | abandon =>
    refine .inl ⟨rfl, ?_⟩
    simp only [Stage.owned, add_zero]
    exact Multiset.le_add_right _ _
  | _ => exact .inl ⟨rfl, le_rfl⟩

theorem Pass.names (h : Pass s w o r s' w') : s'.made = s.made ∧ s'.names = s.names := by
  cases h with
  | _ => exact ⟨rfl, rfl⟩

/-- The names in the registry and in the hands of callers are different, and were made. -/
def Named (s : Bus) (stages : Multiset Stage) : Prop :=
  (s.names + stages.bind Stage.owned).Nodup ∧ ∀ i ∈ s.names + stages.bind Stage.owned, i < s.made

theorem Named.of_le {stages stages' : Multiset Stage} (h : Named s stages)
    (hmade : s'.made = s.made)
    (hle : s'.names + stages'.bind Stage.owned ≤ s.names + stages.bind Stage.owned) :
    Named s' stages' :=
  ⟨Multiset.nodup_of_le hle h.1, fun i hi => hmade ▸ h.2 i (Multiset.mem_of_le hle hi)⟩

variable {ok : Scene → Beat → Prop} {c : Scene}

theorem named (hreach : Reach scenes ok c) : Named c.bus c.stages := by
  refine hreach.invariant (I := fun c => Named c.bus c.stages) ?_ ?_
  · rintro c rfl
    exact ⟨Multiset.nodup_zero, fun i hi => absurd hi (Multiset.notMem_zero i)⟩
  · intro c l c' _ ih _ hst
    cases hst with
    | start =>
      refine ih.of_le rfl (le_of_eq ?_)
      rw [Multiset.cons_bind]
      simp only [Stage.owned, zero_add]
    | @turn st st' rest o r s hst ht =>
      have hbefore : c.bus.names + c.stages.bind Stage.owned =
          c.bus.names + st.owned + rest.bind Stage.owned := by
        rw [hst, Multiset.cons_bind, add_assoc]
      have hafter : s.names + (st' ::ₘ rest).bind Stage.owned =
          s.names + st'.owned + rest.bind Stage.owned := by
        rw [Multiset.cons_bind, add_assoc]
      rcases ht.names with ⟨hmade, hle⟩ | ⟨hmade, heq⟩
      · refine ih.of_le hmade ?_
        rw [hbefore, hafter]
        exact Multiset.add_le_add_right hle
      · -- a new name
        obtain ⟨hnodup, hlt⟩ := ih
        rw [hbefore] at hnodup hlt
        unfold Named
        dsimp only
        rw [hafter, heq, Multiset.cons_add, hmade]
        refine ⟨Multiset.nodup_cons.mpr ⟨fun hmem => ?_, hnodup⟩, fun i hi => ?_⟩
        · exact absurd (hlt _ hmem) (Nat.lt_irrefl _)
        · rcases Multiset.mem_cons.mp hi with rfl | hi
          · exact Nat.lt_succ_self _
          · exact (hlt i hi).trans (Nat.lt_succ_self _)
    | @finish st rest hst hover =>
      refine ih.of_le rfl ?_
      rw [hst, Multiset.cons_bind]
      exact Multiset.add_le_add_left (Multiset.le_add_left _ _)
    | lose => exact ih
    | pass hp =>
      obtain ⟨hmade, hnames⟩ := hp.names
      exact ih.of_le hmade (by rw [hnames])

end

/-! ## Once each -/

theorem Bus.registered_nodup {s : Bus} (h : s.names.Nodup) : s.registered.Nodup := by
  obtain ⟨houts, hhandlers, -⟩ := List.nodup_append.mp (Multiset.coe_nodup.mp h)
  refine Multiset.coe_nodup.mpr (List.nodup_append.mpr ⟨?_, ?_, ?_⟩)
  · exact (List.Nodup.of_map _ houts).map fun _ _ h => Sub.consumer.inj h
  · exact hhandlers.map fun _ _ h => Sub.config.inj h
  · intro x hx y hy
    obtain ⟨cs, -, rfl⟩ := List.mem_map.mp hx
    obtain ⟨handler, -, rfl⟩ := List.mem_map.mp hy
    exact nofun

/-- While the supervisor waits for the end of a connection, it is the current one, and on it
    everything registered is subscribed but what callers have not subscribed yet. -/
theorem waiting_balance {p : LinkPool} (hreach : Reach link.lts steady p) {conn : Nat}
    (hwait : p.shared.WaitsOn conn) (hup : p.shared.bus.lost conn = false) :
    p.shared.bus.conn = some conn ∧ ∃ n,
      p.shared.bus.live conn + (scene p).stages.bind (Stage.owes n) =
        p.shared.bus.registered + (scene p).stages.bind (Stage.joins conn) := by
  have hscene := scene_reach steady_scene hreach
  obtain ⟨k, hk⟩ := hwait
  have hallow := supervisor_obeys hreach
  rw [hk] at hallow
  have hpast : ∃ n, p.shared.past = .watching n (some conn) := by
    have h : p.shared.past.allow (.notifyClose conn) := hallow.1
    cases hw : p.shared.past with
    | watching n u =>
      rw [hw] at h
      exact ⟨n, congrArg _ h⟩
    | _ =>
      rw [hw] at h
      exact h.elim
  obtain ⟨n, hw⟩ := hpast
  obtain ⟨c, hc, -, hat, -⟩ := placed hscene
  have hconn : p.shared.bus.conn = some conn := by
    change p.shared.past.At _ _ at hat
    rw [hw] at hat
    rw [hat conn rfl]
    exact hc
  refine ⟨hconn, n, ?_⟩
  have hbal := (balanced hscene conn hconn hup).2 n (congrArg Watch.seen hw)
  rw [show (scene p).watch.todo = [] from congrArg Watch.todo hw] at hbal
  rw [Multiset.coe_nil, add_zero] at hbal
  exact hbal

/-- **Subscriptions survive reconnects exactly once**, in every run that keeps to `steady`: whenever
    the supervisor waits on a connection that is up, each registered consumer, and each registered
    handler whose `SubscribeConfig` is over, has one live subscription on it, and no second. -/
theorem subscriptions_once {p : LinkPool} (hreach : Reach link.lts steady p) {conn : Nat}
    (hwait : p.shared.WaitsOn conn) (hup : p.shared.bus.lost conn = false) :
    p.shared.bus.conn = some conn ∧
      (∀ cs ∈ p.shared.bus.consumers, (p.shared.bus.live conn).count (.consumer cs) = 1) ∧
      ∀ h ∈ p.shared.bus.handlers,
        (∀ r ∈ p.running, ∀ i l u, r.past ≠ .registered h i l u) →
          (p.shared.bus.live conn).count (.config h) = 1 := by
  obtain ⟨hconn, n, hbal⟩ := waiting_balance hreach hwait hup
  obtain ⟨hnodup, -⟩ := named (scene_reach steady_scene hreach)
  obtain ⟨hnames, -, hapart⟩ := Multiset.nodup_add.mp hnodup
  have hone : ∀ x ∈ p.shared.bus.registered, p.shared.bus.registered.count x = 1 :=
    fun x hx => Multiset.count_eq_one_of_mem (Bus.registered_nodup hnames) hx
  have hcount : ∀ x ∈ p.shared.bus.registered, x ∉ (scene p).stages.bind (Stage.owes n) →
      x ∉ (scene p).stages.bind (Stage.joins conn) → (p.shared.bus.live conn).count x = 1 := by
    intro x hx howes hjoins
    have hsum := congrArg (Multiset.count x) hbal
    rw [Multiset.count_add, Multiset.count_add, Multiset.count_eq_zero_of_notMem howes,
      Multiset.count_eq_zero_of_notMem hjoins, hone x hx] at hsum
    exact hsum
  refine ⟨hconn, ?_, ?_⟩
  · intro cs hcs
    refine hcount _ ?_ ?_ ?_
    · exact List.mem_append_left _ (List.mem_map_of_mem hcs)
    · intro hmem
      obtain ⟨st, -, hst⟩ := Multiset.mem_bind.mp hmem
      obtain ⟨_, _, _, _, -, hx⟩ := Stage.of_mem_owes hst
      cases hx
    · -- a caller that is still to register a consumer has made it itself
      intro hmem
      obtain ⟨st, hrun, hst⟩ := Multiset.mem_bind.mp hmem
      obtain ⟨cs', k, rfl, hx⟩ := Stage.of_mem_joins hst
      cases hx
      have hname : cs.out ∈ p.shared.bus.names :=
        List.mem_append_left _ (List.mem_map_of_mem hcs)
      exact Multiset.disjoint_left.mp hapart hname
        (Multiset.mem_bind.mpr ⟨_, hrun, Multiset.mem_singleton_self _⟩)
  · intro h hh hover
    refine hcount _ ?_ ?_ ?_
    · exact List.mem_append_right _ (List.mem_map_of_mem hh)
    · intro hmem
      obtain ⟨st, hrun, hst⟩ := Multiset.mem_bind.mp hmem
      obtain ⟨r, hr, rfl⟩ := Multiset.mem_map.mp hrun
      obtain ⟨_, i, l, u, hpast, hx⟩ := Stage.of_mem_owes hst
      cases hx
      exact hover r hr i l u hpast
    · intro hmem
      obtain ⟨st, -, hst⟩ := Multiset.mem_bind.mp hmem
      obtain ⟨_, _, -, hx⟩ := Stage.of_mem_joins hst
      cases hx

/-! ## A consumer that is registered during a reconnect -/

section

variable {ok : LinkPool → LinkAct → Prop} {s : Link} {w : Watch} {b : Bus} {o : BusOp}
  {rs : Multiset LinkRun}

theorem supervisor_call {k : o.Ret → BusProg Loop} (h : Reach link.lts ok ⟨⟨b, w, .call o k⟩, rs⟩)
    (r : o.Ret) (hok : ok ⟨⟨b, w, .call o k⟩, rs⟩ (.world (.supervise o r))) (ha : o.Answers b r) :
    Reach link.lts ok ⟨⟨o.after b r, w.next o r, k r⟩, rs⟩ :=
  .step (l := .world (.supervise o r)) h hok (.world (V := link) (.supervise rfl ha))

theorem supervisor_loop {l : Loop} (h : Reach link.lts ok ⟨⟨b, w, .pure l⟩, rs⟩)
    (hok : ok ⟨⟨b, w, .pure l⟩, rs⟩ (.world (.loop l))) :
    Reach link.lts ok ⟨⟨b, w, l.body⟩, rs⟩ :=
  .step (l := .world (.loop l)) h hok (.world (V := link) (.loop rfl))

theorem begin_call {t : Task} (h : Reach link.lts ok ⟨s, 0⟩) (hok : ok ⟨s, 0⟩ (.start t)) :
    Reach link.lts ok ⟨s, {⟨t, .begun, t.body⟩}⟩ :=
  .step (l := .start t) h hok (.start (V := link) trivial)

theorem caller_call {t : Task} {st : Stage} {k : o.Ret → BusProg (Option String)}
    (h : Reach link.lts ok ⟨s, {⟨t, st, .call o k⟩}⟩) (r : o.Ret)
    (hok : ok ⟨s, {⟨t, st, .call o k⟩}⟩ (.call ⟨t, st, .call o k⟩ o r ())) (ha : o.Answers s.bus r) :
    Reach link.lts ok ⟨{ s with bus := o.after s.bus r }, {⟨t, st.next o r, k r⟩}⟩ :=
  .step (l := .call ⟨t, st, .call o k⟩ o r ()) h hok (.call (V := link) rfl rfl ⟨ha, rfl⟩)

theorem end_call {t : Task} {st : Stage} {a : Option String}
    (h : Reach link.lts ok ⟨s, {⟨t, st, .pure a⟩}⟩)
    (hok : ok ⟨s, {⟨t, st, .pure a⟩}⟩ (.finish ⟨t, st, .pure a⟩ a)) : Reach link.lts ok ⟨s, 0⟩ :=
  .step (l := .finish ⟨t, st, .pure a⟩ a) h hok (.finish (V := link) rfl rfl)

/-- A connection is lost, whatever else goes on. -/
theorem lose_conn (h : Reach link.lts ok ⟨s, rs⟩) (conn : Nat) (hok : ok ⟨s, rs⟩ (.world (.lose conn))) :
    Reach link.lts ok ⟨{ s with bus.lost := Function.update s.bus.lost conn true }, rs⟩ :=
  .step (l := .world (.lose conn)) h hok (.world (V := link) .lose)

end

/-- The consumer of the work queue. -/
def worker : Consumer := ⟨queueName .work, 10, 0⟩

/-- A worker registers its consumer and subscribes its handler.  Its connection is lost, the
    supervisor connects again and waits on the second one. -/
theorem worker_reconnected : ∃ p : LinkPool, Reach link.lts steady p ∧ p.shared.WaitsOn 1 ∧
    p.running = 0 ∧ p.shared.bus.lost 0 = true ∧ p.shared.bus.lost 1 = false ∧
    worker ∈ p.shared.bus.consumers ∧ 1 ∈ p.shared.bus.handlers := by
  have h : Reach link.lts steady ⟨dialed, 0⟩ := .init ⟨rfl, rfl⟩
  have h := supervisor_call h false trivial rfl
  have h := supervisor_call h (some 0) trivial rfl
  -- `registerConsumer`
  have h := begin_call (t := .registerConsumer (queueName .work) 10) h trivial
  have h := caller_call h 0 trivial rfl
  have h := caller_call h () trivial rfl
  have h := caller_call h (some 0) trivial rfl
  have h := caller_call h (.ok "") (fun _ => trivial) rfl
  have h := caller_call h (.ok "") (fun _ => trivial) rfl
  have h := caller_call h (.ok "") (fun _ => nofun) rfl
  have h := caller_call h () trivial trivial
  have h := caller_call h () trivial trivial
  have h := end_call h trivial
  -- `SubscribeConfig`
  have h := begin_call (t := .subscribeConfig) h trivial
  have h := caller_call h 1 trivial rfl
  have h := caller_call h () trivial rfl
  have h := caller_call h 0 trivial rfl
  have h := caller_call h () trivial trivial
  have h := caller_call h (some 0) trivial rfl
  have h := caller_call h (.ok "") (fun _ => trivial) rfl
  have h := caller_call h (.ok "") (fun _ => trivial) rfl
  have h := caller_call h (.ok "amq.gen-1") (fun _ => trivial) rfl
  have h := caller_call h (.ok "") (fun _ => trivial) rfl
  have h := caller_call h (.ok "") (fun _ => ⟨0, rfl, Nat.le_refl 0⟩) rfl
  have h := end_call h trivial
  -- the connection is lost, and the supervisor connects again
  have h := lose_conn h 0 trivial
  have h := supervisor_call h () trivial rfl
  have h := supervisor_call h false trivial rfl
  have h := supervisor_loop h trivial
  have h := supervisor_call h false trivial rfl
  have h := supervisor_call h (.ok 1) trivial rfl
  have h := supervisor_call h (.ok "") trivial rfl
  have h := supervisor_call h (.ok "") trivial rfl
  have h := supervisor_call h (.ok "") trivial rfl
  have h := supervisor_call h (.ok "") trivial rfl
  have h := supervisor_call h (.ok "") trivial rfl
  have h := supervisor_call h (.ok "") trivial rfl
  have h := supervisor_call h (.ok "") trivial rfl
  have h := supervisor_call h (.ok "") trivial rfl
  have h := supervisor_call h (.ok "") trivial rfl
  have h := supervisor_call h () trivial trivial
  -- `reestablish`
  have h := supervisor_call h () trivial rfl
  have h := supervisor_call h ([worker], [1]) trivial rfl
  have h := supervisor_call h (some 1) trivial rfl
  have h := supervisor_call h (.ok "") trivial rfl
  have h := supervisor_call h (.ok "") trivial rfl
  have h := supervisor_call h (.ok "") trivial rfl
  have h := supervisor_call h (some 1) trivial rfl
  have h := supervisor_call h (.ok "") trivial rfl
  have h := supervisor_call h (.ok "") trivial rfl
  have h := supervisor_call h (.ok "amq.gen-2") trivial rfl
  have h := supervisor_call h (.ok "") trivial rfl
  have h := supervisor_call h (.ok "") trivial rfl
  have h := supervisor_call h () trivial trivial
  have h := supervisor_loop h trivial
  have h := supervisor_call h false trivial rfl
  have h := supervisor_loop h trivial
  have h := supervisor_call h false trivial rfl
  have h := supervisor_call h (some 1) trivial rfl
  exact ⟨_, h, ⟨_, rfl⟩, rfl, rfl, rfl, List.mem_singleton_self _, List.mem_singleton_self _⟩

theorem subscriptions_once_worker : ∃ p : LinkPool, Reach link.lts steady p ∧
    p.shared.WaitsOn 1 ∧ p.shared.bus.lost 0 = true ∧
    worker ∈ p.shared.bus.consumers ∧ (p.shared.bus.live 1).count (.consumer worker) = 1 ∧
    1 ∈ p.shared.bus.handlers ∧ (p.shared.bus.live 1).count (.config 1) = 1 := by
  obtain ⟨p, hreach, hwait, hquiet, hlost, hup, hworker, hhandler⟩ := worker_reconnected
  obtain ⟨-, hconsumers, hhandlers⟩ := subscriptions_once hreach hwait hup
  refine ⟨p, hreach, hwait, hlost, hworker, hconsumers worker hworker, hhandler,
    hhandlers 1 hhandler fun r hr => ?_⟩
  rw [hquiet] at hr
  exact absurd hr (Multiset.notMem_zero r)

/-- A consumer that is registered after `connect` has swapped in the new connection, and before
    `reestablish` takes `regMu`, is subscribed twice on it. -/
theorem doubled_on_reconnect :
    ¬ ∀ (p : LinkPool) (conn : Nat), Reach link.lts anyStep p → p.shared.WaitsOn conn →
      p.shared.bus.lost conn = false →
        (∀ cs ∈ p.shared.bus.consumers, (p.shared.bus.live conn).count (.consumer cs) = 1) ∧
        ∀ h ∈ p.shared.bus.handlers,
          (∀ r ∈ p.running, ∀ i l u, r.past ≠ .registered h i l u) →
            (p.shared.bus.live conn).count (.config h) = 1 := by
  intro hclaim
  have h : Reach link.lts anyStep ⟨dialed, 0⟩ := .init ⟨rfl, rfl⟩
  have h := supervisor_call h false trivial rfl
  have h := supervisor_call h (some 0) trivial rfl
  -- the connection is lost, and the supervisor connects again
  have h := lose_conn h 0 trivial
  have h := supervisor_call h () trivial rfl
  have h := supervisor_call h false trivial rfl
  have h := supervisor_loop h trivial
  have h := supervisor_call h false trivial rfl
  have h := supervisor_call h (.ok 1) trivial rfl
  have h := supervisor_call h (.ok "") trivial rfl
  have h := supervisor_call h (.ok "") trivial rfl
  have h := supervisor_call h (.ok "") trivial rfl
  have h := supervisor_call h (.ok "") trivial rfl
  have h := supervisor_call h (.ok "") trivial rfl
  have h := supervisor_call h (.ok "") trivial rfl
  have h := supervisor_call h (.ok "") trivial rfl
  have h := supervisor_call h (.ok "") trivial rfl
  have h := supervisor_call h (.ok "") trivial rfl
  have h := supervisor_call h () trivial trivial
  -- the worker registers its consumer over the new connection
  have h := begin_call (t := .registerConsumer (queueName .work) 10) h trivial
  have h := caller_call h 0 trivial rfl
  have h := caller_call h () trivial rfl
  have h := caller_call h (some 1) trivial rfl
  have h := caller_call h (.ok "") trivial rfl
  have h := caller_call h (.ok "") trivial rfl
  have h := caller_call h (.ok "") trivial rfl
  have h := caller_call h () trivial trivial
  have h := caller_call h () trivial trivial
  have h := end_call h trivial
  -- and `reestablish` finds it in the registry
  have h := supervisor_call h () trivial rfl
  have h := supervisor_call h ([worker], []) trivial rfl
  have h := supervisor_call h (some 1) trivial rfl
  have h := supervisor_call h (.ok "") trivial rfl
  have h := supervisor_call h (.ok "") trivial rfl
  have h := supervisor_call h (.ok "") trivial rfl
  have h := supervisor_call h () trivial trivial
  have h := supervisor_loop h trivial
  have h := supervisor_call h false trivial rfl
  have h := supervisor_loop h trivial
  have h := supervisor_call h false trivial rfl
  have h := supervisor_call h (some 1) trivial rfl
  have hone := (hclaim _ 1 h ⟨_, rfl⟩ rfl).1 worker (List.mem_singleton_self _)
  exact absurd hone (by decide)

end Novamail.Amqp

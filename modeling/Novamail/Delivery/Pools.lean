/-
  Warm connections, over the reloads of a delivery worker.

  A reload replaces the instances wholesale, and their pools with them.  A connection that was warm
  in an instance of the old `routeState` stays open: `Close`, which would end it, has no caller.
  A send that began before the reload still gives its connection back to the old instance.

  `retiring` bars just these two.
-/
import Mathlib.Algebra.Order.BigOperators.Group.Finset
import Novamail.Providers.TlsPolicy

namespace Novamail.Wire

open Novamail.Core

variable {E : Env} {s : Net} {h : List Held} {o : WireOp} {r : o.Ret} {c : Nat}

/-! ## Where the open connections are -/

/-- Only a dial makes a connection that is open. -/
theorem WireOp.after_open (hopen : (o.after s r).Open c) :
    s.Open c ∨ ∃ x ∈ o.next h r, x.conn = c := by
  have hsame : ∀ s' : Net, s'.conns = s.conns → s'.Open c → s.Open c := by
    rintro s' hs ⟨conn, hc, ho⟩
    exact ⟨conn, hs ▸ hc, ho⟩
  have halter : ∀ d (f : Conn → Conn), (∀ conn, (f conn).isOpen = true → conn.isOpen = true) →
      (s.alter d f).Open c → s.Open c := by
    rintro d f hf ⟨conn, hc, ho⟩
    by_cases hd : c = d
    · subst hd
      rw [show (s.alter c f).conns c = (s.conns c).map f from Function.update_self ..] at hc
      obtain ⟨old, hold, rfl⟩ := Option.map_eq_some_iff.mp hc
      exact ⟨old, hold, hf old ho⟩
    · rw [show (s.alter d f).conns c = s.conns c from Function.update_of_ne hd _ _] at hc
      exact ⟨conn, hc, ho⟩
  obtain ⟨p, cmd⟩ := o
  cases cmd with
  | dial addr tls =>
    cases r with
    | error e => exact .inl hopen
    | ok d =>
      obtain ⟨conn, hc, ho⟩ := hopen
      by_cases hd : c = d
      · exact .inr ⟨_, List.mem_cons_self, hd.symm⟩
      · exact .inl ⟨conn, (Function.update_of_ne hd _ _).symm.trans hc, ho⟩
  | run d v =>
    cases v with
    | startTLS cfg =>
      cases r with
      | none => exact .inl (halter d (fun conn => { conn with tls := true }) (fun _ => id) hopen)
      | some e => exact .inl hopen
    | _ => exact .inl hopen
  | extension d name =>
    cases r with
    | true => exact .inl hopen
    | false =>
      by_cases hname : name = "STARTTLS"
      · subst hname
        exact .inl (halter d (fun conn => { conn with bare := true }) (fun _ => id) hopen)
      · refine .inl (hsame _ ?_ hopen)
        show (if name = "STARTTLS" then _ else s).conns = _
        rw [if_neg hname]
  | close d => exact .inl (halter d (fun conn => { conn with isOpen := false }) (fun _ => nofun) hopen)
  | giveIdle d bound => cases r with | true | false => exact .inl (hsame _ rfl hopen)
  | takeIdle | drain | token | refresh | lookupMX | reserve => exact .inl (hsame _ rfl hopen)

/-- A connection in hand is still in hand after a call, or warm, or closed. -/
theorem WireOp.after_held {x : Held} (hp : Permits E h o) (hx : x ∈ h)
    (hopen : (o.after s r).Open x.conn) :
    (∃ y ∈ o.next h r, y.conn = x.conn) ∨ ∃ p, x.conn ∈ (o.after s r).idle p := by
  obtain ⟨p, cmd⟩ := o
  cases cmd with
  | dial addr tls =>
    cases r with
    | error e => exact .inl ⟨x, hx, rfl⟩
    | ok d => exact .inl ⟨x, List.mem_cons_of_mem _ hx, rfl⟩
  | run d v =>
    cases v with
    | startTLS cfg =>
      cases r with
      | none => exact .inl ⟨_, List.mem_map_of_mem hx, rfl⟩
      | some e => exact .inl ⟨x, hx, rfl⟩
    | _ => exact .inl ⟨x, hx, rfl⟩
  | extension d name =>
    cases r with
    | true => exact .inl ⟨x, hx, rfl⟩
    | false =>
      show (∃ y ∈ (if name = "STARTTLS" then _ else h), _) ∨ _
      by_cases hname : name = "STARTTLS"
      · rw [if_pos hname]
        exact .inl ⟨_, List.mem_map_of_mem hx, rfl⟩
      · rw [if_neg hname]
        exact .inl ⟨x, hx, rfl⟩
  | close d =>
    by_cases hd : x.conn = d
    · -- this one is closed now
      obtain ⟨conn, hc, ho⟩ := hopen
      subst hd
      rw [show (WireOp.after s ⟨p, .close x.conn⟩ r).conns x.conn =
        (s.conns x.conn).map fun conn => { conn with isOpen := false } from
          Function.update_self ..] at hc
      obtain ⟨old, _, rfl⟩ := Option.map_eq_some_iff.mp hc
      cases ho
    · exact .inl ⟨x, (List.mem_eraseP_of_neg (by simpa using hd)).mpr hx, rfl⟩
  | takeIdle =>
    cases r with
    | none => exact .inl ⟨x, hx, rfl⟩
    | some d => exact .inl ⟨x, List.mem_cons_of_mem _ hx, rfl⟩
  | giveIdle d bound =>
    cases r with
    | false => exact .inl ⟨x, hx, rfl⟩
    | true =>
      by_cases hd : x.conn = d
      · refine .inr ⟨p, ?_⟩
        show _ ∈ Function.update s.idle p (s.idle p ++ [d]) p
        rw [Function.update_self, hd]
        exact List.mem_append_right _ (List.mem_singleton_self d)
      · exact .inl ⟨x, (List.mem_eraseP_of_neg (by simpa using hd)).mpr hx, rfl⟩
  | drain =>
    rw [show h = [] from hp] at hx
    cases hx
  | token | refresh | lookupMX | reserve => exact .inl ⟨x, hx, rfl⟩

/-- A warm connection is still warm after a call, or in the hands of the caller. -/
theorem WireOp.after_warm {p : Ref} (ha : o.Answers s r) (hc : c ∈ s.idle p) :
    (∃ x ∈ o.next h r, x.conn = c) ∨ ∃ q, c ∈ (o.after s r).idle q := by
  rcases WireOp.idle_cases ha p with hi | ⟨rfl, hi⟩ | ⟨d, bound, _, _, hi⟩ | ⟨rfl, _⟩
  · exact .inr ⟨p, hi ▸ hc⟩
  · cases hlast : (s.idle p).getLast? with
    | none =>
      rw [List.getLast?_eq_none_iff.mp hlast] at hc
      cases hc
    | some d =>
      rw [← List.dropLast_append_getLast? d hlast] at hc
      rcases List.mem_append.mp hc with hc | hc
      · exact .inr ⟨p, hi ▸ hc⟩
      · -- the one that was taken
        rw [show r = some d from Eq.trans ha hlast]
        exact .inl ⟨_, List.mem_cons_self, (List.mem_singleton.mp hc).symm⟩
  · exact .inr ⟨p, hi ▸ List.mem_append_left _ hc⟩
  · rw [show r = s.idle p from ha]
    exact .inl ⟨_, List.mem_map_of_mem hc, rfl⟩

/-- Every open connection is in the hands of a program or warm. -/
def WirePool.Accounted (w : WirePool) : Prop :=
  ∀ c, w.shared.Open c →
    (∃ r ∈ w.running, ∃ x ∈ r.past, x.conn = c) ∨ ∃ p, c ∈ w.shared.idle p

/-- **No connection is forgotten** while it is in hand: in every state the worker reaches, an open
    connection is in the hands of a running program or in some pool. -/
theorem accounted {ok : WirePool → WireAct → Prop} {w : WirePool}
    (hreach : Reach (worker E).lts ok w) : w.Accounted := by
  refine hreach.invariant (I := WirePool.Accounted) ?_ ?_
  · rintro w ⟨hinit, _⟩ c ⟨conn, hc, _⟩
    rw [show w.shared = {} from hinit] at hc
    cases hc
  · intro w l w' hreach hacc _ hst c hopen
    cases hst with
    | start =>
      rcases hacc c hopen with ⟨r, hr, hx⟩ | hidle
      · exact .inl ⟨r, Multiset.mem_cons_of_mem hr, hx⟩
      · exact .inr hidle
    | @call r rs o k a f s hr hk hx =>
      obtain ⟨ha, rfl⟩ := hx
      have hmem : r ∈ w.running := hr ▸ Multiset.mem_cons_self r rs
      have hpermit := WireRun.permits hreach hmem hk
      -- what the caller has in hand after the call
      have hhand : (∃ x ∈ o.next r.past a, x.conn = c) →
          ∃ r' ∈ (worker E).resume r o a (k a) ::ₘ rs, ∃ x ∈ r'.past, x.conn = c :=
        fun hx => ⟨_, Multiset.mem_cons_self _ _, hx⟩
      rcases WireOp.after_open (h := r.past) hopen with hopen' | hx
      · rcases hacc c hopen' with ⟨r', hr', x, hx, rfl⟩ | ⟨p, hidle⟩
        · rcases Multiset.mem_cons.mp (hr ▸ hr') with rfl | hr'
          · exact (WireOp.after_held hpermit hx hopen).imp hhand id
          · exact .inl ⟨r', Multiset.mem_cons_of_mem hr', x, hx, rfl⟩
        · exact (WireOp.after_warm ha hidle).imp hhand id
      · exact .inl (hhand hx)
    | @finish r rs a hr hk =>
      rcases hacc c hopen with ⟨r', hr', x, hx, hxc⟩ | hidle
      · rcases Multiset.mem_cons.mp (hr ▸ hr') with rfl | hr'
        · -- a program that ends has nothing in hand
          have hmem : r' ∈ w.running := hr ▸ Multiset.mem_cons_self r' rs
          rw [WireRun.ended hreach hmem hk] at hx
          cases hx
        · exact .inl ⟨r', hr', x, hx, hxc⟩
      · exact .inr hidle
    | world hw =>
      cases hw with
      | swap hnew => exact hacc c hopen

/-! ## Pools are bounded -/

/-- **A pool keeps to its bound**, in every state the worker reaches. -/
theorem pool_bounded {ok : WirePool → WireAct → Prop} {w : WirePool}
    (hreach : Reach (worker E).lts ok w) (p : Ref) :
    (w.shared.idle p).length ≤ p.provider.bound E := by
  refine hreach.invariant
    (I := fun w => ∀ p, (w.shared.idle p).length ≤ p.provider.bound E) ?_ ?_ p
  · rintro w ⟨hinit, _⟩ p
    rw [show w.shared = {} from hinit]
    exact Nat.zero_le _
  · intro w l w' hreach hb _ hst p
    have hp := hb p
    cases hst with
    | start => exact hp
    | @call r rs o k a f s hr hk hx =>
      obtain ⟨ha, rfl⟩ := hx
      have hmem : r ∈ w.running := hr ▸ Multiset.mem_cons_self r rs
      have hpermit := WireRun.permits hreach hmem hk
      show ((o.after w.shared a).idle p).length ≤ _
      rcases WireOp.idle_cases ha p with hi | ⟨_, hi⟩ | ⟨c, bound, rfl, hroom, hi⟩ | ⟨_, hi⟩
      · rw [hi]
        exact hp
      · rw [hi, List.length_dropLast]
        omega
      · obtain ⟨_, _, _, _, rfl⟩ := hpermit
        rw [hi, List.length_append, List.length_singleton]
        omega
      · rw [hi]
        exact Nat.zero_le _
    | finish hr hk => exact hp
    | world hw =>
      cases hw with
      | swap hnew => exact hp

/-! ## Reloads -/

/-- A reload retires no instance with a warm connection, and no connection goes back to the pool of
    an instance that was retired meanwhile. -/
def retiring (w : WirePool) : WireAct → Prop
  | .world _ => ∀ p ∈ w.shared.current, w.shared.idle p = []
  | .call _ ⟨p, .giveIdle _ _⟩ r _ => r = true → p ∈ w.shared.current
  | _ => True

/-- No program has a connection in hand; so it is whenever no send is in progress. -/
def WirePool.Unheld (w : WirePool) : Prop := ∀ r ∈ w.running, r.past = []

/-- Only the pools of the current `routeState` are warm. -/
theorem warm_is_current {w : WirePool} (hreach : Reach (worker E).lts retiring w) :
    ∀ p, w.shared.idle p ≠ [] → p ∈ w.shared.current := by
  refine hreach.invariant
    (I := fun w => ∀ p, w.shared.idle p ≠ [] → p ∈ w.shared.current) ?_ ?_
  · rintro w ⟨hinit, _⟩ p hp
    rw [show w.shared = {} from hinit] at hp
    exact absurd rfl hp
  · intro w l w' hreach hwarm hok hst p hp
    cases hst with
    | start => exact hwarm p hp
    | @call r rs o k a f s hr hk hx =>
      obtain ⟨ha, rfl⟩ := hx
      have hcurrent : (o.after w.shared a).current = w.shared.current := by
        obtain ⟨q, cmd⟩ := o
        cases cmd with
        | dial => cases a with | error | ok => rfl
        | run c v =>
          cases v with
          | startTLS => cases a with | none | some => rfl
          | _ => rfl
        | extension c name =>
          cases a with
          | true => rfl
          | false =>
            show (if name = "STARTTLS" then _ else w.shared).current = _
            split <;> rfl
        | giveIdle => cases a with | true | false => rfl
        | close | takeIdle | drain | token | refresh | lookupMX | reserve => rfl
      show p ∈ (o.after w.shared a).current
      rw [hcurrent]
      replace hp : (o.after w.shared a).idle p ≠ [] := hp
      rcases WireOp.idle_cases ha p with hi | ⟨_, hi⟩ | ⟨c, bound, rfl, hroom, hi⟩ | ⟨_, hi⟩
      · rw [hi] at hp
        exact hwarm p hp
      · refine hwarm p fun hnil => hp ?_
        rw [hi, hnil]
        rfl
      · cases a with
        | true => exact hok rfl
        | false => exact hwarm p hp
      · exact absurd hi hp
    | finish hr hk => exact hwarm p hp
    | world hw =>
      cases hw with
      | swap hnew => exact absurd (hok p (hwarm p hp)) hp

/-- **Every open connection is of a current instance**, in every run that retires no warm one: when
    no send is in progress, it is in a pool of the current `routeState`, and there are no more of
    them than these pools hold. -/
theorem warm_connections_current {w : WirePool} (hreach : Reach (worker E).lts retiring w)
    (hidle : w.Unheld) :
    (∀ c, w.shared.Open c → ∃ p ∈ w.shared.current, c ∈ w.shared.idle p) ∧
      ∀ cs : Finset Nat, (∀ c ∈ cs, w.shared.Open c) →
        cs.card ≤ ∑ p ∈ w.shared.current, p.provider.bound E := by
  have hopen : ∀ c, w.shared.Open c → ∃ p ∈ w.shared.current, c ∈ w.shared.idle p := by
    intro c hc
    rcases accounted hreach c hc with ⟨r, hr, x, hx, _⟩ | ⟨p, hp⟩
    · rw [hidle r hr] at hx
      cases hx
    · exact ⟨p, warm_is_current hreach p (List.ne_nil_of_mem hp), hp⟩
  refine ⟨hopen, fun cs hcs => ?_⟩
  have hsub : cs ⊆ w.shared.current.biUnion fun p => (w.shared.idle p).toFinset := by
    intro c hc
    obtain ⟨p, hp, hmem⟩ := hopen c (hcs c hc)
    exact Finset.mem_biUnion.mpr ⟨p, hp, List.mem_toFinset.mpr hmem⟩
  calc cs.card
      ≤ (w.shared.current.biUnion fun p => (w.shared.idle p).toFinset).card :=
        Finset.card_le_card hsub
    _ ≤ ∑ p ∈ w.shared.current, (w.shared.idle p).toFinset.card := Finset.card_biUnion_le
    _ ≤ ∑ p ∈ w.shared.current, p.provider.bound E :=
        Finset.sum_le_sum fun p _ => (List.toFinset_card_le _).trans (pool_bounded hreach p)

/-- A plain SMTP provider. -/
def sink : Provider :=
  .smtp { name := "sink", addr := "sink:25", tlsMode := .none, username := "", password := ""
          minTLSVersion := tls12 }

/-- One send over it has left its connection warm. -/
theorem sink_warm : ∃ s : Net, s.Open 0 ∧ Reach (worker ⟨4, "relay"⟩).lts retiring ⟨s, 0⟩ := by
  have hload : retiring ⟨{}, 0⟩ (.world {⟨0, sink⟩}) :=
    fun p hp => absurd hp (Finset.notMem_empty p)
  have h := alone_relay ⟨4, "relay"⟩ ⟨0, sink⟩ note 1 hload trivial
  have h := alone_call h Pace.go trivial trivial
  have h := alone_call h none trivial rfl
  have h := alone_call h (.ok 0) trivial rfl
  have h := alone_call h none trivial trivial
  have h := alone_call h none trivial trivial
  have h := alone_call h none trivial trivial
  have h := alone_call h none trivial trivial
  have h := alone_call h true (fun _ => Finset.mem_singleton_self _) rfl
  exact ⟨_, ⟨_, rfl, rfl⟩, alone_finish h trivial⟩

/-- The first instance of it delivers a message and loses its connection at the reset.  A reload
    retires it, and the second one delivers a message and keeps its connection. -/
theorem sink_retired : ∃ s : Net, Reach (worker ⟨4, "relay"⟩).lts retiring ⟨s, 0⟩ ∧
    ⟨0, sink⟩ ∈ s.built ∧ s.current = {⟨1, sink⟩} ∧ s.Open 1 := by
  have hload : retiring ⟨{}, 0⟩ (.world {⟨0, sink⟩}) :=
    fun p hp => absurd hp (Finset.notMem_empty p)
  have h := alone_relay ⟨4, "relay"⟩ ⟨0, sink⟩ note 1 hload trivial
  have h := alone_call h Pace.go trivial trivial
  have h := alone_call h none trivial rfl
  have h := alone_call h (.ok 0) trivial rfl
  have h := alone_call h none trivial trivial
  have h := alone_call h none trivial trivial
  have h := alone_call h none trivial trivial
  have h := alone_call h (some (.network "EOF")) trivial trivial
  have h := alone_call h () trivial trivial
  have h := alone_finish h trivial
  have h := quiet_reload h {⟨1, sink⟩} (by
    intro p hp
    obtain rfl := Finset.mem_singleton.mp hp
    rfl) (by decide)
  have h := quiet_relay h [⟨1, sink⟩] note 1 trivial (by decide)
  have h := alone_call h Pace.go trivial trivial
  have h := alone_call h none trivial rfl
  have h := alone_call h (.ok 1) trivial rfl
  have h := alone_call h none trivial trivial
  have h := alone_call h none trivial trivial
  have h := alone_call h none trivial trivial
  have h := alone_call h none trivial trivial
  have h := alone_call h true (fun _ => Finset.mem_singleton_self _) rfl
  have h := alone_finish h trivial
  refine ⟨_, h, Finset.mem_union_left _ (Finset.mem_singleton_self _), rfl, ⟨_, rfl, rfl⟩⟩

/-- The connection of the instance that a reload has retired is not among the open ones. -/
theorem warm_connections_current_sink : ∃ s : Net,
    Reach (worker ⟨4, "relay"⟩).lts retiring ⟨s, 0⟩ ∧ ⟨0, sink⟩ ∈ s.built ∧
      s.current = {⟨1, sink⟩} ∧ s.Open 1 ∧ 1 ∈ s.idle ⟨1, sink⟩ ∧
      ∀ cs : Finset Nat, (∀ c ∈ cs, s.Open c) → cs.card ≤ sink.bound ⟨4, "relay"⟩ := by
  obtain ⟨s, hreach, hbuilt, hcurrent, hopen⟩ := sink_retired
  obtain ⟨hwarm, hbound⟩ :=
    warm_connections_current hreach fun r hr => absurd hr (Multiset.notMem_zero r)
  rw [hcurrent] at hwarm hbound
  obtain ⟨p, hp, hidle⟩ := hwarm 1 hopen
  obtain rfl := Finset.mem_singleton.mp hp
  refine ⟨s, hreach, hbuilt, hcurrent, hopen, hidle, fun cs hcs => ?_⟩
  exact (hbound cs hcs).trans_eq (Finset.sum_singleton ..)

/-- A connection that a send has left warm stays open after a reload, which here loads no provider
    at all. -/
theorem warm_after_reload :
    ¬ ∀ (E : Env) (w : WirePool), Reach (worker E).lts anyStep w → w.Unheld →
      (∀ c, w.shared.Open c → ∃ p ∈ w.shared.current, c ∈ w.shared.idle p) ∧
        ∀ cs : Finset Nat, (∀ c ∈ cs, w.shared.Open c) →
          cs.card ≤ ∑ p ∈ w.shared.current, p.provider.bound E := by
  intro hclaim
  obtain ⟨s, hopen, hreach⟩ := sink_warm
  have hreach := quiet_reload (hreach.mono fun _ _ _ => trivial) ∅ trivial fun q hq =>
    absurd hq (Finset.notMem_empty q)
  have hcurrent := (hclaim _ _ hreach fun r hr => absurd hr (Multiset.notMem_zero r)).1
  obtain ⟨p, hp, _⟩ := hcurrent 0 hopen
  exact absurd hp (Finset.notMem_empty p)

end Novamail.Wire

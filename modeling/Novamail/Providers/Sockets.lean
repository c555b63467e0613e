/-
  The sockets behind the programs.

  What a program thinks of a connection it has in hand, or finds in a pool, is so in the network:
  the connection is there, and under TLS or without STARTTLS where the program says it is.  A step
  of the worker is one call of one program, and no call makes a connection less than it was.
-/
import Novamail.Providers.Holding

namespace Novamail.Wire

open Novamail.Core

variable {E : Env} {p : Ref} {c : Nat} {tls bare : Bool}

/-! ## The sockets behind it -/

/-- The worker with its tasks. -/
abbrev WirePool := Pool Net Task WireOp.Ret Unit (List Held)
/-- A task that runs. -/
abbrev WireRun := Running Task WireOp.Ret Unit (List Held)
/-- A step of the worker. -/
abbrev WireAct := Act Task WireOp.Ret Unit (Finset Ref) Unit (List Held)

/-- What is thought of a connection is so. -/
def Net.Knows (s : Net) (x : Held) : Prop :=
  ∃ conn, s.conns x.conn = some conn ∧ (x.tls = true → conn.tls = true) ∧
    (x.bare = true → conn.bare = true)

theorem Net.Knows.secure {s : Net} {x : Held} (h : s.Knows x) (ht : x.tls = true) :
    s.TLS x.conn := by
  obtain ⟨conn, hc, htls, _⟩ := h
  exact ⟨conn, hc, htls ht⟩

theorem Net.Knows.unoffered {s : Net} {x : Held} (h : s.Knows x) (hb : x.bare = true) :
    s.Bare x.conn := by
  obtain ⟨conn, hc, _, hbare⟩ := h
  exact ⟨conn, hc, hbare hb⟩

/-- A connection after a change of some connection. -/
theorem Net.alter_conns {s : Net} {c d : Nat} {f : Conn → Conn} {conn : Conn}
    (h : s.conns d = some conn) :
    (s.alter c f).conns d = some (if d = c then f conn else conn) := by
  show Function.update s.conns c ((s.conns c).map f) d = _
  by_cases hd : d = c
  · subst hd
    rw [Function.update_self, h, if_pos rfl]
    rfl
  · rw [Function.update_of_ne hd, if_neg hd, h]

/-- A call leaves every connection that there is, no less under TLS and no less known to be without
    STARTTLS, and never opens one that was closed. -/
theorem WireOp.after_conns {s : Net} {o : WireOp} {r : o.Ret} {d : Nat} {conn : Conn}
    (ha : o.Answers s r) (h : s.conns d = some conn) :
    ∃ conn', (o.after s r).conns d = some conn' ∧ (conn.tls = true → conn'.tls = true) ∧
      (conn.bare = true → conn'.bare = true) ∧ (conn'.isOpen = true → conn.isOpen = true) := by
  have hsame : ∀ s' : Net, s'.conns = s.conns →
      ∃ conn', s'.conns d = some conn' ∧ (conn.tls = true → conn'.tls = true) ∧
        (conn.bare = true → conn'.bare = true) ∧ (conn'.isOpen = true → conn.isOpen = true) :=
    fun s' hs => ⟨conn, hs ▸ h, id, id, id⟩
  have halter : ∀ c (f : Conn → Conn), (conn.tls = true → (f conn).tls = true) →
      (conn.bare = true → (f conn).bare = true) → ((f conn).isOpen = true → conn.isOpen = true) →
      ∃ conn', (s.alter c f).conns d = some conn' ∧ (conn.tls = true → conn'.tls = true) ∧
        (conn.bare = true → conn'.bare = true) ∧ (conn'.isOpen = true → conn.isOpen = true) := by
    intro c f ht hb ho
    refine ⟨_, Net.alter_conns h, ?_⟩
    split
    · exact ⟨ht, hb, ho⟩
    · exact ⟨id, id, id⟩
  obtain ⟨p, cmd⟩ := o
  cases cmd with
  | dial addr tls =>
    cases r with
    | error e => exact hsame _ rfl
    | ok c =>
      -- the new connection is another one
      have hne : d ≠ c := by
        rintro rfl
        rw [show s.conns d = none from ha] at h
        cases h
      exact ⟨conn, (Function.update_of_ne hne _ _).trans h, id, id, id⟩
  | run c v =>
    cases v with
    | startTLS cfg =>
      cases r with
      | none => exact halter c _ (fun _ => rfl) id id
      | some e => exact hsame _ rfl
    | _ => exact hsame _ rfl
  | extension c name =>
    cases r with
    | true => exact hsame _ rfl
    | false =>
      by_cases hname : name = "STARTTLS"
      · subst hname
        exact halter c _ id (fun _ => rfl) id
      · refine hsame _ ?_
        show (if name = "STARTTLS" then _ else s).conns = _
        rw [if_neg hname]
  | close c => exact halter c _ id id nofun
  | giveIdle c bound =>
    cases r with
    | true => exact hsame _ rfl
    | false => exact hsame _ rfl
  | takeIdle | drain | token | refresh | lookupMX | reserve => exact hsame _ rfl

theorem Net.Knows.after {s : Net} {x : Held} {o : WireOp} {r : o.Ret} (h : s.Knows x)
    (ha : o.Answers s r) : (o.after s r).Knows x := by
  obtain ⟨conn, hc, ht, hb⟩ := h
  obtain ⟨conn', hc', ht', hb', _⟩ := WireOp.after_conns ha hc
  exact ⟨conn', hc', fun h => ht' (ht h), fun h => hb' (hb h)⟩

/-- What a call may do to a pool: nothing, take the last, put one at the end while there is room, or
    empty it. -/
theorem WireOp.idle_cases {s : Net} {o : WireOp} {r : o.Ret} (ha : o.Answers s r) (p : Ref) :
    (o.after s r).idle p = s.idle p ∨
      (o = ⟨p, .takeIdle⟩ ∧ (o.after s r).idle p = (s.idle p).dropLast) ∨
      (∃ c bound, o = ⟨p, .giveIdle c bound⟩ ∧ (s.idle p).length < bound ∧
        (o.after s r).idle p = s.idle p ++ [c]) ∨
      (o = ⟨p, .drain⟩ ∧ (o.after s r).idle p = []) := by
  obtain ⟨q, cmd⟩ := o
  cases cmd with
  | dial addr tls => cases r with | error | ok => exact .inl rfl
  | run d v =>
    cases v with
    | startTLS cfg => cases r with | none | some => exact .inl rfl
    | _ => exact .inl rfl
  | extension d name =>
    cases r with
    | true => exact .inl rfl
    | false =>
      left
      show (if name = "STARTTLS" then _ else s).idle p = _
      split <;> rfl
  | takeIdle =>
    by_cases hq : p = q
    · subst hq
      exact .inr (.inl ⟨rfl, Function.update_self ..⟩)
    · exact .inl (Function.update_of_ne hq _ _)
  | giveIdle d bound =>
    cases r with
    | false => exact .inl rfl
    | true =>
      by_cases hq : p = q
      · subst hq
        have hroom : true = !(s.closed p || bound ≤ (s.idle p).length) := ha
        refine .inr (.inr (.inl ⟨d, bound, rfl, ?_, Function.update_self ..⟩))
        simp at hroom
        omega
      · exact .inl (Function.update_of_ne hq _ _)
  | drain =>
    by_cases hq : p = q
    · subst hq
      exact .inr (.inr (.inr ⟨rfl, Function.update_self ..⟩))
    · exact .inl (Function.update_of_ne hq _ _)
  | close | token | refresh | lookupMX | reserve => exact .inl rfl

/-- Where a warm connection comes from. -/
theorem WireOp.after_idle {s : Net} {o : WireOp} {r : o.Ret} {p : Ref} {c : Nat}
    (ha : o.Answers s r) (h : c ∈ (o.after s r).idle p) :
    c ∈ s.idle p ∨ ∃ bound, o = ⟨p, .giveIdle c bound⟩ := by
  rcases WireOp.idle_cases ha p with hi | ⟨_, hi⟩ | ⟨d, bound, ho, _, hi⟩ | ⟨_, hi⟩
  · exact .inl (hi ▸ h)
  · exact .inl (List.dropLast_subset _ (hi ▸ h))
  · rcases List.mem_append.mp (hi ▸ h) with h | h
    · exact .inl h
    · exact .inr ⟨bound, List.mem_singleton.mp h ▸ ho⟩
  · rw [hi] at h
    cases h

/-- What a program comes to have in hand it has rightly. -/
theorem WireOp.next_knows {s : Net} {h : List Held} {o : WireOp} {r : o.Ret}
    (hidle : ∀ p, ∀ c ∈ s.idle p, s.Knows (pooled p c)) (hh : ∀ x ∈ h, s.Knows x)
    (ha : o.Answers s r) (hp : Permits E h o) : ∀ x ∈ o.next h r, (o.after s r).Knows x := by
  have hkeep : ∀ x ∈ h, (o.after s r).Knows x := fun x hx => (hh x hx).after ha
  obtain ⟨p, cmd⟩ := o
  cases cmd with
  | dial addr tls =>
    cases r with
    | error e => exact hkeep
    | ok c =>
      intro x hx
      rcases List.mem_cons.mp hx with rfl | hx
      · exact ⟨_, Function.update_self .., id, nofun⟩
      · exact hkeep x hx
  | run c v =>
    cases v with
    | startTLS cfg =>
      cases r with
      | some e => exact hkeep
      | none =>
        obtain ⟨tls, bare, rfl, _⟩ := hp
        obtain ⟨conn, hc, _, hb⟩ := hh _ (List.mem_singleton_self _)
        intro x hx
        cases List.mem_singleton.mp hx
        refine ⟨_, Net.alter_conns hc, ?_⟩
        rw [if_pos rfl]
        exact ⟨fun _ => rfl, hb⟩
    | _ => exact hkeep
  | extension c name =>
    cases r with
    | true => exact hkeep
    | false =>
      by_cases hname : name = "STARTTLS"
      · subst hname
        obtain ⟨tls, bare, rfl⟩ := hp
        obtain ⟨conn, hc, ht, _⟩ := hh _ (List.mem_singleton_self _)
        intro x hx
        cases List.mem_singleton.mp hx
        refine ⟨_, Net.alter_conns hc, ?_⟩
        rw [if_pos rfl]
        exact ⟨ht, fun _ => rfl⟩
      · have hnext : WireOp.next h ⟨p, .extension c name⟩ false = h := if_neg hname
        rw [hnext]
        exact hkeep
  | close c => exact fun x hx => hkeep x (List.mem_of_mem_eraseP hx)
  | takeIdle =>
    cases r with
    | none => exact hkeep
    | some c =>
      have hmem : c ∈ s.idle p := List.mem_of_getLast? ha.symm
      intro x hx
      rcases List.mem_cons.mp hx with rfl | hx
      · exact (hidle p c hmem).after (o := ⟨p, .takeIdle⟩) ha
      · exact hkeep x hx
  | giveIdle c bound =>
    cases r with
    | false => exact hkeep
    | true => exact fun x hx => hkeep x (List.mem_of_mem_eraseP hx)
  | drain =>
    intro x hx
    obtain ⟨c, hc, rfl⟩ := List.mem_map.mp hx
    have hmem : c ∈ s.idle p := by rwa [show r = s.idle p from ha] at hc
    exact (hidle p c hmem).after (o := ⟨p, .drain⟩) ha
  | token | refresh | lookupMX | reserve => exact hkeep

/-- What a connection that may carry messages promises a later user of the pool. -/
theorem Net.Knows.pooled {s : Net} {p : Ref} {c : Nat} (h : s.Knows ⟨p, c, tls, bare⟩)
    (hmet : p.provider.cover.Met tls bare) : s.Knows (pooled p c) := by
  obtain ⟨conn, hc, ht, _⟩ := h
  refine ⟨conn, hc, fun halways => ?_, nofun⟩
  rw [of_decide_eq_true halways] at hmet
  exact ht hmet

/-- The next call of a running program is a permitted one. -/
theorem WireRun.permits {ok : WirePool → WireAct → Prop} {w : WirePool}
    (h : Reach (worker E).lts ok w) {r : WireRun} (hr : r ∈ w.running) {o : WireOp}
    {k : o.Ret → Wired Unit} (hk : r.rest = .call o k) : Permits E r.past o :=
  (Service.obeys (V := worker E) (fun _ h _ => h = []) body_holding h r hr).allows hk

/-- A program that has ended has empty hands. -/
theorem WireRun.ended {ok : WirePool → WireAct → Prop} {w : WirePool}
    (h : Reach (worker E).lts ok w) {r : WireRun} (hr : r ∈ w.running) {a : Unit}
    (hk : r.rest = .pure a) : r.past = [] :=
  (Service.obeys (V := worker E) (fun _ h _ => h = []) body_holding h r hr).result hk

/-- What is thought of every connection in a pool or in hand is so. -/
structure WirePool.Known (w : WirePool) : Prop where
  idle : ∀ p, ∀ c ∈ w.shared.idle p, w.shared.Knows (pooled p c)
  held : ∀ r ∈ w.running, ∀ x ∈ r.past, w.shared.Knows x

/-- **Every connection is what the worker takes it for**, in every state it reaches. -/
theorem known {ok : WirePool → WireAct → Prop} {w : WirePool} (h : Reach (worker E).lts ok w) :
    w.Known := by
  refine h.invariant (I := WirePool.Known) ?_ ?_
  · rintro w ⟨hinit, hquiet⟩
    refine ⟨fun p c hc => ?_, fun r hr => ?_⟩
    · rw [show w.shared = {} from hinit] at hc
      cases hc
    · rw [show w.running = 0 from hquiet] at hr
      exact absurd hr (Multiset.notMem_zero r)
  · intro w l w' hreach hknown _ hst
    cases hst with
    | start =>
      refine ⟨hknown.idle, fun r hr => ?_⟩
      rcases Multiset.mem_cons.mp hr with rfl | hr
      · exact nofun
      · exact hknown.held r hr
    | @call r rs o k a f s hr hk hx =>
      obtain ⟨ha, rfl⟩ := hx
      have hmem : r ∈ w.running := hr ▸ Multiset.mem_cons_self r rs
      have hpermit := WireRun.permits hreach hmem hk
      refine ⟨fun p c hc => ?_, fun r' hr' => ?_⟩
      · rcases WireOp.after_idle ha hc with hc | ⟨bound, rfl⟩
        · exact (hknown.idle p c hc).after ha
        · -- given back by this call, from the hands of the program
          obtain ⟨tls, bare, hpast, hmet, _⟩ := hpermit
          have hheld := hknown.held r hmem _ (hpast ▸ List.mem_singleton_self _)
          exact (hheld.pooled hmet).after ha
      · rcases Multiset.mem_cons.mp hr' with rfl | hr'
        · exact WireOp.next_knows hknown.idle (hknown.held r hmem) ha hpermit
        · intro x hx
          exact (hknown.held r' (hr ▸ Multiset.mem_cons_of_mem hr') x hx).after ha
    | finish hr hk =>
      exact ⟨hknown.idle, fun r hr' => hknown.held r (hr ▸ Multiset.mem_cons_of_mem hr')⟩
    | world hw =>
      cases hw with
      | swap hnew => exact ⟨hknown.idle, hknown.held⟩

/-! ## A program alone -/

/-- A program that runs alone makes its next call. -/
theorem alone_step {E : Env} {s : Net} {t : Task} {h : List Held} {o : WireOp}
    {k : o.Ret → Wired Unit} (a : o.Ret) (ha : o.Answers s a) :
    (worker E).Step ⟨s, {⟨t, h, .call o k⟩}⟩ (.call ⟨t, h, .call o k⟩ o a ())
      ⟨o.after s a, {⟨t, o.next h a, k a⟩}⟩ :=
  Service.Step.call (V := worker E) (Multiset.cons_zero _).symm rfl ⟨ha, rfl⟩

theorem alone_call {E : Env} {ok : WirePool → WireAct → Prop} {s : Net} {t : Task} {h : List Held}
    {o : WireOp} {k : o.Ret → Wired Unit}
    (hr : Reach (worker E).lts ok ⟨s, {⟨t, h, .call o k⟩}⟩) (a : o.Ret)
    (hok : ok ⟨s, {⟨t, h, .call o k⟩}⟩ (.call ⟨t, h, .call o k⟩ o a ())) (ha : o.Answers s a) :
    Reach (worker E).lts ok ⟨o.after s a, {⟨t, o.next h a, k a⟩}⟩ :=
  hr.step hok (alone_step a ha)

theorem alone_finish {E : Env} {ok : WirePool → WireAct → Prop} {s : Net} {t : Task} {h : List Held}
    (hr : Reach (worker E).lts ok ⟨s, {⟨t, h, .pure ()⟩}⟩)
    (hok : ok ⟨s, {⟨t, h, .pure ()⟩}⟩ (.finish ⟨t, h, .pure ()⟩ ())) :
    Reach (worker E).lts ok ⟨s, 0⟩ :=
  hr.step hok (Service.Step.finish (V := worker E) (Multiset.cons_zero _).symm rfl)

/-- A reload while no program runs. -/
theorem quiet_reload {E : Env} {ok : WirePool → WireAct → Prop} {s : Net}
    (hr : Reach (worker E).lts ok ⟨s, 0⟩) (fresh : Finset Ref) (hok : ok ⟨s, 0⟩ (.world fresh))
    (hnew : ∀ p ∈ fresh, p ∉ s.built) :
    Reach (worker E).lts ok ⟨{ s with current := fresh, built := s.built ∪ fresh }, 0⟩ :=
  have hswap : (worker E).Step ⟨s, 0⟩ (.world fresh)
      ⟨{ s with current := fresh, built := s.built ∪ fresh }, 0⟩ := .world (Net.Reload.swap hnew)
  hr.step hok hswap

/-- A handler starts while no program runs. -/
theorem quiet_relay {E : Env} {ok : WirePool → WireAct → Prop} {s : Net}
    (hr : Reach (worker E).lts ok ⟨s, 0⟩) (chain : List Ref) (m : Message) (fuel : Nat)
    (hok : ok ⟨s, 0⟩ (.start (.relay chain m fuel))) (hchain : ∀ q ∈ chain, q ∈ s.current) :
    Reach (worker E).lts ok ⟨s, {⟨.relay chain m fuel, [], relay E fuel m chain⟩}⟩ := by
  have hstart : (worker E).starts s (.relay chain m fuel) := hchain
  exact hr.step hok (.start hstart)

/-- A worker that has loaded one instance and runs one handler. -/
theorem alone_relay (E : Env) {ok : WirePool → WireAct → Prop} (p : Ref) (m : Message) (fuel : Nat)
    (hload : ok ⟨{}, 0⟩ (.world {p}))
    (hbegin : ok ⟨{ current := {p}, built := {p} }, 0⟩ (.start (.relay [p] m fuel))) :
    Reach (worker E).lts ok
      ⟨{ current := {p}, built := {p} }, {⟨.relay [p] m fuel, [], relay E fuel m [p]⟩}⟩ := by
  have hinit : Reach (worker E).lts ok ⟨{}, 0⟩ := .init ⟨rfl, rfl⟩
  have hloaded := quiet_reload hinit {p} hload fun q _ => Finset.notMem_empty q
  rw [Finset.empty_union] at hloaded
  exact quiet_relay hloaded [p] m fuel hbegin fun q hq =>
    Finset.mem_singleton.mpr (List.mem_singleton.mp hq)

end Novamail.Wire

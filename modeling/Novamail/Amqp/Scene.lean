/-
  A link without its programs.

  Every program of a link keeps to its discipline, proved once by walking its text.  What a call can
  then do, to the bus and to how far its maker is, is one relation for the callers (`Turn`) and one
  for the supervisor (`Pass`); a `Scene` is what is left of a link when only these are kept, and
  `scene_reach` says that a link does nothing that its scene does not.
-/
import Mathlib.Data.Multiset.MapFold
import Novamail.Amqp.Conn

namespace Novamail.Amqp

open Novamail.Core

/-! ## The supervisor keeps to its discipline -/

section

variable {n : Nat} {xs : List Sub} {u : Option Nat}

theorem startConsumer_watching (cs : Consumer) :
    (startConsumer cs).Obeys watching (fun w _ => ∃ u, w = .sweeping n xs u)
      (.sweeping n (.consumer cs :: xs) u) := by
  refine Prog.obeys_lift_bind.mpr ⟨List.cons_ne_nil _ _, fun r => ?_⟩
  cases r with
  | none => exact ⟨none, rfl⟩
  | some conn =>
    refine Prog.obeys_lift_bind.mpr ⟨⟨rfl, List.cons_ne_nil _ _, nofun⟩, fun r => ?_⟩
    cases r with
    | error e => exact ⟨none, rfl⟩
    | ok _ =>
      refine Prog.obeys_lift_bind.mpr ⟨⟨rfl, List.cons_ne_nil _ _, nofun⟩, fun r => ?_⟩
      cases r with
      | error e => exact Prog.obeys_lift_bind.mpr ⟨trivial, fun _ => ⟨none, rfl⟩⟩
      | ok _ =>
        refine Prog.obeys_lift_bind.mpr ⟨⟨rfl, List.cons_ne_nil _ _, ?_⟩, fun r => ?_⟩
        · intro q a e x h
          cases h
          rfl
        · cases r with
          | error e => exact Prog.obeys_lift_bind.mpr ⟨trivial, fun _ => ⟨none, rfl⟩⟩
          | ok _ => exact ⟨none, rfl⟩

theorem startConfigSub_watching (handler : Nat) :
    (startConfigSub handler).Obeys watching (fun w _ => ∃ u, w = .sweeping n xs u)
      (.sweeping n (.config handler :: xs) u) := by
  refine Prog.obeys_lift_bind.mpr ⟨List.cons_ne_nil _ _, fun r => ?_⟩
  cases r with
  | none => exact ⟨none, rfl⟩
  | some conn =>
    refine Prog.obeys_lift_bind.mpr ⟨⟨rfl, List.cons_ne_nil _ _, nofun⟩, fun r => ?_⟩
    cases r with
    | error e => exact ⟨none, rfl⟩
    | ok _ =>
      refine Prog.obeys_lift_bind.mpr ⟨⟨rfl, List.cons_ne_nil _ _, nofun⟩, fun r => ?_⟩
      cases r with
      | error e => exact ⟨none, rfl⟩
      | ok _ =>
        refine Prog.obeys_lift_bind.mpr ⟨⟨rfl, List.cons_ne_nil _ _, nofun⟩, fun r => ?_⟩
        cases r with
        | error e => exact ⟨none, rfl⟩
        | ok name =>
          refine Prog.obeys_lift_bind.mpr ⟨⟨rfl, List.cons_ne_nil _ _, nofun⟩, fun r => ?_⟩
          cases r with
          | error e => exact ⟨none, rfl⟩
          | ok _ =>
            refine Prog.obeys_lift_bind.mpr ⟨⟨rfl, List.cons_ne_nil _ _, ?_⟩, fun r => ?_⟩
            · intro q a e x h
              cases h
              rfl
            · cases r with
              | error e => exact ⟨none, rfl⟩
              | ok _ => exact ⟨none, rfl⟩

theorem startAll_watching (xs : List Sub) :
    ∀ u, (startAll xs).Obeys watching (fun w _ => ∃ u, w = .sweeping n [] u) (.sweeping n xs u) := by
  induction xs with
  | nil => exact fun u => ⟨u, rfl⟩
  | cons x xs ih =>
    intro u
    have hx : x.start.Obeys watching (fun w _ => ∃ u, w = .sweeping n xs u)
        (.sweeping n (x :: xs) u) := by
      cases x with
      | consumer cs => exact startConsumer_watching cs
      | config handler => exact startConfigSub_watching handler
    refine hx.bind ?_
    rintro _ _ ⟨u, rfl⟩
    exact ih u

theorem reestablish_watching :
    reestablish.Obeys watching (fun w _ => ∃ n u, w = .watching n u) .swapped := by
  refine Prog.obeys_lift_bind.mpr ⟨trivial, fun _ => ?_⟩
  refine Prog.obeys_lift_bind.mpr ⟨trivial, fun r => ?_⟩
  refine (startAll_watching _ none).bind ?_
  rintro _ _ ⟨u, rfl⟩
  exact ⟨rfl, fun _ => ⟨_, none, rfl⟩⟩

theorem declareAll_watching {d : Nat} (ds : List (Verb × String))
    (hds : ∀ p ∈ ds, ∀ q a e x, p.1 ≠ .consume q a e x) :
    (declareAll d ds).Obeys watching (fun w _ => w = .dialed n d) (.dialed n d) := by
  induction ds with
  | nil => rfl
  | cons p ds ih =>
    have hp := hds p List.mem_cons_self
    refine Prog.obeys_lift_bind.mpr ⟨⟨rfl, hp⟩, fun r => ?_⟩
    cases r with
    | error e => rfl
    | ok _ => exact ih fun q hq => hds q (List.mem_cons_of_mem _ hq)

theorem declarations_plain : ∀ p ∈ declarations, ∀ q a e x, p.1 ≠ .consume q a e x := by
  intro p hp q a e x h
  simp [declarations, waitTiers] at hp
  rcases hp with rfl | rfl | rfl | rfl | rfl | rfl | rfl | rfl <;> cases h

/-- A failed `connect` leaves nothing swapped. -/
theorem connect_watching :
    connect.Obeys watching
      (fun w r => (r = none → w = .swapped) ∧ (r ≠ none → ∃ n, w = .down n)) (.down n) := by
  refine Prog.obeys_lift_bind.mpr ⟨trivial, fun r => ?_⟩
  cases r with
  | error e => exact ⟨nofun, fun _ => ⟨n, rfl⟩⟩
  | ok d =>
    refine Prog.obeys_lift_bind.mpr ⟨⟨rfl, nofun⟩, fun r => ?_⟩
    cases r with
    | error e => exact Prog.obeys_lift_bind.mpr ⟨rfl, fun _ => ⟨nofun, fun _ => ⟨n, rfl⟩⟩⟩
    | ok _ =>
      refine (declareAll_watching declarations declarations_plain).bind ?_
      rintro _ r rfl
      cases r with
      | some e => exact Prog.obeys_lift_bind.mpr ⟨rfl, fun _ => ⟨nofun, fun _ => ⟨n, rfl⟩⟩⟩
      | none => exact Prog.obeys_lift_bind.mpr ⟨rfl, fun _ => ⟨fun _ => rfl, fun h => absurd rfl h⟩⟩

end

/-- How far the supervisor is at a loop head. -/
def Loop.Head : Loop → Watch → Prop
  | .supervise, w => ∃ n u, w = .watching n u
  | .reconnect, w => ∃ n, w = .down n
  | .reconnected, w => (∃ n u, w = .watching n u) ∨ w = .closing
  | .done, _ => True

theorem Loop.body_watching (l : Loop) {w : Watch} (h : l.Head w) :
    l.body.Obeys watching (fun w l => l.Head w) w := by
  cases l with
  | supervise =>
    obtain ⟨n, u, rfl⟩ := h
    refine Prog.obeys_lift_bind.mpr ⟨trivial, fun r => ?_⟩
    cases r with
    | true => trivial
    | false =>
      refine Prog.obeys_lift_bind.mpr ⟨trivial, fun r => ?_⟩
      cases r with
      | none => trivial
      | some conn =>
        refine Prog.obeys_lift_bind.mpr ⟨rfl, fun _ => ?_⟩
        refine Prog.obeys_lift_bind.mpr ⟨trivial, fun r => ?_⟩
        cases r with
        | true => trivial
        | false => exact ⟨n, rfl⟩
  | reconnect =>
    obtain ⟨n, rfl⟩ := h
    refine Prog.obeys_lift_bind.mpr ⟨trivial, fun r => ?_⟩
    cases r with
    | true => exact .inr rfl
    | false =>
      refine connect_watching.bind ?_
      rintro w r ⟨hnone, hsome⟩
      cases r with
      | some e => exact hsome nofun
      | none =>
        obtain rfl := hnone rfl
        exact reestablish_watching.bind fun w _ hw => .inl hw
  | reconnected =>
    refine Prog.obeys_lift_bind.mpr ⟨?_, fun r => ?_⟩
    · cases w <;> trivial
    · cases r with
      | true => trivial
      | false =>
        rcases h with ⟨n, u, rfl⟩ | rfl
        · exact ⟨n, u, rfl⟩
        · exact ⟨0, none, rfl⟩
  | done => trivial

/-! ## The callers keep to theirs -/

section

variable {u : Option Nat}

theorem startConsumer_calling (cs : Consumer) :
    (startConsumer cs).Obeys calling
      (fun st r => (r = none → ∃ conn, st = .subscribed cs conn) ∧
        (r ≠ none → ∃ u, st = .holding cs.out u)) (.holding cs.out u) := by
  refine Prog.obeys_lift_bind.mpr ⟨trivial, fun r => ?_⟩
  cases r with
  | none => exact ⟨nofun, fun _ => ⟨none, rfl⟩⟩
  | some conn =>
    have hend : ∀ e : String, (fun (st : Stage) (r : Option String) =>
        (r = none → ∃ conn, st = .subscribed cs conn) ∧ (r ≠ none → ∃ u, st = .holding cs.out u))
        (.holding cs.out (some conn)) (some e) := fun e => ⟨nofun, fun _ => ⟨some conn, rfl⟩⟩
    refine Prog.obeys_lift_bind.mpr ⟨⟨rfl, nofun⟩, fun r => ?_⟩
    cases r with
    | error e => exact hend _
    | ok _ =>
      refine Prog.obeys_lift_bind.mpr ⟨⟨rfl, nofun⟩, fun r => ?_⟩
      cases r with
      | error e => exact Prog.obeys_lift_bind.mpr ⟨trivial, fun _ => hend _⟩
      | ok _ =>
        refine Prog.obeys_lift_bind.mpr ⟨⟨rfl, ?_⟩, fun r => ?_⟩
        · intro q a e x h
          cases h
          exact ⟨cs, rfl, rfl⟩
        · cases r with
          | error e => exact Prog.obeys_lift_bind.mpr ⟨trivial, fun _ => hend _⟩
          | ok _ => exact ⟨fun _ => ⟨conn, rfl⟩, fun h => absurd rfl h⟩

theorem startConfigSub_calling (handler place : Nat) :
    (startConfigSub handler).Obeys calling (fun st _ => st = .ended false)
      (.registered handler place false u) := by
  refine Prog.obeys_lift_bind.mpr ⟨rfl, fun r => ?_⟩
  cases r with
  | none => rfl
  | some conn =>
    refine Prog.obeys_lift_bind.mpr ⟨⟨rfl, rfl, nofun⟩, fun r => ?_⟩
    cases r with
    | error e => rfl
    | ok _ =>
      refine Prog.obeys_lift_bind.mpr ⟨⟨rfl, rfl, nofun⟩, fun r => ?_⟩
      cases r with
      | error e => rfl
      | ok _ =>
        refine Prog.obeys_lift_bind.mpr ⟨⟨rfl, rfl, nofun⟩, fun r => ?_⟩
        cases r with
        | error e => rfl
        | ok name =>
          refine Prog.obeys_lift_bind.mpr ⟨⟨rfl, rfl, nofun⟩, fun r => ?_⟩
          cases r with
          | error e => rfl
          | ok _ =>
            refine Prog.obeys_lift_bind.mpr ⟨⟨rfl, rfl, ?_⟩, fun r => ?_⟩
            · intro q a e x h
              cases h
              rfl
            · cases r with
              | error e => rfl
              | ok _ => rfl

end

/-- A call that is over holds nothing and has nothing under way. -/
def Stage.Over : Stage → Prop
  | .begun | .ended false => True
  | _ => False

theorem Task.body_calling (t : Task) :
    t.body.Obeys calling (fun st _ => st.Over) .begun := by
  cases t with
  | registerConsumer queue prefetch =>
    refine Prog.obeys_lift_bind.mpr ⟨trivial, fun out => ?_⟩
    refine Prog.obeys_lift_bind.mpr ⟨trivial, fun _ => ?_⟩
    refine (startConsumer_calling ⟨queue, prefetch, out⟩).bind ?_
    rintro st r ⟨hnone, hsome⟩
    cases r with
    | some e =>
      obtain ⟨u, rfl⟩ := hsome nofun
      exact Prog.obeys_lift_bind.mpr ⟨trivial, fun _ => trivial⟩
    | none =>
      obtain ⟨conn, rfl⟩ := hnone rfl
      refine Prog.obeys_lift_bind.mpr ⟨rfl, fun _ => ?_⟩
      exact Prog.obeys_lift_bind.mpr ⟨rfl, fun _ => trivial⟩
  | subscribeConfig =>
    refine Prog.obeys_lift_bind.mpr ⟨trivial, fun out => ?_⟩
    refine Prog.obeys_lift_bind.mpr ⟨trivial, fun _ => ?_⟩
    refine Prog.obeys_lift_bind.mpr ⟨rfl, fun place => ?_⟩
    refine Prog.obeys_lift_bind.mpr ⟨rfl, fun _ => ?_⟩
    refine (startConfigSub_calling out place).mono ?_
    rintro _ _ rfl
    trivial
  | close =>
    refine Prog.obeys_lift_bind.mpr ⟨trivial, fun _ => ?_⟩
    refine Prog.obeys_lift_bind.mpr ⟨trivial, fun r => ?_⟩
    cases r with
    | none => trivial
    | some conn => exact Prog.obeys_lift_bind.mpr ⟨trivial, fun _ => trivial⟩

/-! ## What a call can do -/

/-- A call of a caller, with the state and the stage before and after it. -/
inductive Turn : Bus → Stage → (o : BusOp) → o.Ret → Bus → Stage → Prop where
  | stay {s : Bus} {st : Stage} {o : BusOp} {r : o.Ret} : Turn s st o r s st
  | make {s : Bus} : Turn s .begun .make s.made { s with made := s.made + 1 } (.made s.made)
  | shut {s : Bus} : Turn s .begun .setClosed () { s with closed := true } .begun
  | drop {s : Bus} {conn : Nat} : Turn s .begun (.closeConn conn) ()
      { s with lost := Function.update s.lost conn true } .begun
  | lock {s : Bus} {out : Nat} (hfree : s.held = false) :
      Turn s (.made out) .lock () { s with held := true } (.holding out none)
  | abandon {s : Bus} {out : Nat} {c : Option Nat} :
      Turn s (.holding out c) .unlock () { s with held := false } (.ended false)
  | release {s : Bus} {h i : Nat} {c : Option Nat} : Turn s (.registered h i true c) .unlock ()
      { s with held := false } (.registered h i false c)
  | leave {s : Bus} : Turn s (.ended true) .unlock () { s with held := false } (.ended false)
  | read {s : Bus} {out : Nat} {c : Option Nat} :
      Turn s (.holding out c) .readConn s.conn s (.holding out s.conn)
  | subscribe {s : Bus} {conn : Nat} {q : String} {a e : Bool} {cs : Consumer} {text : String}
      (hup : s.lost conn = false) :
      Turn s (.holding cs.out (some conn)) (.invoke conn (.consume q a e (.consumer cs))) (.ok text)
        { s with subs := s.subs ++ [(conn, .consumer cs)] } (.subscribed cs conn)
  | add {s : Bus} {cs : Consumer} {conn : Nat} : Turn s (.subscribed cs conn) (.addConsumer cs) ()
      { s with consumers := s.consumers ++ [cs] } (.ended true)
  | append {s : Bus} {out : Nat} {c : Option Nat} :
      Turn s (.holding out c) (.addHandler out) s.handlers.length
        { s with handlers := s.handlers ++ [out] } (.registered out s.handlers.length true none)
  | reread {s : Bus} {h i conn : Nat} {c : Option Nat} (hconn : s.conn = some conn) :
      Turn s (.registered h i false c) .readConn (some conn) s (.registered h i false (some conn))
  | unconnected {s : Bus} {h i : Nat} {c : Option Nat} (hconn : s.conn = none) :
      Turn s (.registered h i false c) .readConn none s (.ended false)
  | started {s : Bus} {h i conn : Nat} {q : String} {a e : Bool} {text : String}
      (hup : s.lost conn = false) :
      Turn s (.registered h i false (some conn)) (.invoke conn (.consume q a e (.config h)))
        (.ok text) { s with subs := s.subs ++ [(conn, .config h)] } (.ended false)
  | failed {s : Bus} {h i conn : Nat} {v : Verb} {text : String} :
      Turn s (.registered h i false (some conn)) (.invoke conn v) (.error text) s (.ended false)

theorem Turn.of_call {s : Bus} {st : Stage} {o : BusOp} {r : o.Ret} (hallow : st.allow o)
    (ha : o.Answers s r) : Turn s st o r (o.after s r) (st.next o r) := by
  unfold Stage.allow at hallow
  split at hallow
  · obtain rfl : r = s.made := ha
    exact .make
  · exact .shut
  · exact .stay
  · exact .drop
  · exact .lock ha
  · obtain rfl : r = s.conn := ha
    exact .read
  · exact .abandon
  · exact .stay
  · rename_i out c conn v
    obtain ⟨rfl, hv⟩ := hallow
    cases r with
    | error e =>
      cases v with
      | consume q a e x => cases x <;> exact .stay
      | _ => exact .stay
    | ok text =>
      cases v with
      | consume q a e x =>
        obtain ⟨cs, rfl, rfl⟩ := hv q a e x rfl
        exact .subscribe ha
      | _ => exact .stay
  · obtain rfl := hallow
    obtain rfl : r = s.handlers.length := ha
    exact .append
  · obtain rfl := hallow
    exact .add
  · obtain rfl := hallow
    exact .release
  · obtain rfl := hallow
    cases r with
    | none => exact .unconnected (Eq.symm ha)
    | some conn => exact .reread (Eq.symm ha)
  · rename_i h i l c conn v
    obtain ⟨rfl, rfl, hv⟩ := hallow
    cases r with
    | error e => cases v <;> exact .failed
    | ok text =>
      cases v with
      | consume q a e x =>
        obtain rfl := hv q a e x rfl
        exact .started ha
      | _ => exact .stay
  · obtain rfl := hallow
    exact .leave
  · exact hallow.elim

/-- A call of the supervisor. -/
inductive Pass : Bus → Watch → (o : BusOp) → o.Ret → Bus → Watch → Prop where
  | stay {s : Bus} {w : Watch} {o : BusOp} {r : o.Ret} : Pass s w o r s w
  | closing {s : Bus} {n : Nat} (hc : s.closed = true) : Pass s (.down n) .isClosed true s .closing
  | reopened {s : Bus} (hc : s.closed = false) :
      Pass s .closing .isClosed false s (.watching 0 none)
  | read {s : Bus} {n : Nat} {c : Option Nat} :
      Pass s (.watching n c) .readConn s.conn s (.watching n s.conn)
  | fell {s : Bus} {n conn : Nat} (hlost : s.lost conn = true) :
      Pass s (.watching n (some conn)) (.notifyClose conn) () s (.down n)
  | dial {s : Bus} {n : Nat} : Pass s (.down n) .dialBus (.ok s.dialed)
      { s with dialed := s.dialed + 1 } (.dialed n s.dialed)
  | hangup {s : Bus} {n d : Nat} : Pass s (.dialed n d) (.closeConn d) ()
      { s with lost := Function.update s.lost d true } (.down n)
  | swap {s : Bus} {n d : Nat} :
      Pass s (.dialed n d) (.setConn d) () { s with conn := some d } .swapped
  | lock {s : Bus} (hfree : s.held = false) : Pass s .swapped .lock () { s with held := true } .entered
  | registry {s : Bus} : Pass s .entered .registry (s.consumers, s.handlers) s
      (.sweeping s.handlers.length (s.consumers.map .consumer ++ s.handlers.map .config) none)
  | reread {s : Bus} {n conn : Nat} {xs : List Sub} {c : Option Nat} (hconn : s.conn = some conn) :
      Pass s (.sweeping n xs c) .readConn (some conn) s (.sweeping n xs (some conn))
  | unconnected {s : Bus} {n : Nat} {xs : List Sub} {c : Option Nat} (hconn : s.conn = none) :
      Pass s (.sweeping n xs c) .readConn none s (.sweeping n xs.tail none)
  | resubscribe {s : Bus} {n conn : Nat} {x : Sub} {xs : List Sub} {q : String} {a e : Bool}
      {text : String} (hup : s.lost conn = false) :
      Pass s (.sweeping n (x :: xs) (some conn)) (.invoke conn (.consume q a e x)) (.ok text)
        { s with subs := s.subs ++ [(conn, x)] } (.sweeping n xs none)
  | failed {s : Bus} {n conn : Nat} {x : Sub} {xs : List Sub} {v : Verb} {text : String} :
      Pass s (.sweeping n (x :: xs) (some conn)) (.invoke conn v) (.error text) s
        (.sweeping n xs none)
  | unlock {s : Bus} {n : Nat} {c : Option Nat} :
      Pass s (.sweeping n [] c) .unlock () { s with held := false } (.watching n none)

theorem Pass.of_call {s : Bus} {w : Watch} {o : BusOp} {r : o.Ret} (hallow : w.allow o)
    (ha : o.Answers s r) : Pass s w o r (o.after s r) (w.next o r) := by
  unfold Watch.allow at hallow
  split at hallow
  · replace ha : r = s.closed := ha
    cases w with
    | down n =>
      cases r with
      | true => exact .closing ha.symm
      | false => exact .stay
    | closing =>
      cases r with
      | true => exact .stay
      | false => exact .reopened ha.symm
    | _ => exact .stay
  · obtain rfl : r = s.conn := ha
    exact .read
  · obtain rfl := hallow
    exact .fell ha
  · cases r with
    | error e => exact .stay
    | ok d =>
      obtain rfl : d = s.dialed := ha
      exact .dial
  · rename_i n d conn v
    obtain ⟨-, hv⟩ := hallow
    cases r with
    | error e => cases v <;> exact .stay
    | ok text =>
      cases v with
      | consume q a e x => exact absurd rfl (hv q a e x)
      | _ => exact .stay
  · obtain rfl := hallow
    exact .hangup
  · obtain rfl := hallow
    exact .swap
  · exact .lock ha
  · obtain rfl : r = (s.consumers, s.handlers) := ha
    exact .registry
  · cases r with
    | none => exact .unconnected (Eq.symm ha)
    | some conn => exact .reread (Eq.symm ha)
  · rename_i n xs c conn v
    obtain ⟨rfl, hne, hv⟩ := hallow
    cases xs with
    | nil => exact absurd rfl hne
    | cons x xs =>
      cases r with
      | error e => cases v <;> exact .failed
      | ok text =>
        cases v with
        | consume q a e y =>
          obtain rfl : x = y := Option.some.inj (hv q a e y rfl)
          exact .resubscribe ha
        | _ => exact .stay
  · exact .stay
  · obtain rfl := hallow
    exact .unlock
  · exact hallow.elim

/-! ## The link without its programs -/

/-- A link with the programs left out: the bus, how far the supervisor is, and how far each caller
    is. -/
structure Scene where
  bus : Bus
  watch : Watch
  stages : Multiset Stage

/-- What happens in a scene. -/
inductive Beat where
  | start | finish
  | turn (st : Stage) (o : BusOp) (r : o.Ret)
  | lose (conn : Nat)
  | pass (o : BusOp) (r : o.Ret)

/-- A step of a scene. -/
inductive Scene.Step : Scene → Beat → Scene → Prop where
  | start {c : Scene} : Step c .start { c with stages := .begun ::ₘ c.stages }
  | turn {c : Scene} {st st' : Stage} {rest : Multiset Stage} {o : BusOp} {r : o.Ret} {s : Bus}
      (hst : c.stages = st ::ₘ rest) (ht : Turn c.bus st o r s st') :
      Step c (.turn st o r) ⟨s, c.watch, st' ::ₘ rest⟩
  | finish {c : Scene} {st : Stage} {rest : Multiset Stage} (hst : c.stages = st ::ₘ rest)
      (hover : st.Over) : Step c .finish { c with stages := rest }
  | lose {c : Scene} {conn : Nat} :
      Step c (.lose conn) { c with bus.lost := Function.update c.bus.lost conn true }
  | pass {c : Scene} {o : BusOp} {r : o.Ret} {s : Bus} {w : Watch} (hp : Pass c.bus c.watch o r s w) :
      Step c (.pass o r) ⟨s, w, c.stages⟩

/-- Scenes as a transition system. -/
def scenes : LTS Scene Beat where
  init c := c = ⟨dialed.bus, dialed.past, 0⟩
  step := Scene.Step

/-- The scene of a link. -/
def scene (p : LinkPool) : Scene := ⟨p.shared.bus, p.shared.past, p.running.map (·.past)⟩

/-- What a step of the link is in its scene; none for a step that the scene does not show. -/
def beat : LinkAct → Option Beat
  | .start _ => some .start
  | .call r o a _ => some (.turn r.past o a)
  | .finish _ _ => some .finish
  | .world (.lose conn) => some (.lose conn)
  | .world (.supervise o r) => some (.pass o r)
  | .world (.loop _) => none

section

variable {ok : LinkPool → LinkAct → Prop} {p : LinkPool}

theorem supervisor_obeys (hreach : Reach link.lts ok p) :
    p.shared.rest.Obeys watching (fun w l => l.Head w) p.shared.past := by
  refine hreach.invariant
    (I := fun p => p.shared.rest.Obeys watching (fun w l => l.Head w) p.shared.past) ?_ ?_
  · rintro p ⟨hinit, _⟩
    rw [show p.shared = dialed from hinit]
    exact Loop.body_watching .supervise ⟨0, none, rfl⟩
  · intro p l p' _ ih _ hst
    cases hst with
    | start => exact ih
    | call hr hk hx =>
      obtain ⟨-, rfl⟩ := hx
      exact ih
    | finish => exact ih
    | world hw =>
      cases hw with
      | lose => exact ih
      | supervise hk ha =>
        rw [hk] at ih
        exact ih.2 _
      | loop hk =>
        rw [hk] at ih
        exact Loop.body_watching _ ih

/-- **A link refines its scene**: the programs do what the disciplines say and no more. -/
theorem scene_reach {ok' : Scene → Beat → Prop}
    (hok : ∀ p l b, ok p l → beat l = some b → ok' (scene p) b)
    (hreach : Reach link.lts ok p) : Reach scenes ok' (scene p) := by
  induction hreach with
  | @init p hs =>
    refine .init ?_
    obtain ⟨hinit, hquiet⟩ := hs
    unfold scene
    rw [show p.shared = dialed from hinit, show p.running = 0 from hquiet]
    rfl
  | @step p p' l hr hg hst ih =>
    have hob := link.obeys (fun _ st _ => st.Over) Task.body_calling hr
    cases hst with
    | @start t h =>
      refine Reach.step (l := .start) ih (hok _ _ _ hg rfl) ?_
      rw [show scene ⟨p.shared, link.launch t ::ₘ p.running⟩ =
        { scene p with stages := .begun ::ₘ (scene p).stages } from
          congrArg (Scene.mk _ _) (Multiset.map_cons ..)]
      exact .start
    | @call r rs o k a f s hr' hk hx =>
      obtain ⟨ha, rfl⟩ := hx
      have hmem : r ∈ p.running := hr' ▸ Multiset.mem_cons_self r rs
      have hstages : (scene p).stages = r.past ::ₘ rs.map (·.past) := by
        rw [← Multiset.map_cons (·.past) r rs, ← hr']
        rfl
      refine Reach.step (l := .turn r.past o a) ih (hok _ _ _ hg rfl) ?_
      have hturn := Turn.of_call ((hob r hmem).allows hk) ha
      have hstep := Scene.Step.turn hstages hturn
      rw [← show (link.resume r o a (k a)).past = r.past.next o a from rfl,
        ← Multiset.map_cons (·.past) (link.resume r o a (k a)) rs] at hstep
      exact hstep
    | @finish r rs a hr' hk =>
      have hmem : r ∈ p.running := hr' ▸ Multiset.mem_cons_self r rs
      have hstages : (scene p).stages = r.past ::ₘ rs.map (·.past) := by
        rw [← Multiset.map_cons (·.past) r rs, ← hr']
        rfl
      exact Reach.step (l := .finish) ih (hok _ _ _ hg rfl) (.finish hstages ((hob r hmem).result hk))
    | world hw =>
      cases hw with
      | @lose conn => exact Reach.step (l := .lose conn) ih (hok _ _ _ hg rfl) .lose
      | @supervise o k r hk ha =>
        have hallow := supervisor_obeys hr
        rw [hk] at hallow
        exact Reach.step (l := .pass o r) ih (hok _ _ _ hg rfl) (.pass (Pass.of_call hallow.1 ha))
      | loop hk => exact ih

end

end Novamail.Amqp

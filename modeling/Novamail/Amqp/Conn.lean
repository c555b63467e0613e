/-
  `amqp.Conn`: the self-healing connection to the broker.

  The methods that subscribe are programs over the calls of `BusOp`: the two mutexes, the registries,
  and the calls to the broker, each of which may fail.  The supervisor is a loop; each pass is a
  program that ends at the head of the loop it goes to.

  A `link` runs the supervisor and any number of callers over one `Conn`, call by call, while
  connections may be lost at any time.  `mu` is held over nothing but an access to `c.conn`, so an
  access is one step; `regMu` is a lock that is taken and released.
-/
import Novamail.Core.Pool
import Novamail.Model.Topology
import Mathlib.Logic.Function.Basic

namespace Novamail.Amqp

open Novamail.Core

/-! ## Calls -/

/-- `consumer`: `out` is the channel it was made with, by which one consumer is told from another. -/
structure Consumer where
  queue : String
  prefetch : Nat
  out : Nat
  deriving DecidableEq, Repr

/-- Whom a subscription feeds: a registered consumer, or the handler of one `SubscribeConfig`. -/
inductive Sub where
  | consumer (cs : Consumer)
  | config (handler : Nat)
  deriving DecidableEq, Repr

/-- The arguments of `QueueDeclare`; the TTL is in milliseconds. -/
structure QueueSpec where
  name : String
  durable : Bool := true
  autoDelete : Bool := false
  exclusive : Bool := false
  quorum : Bool := true
  messageTTL : Option Nat := none
  deadLetter : Option (String × String) := none
  deriving DecidableEq, Repr

/-- The calls on a connection and on the channel just opened over it.  A `Consume` that succeeds is
    followed at once by the goroutine that forwards its deliveries, and is one call with it. -/
inductive Verb where
  | channel
  | qos (prefetch : Nat)
  | exchangeDeclare (name kind : String)
  | queueDeclare (spec : QueueSpec)
  | queueBind (queue key exchange : String)
  | consume (queue : String) (autoAck exclusive : Bool) (sub : Sub)
  deriving DecidableEq, Repr

/-- The calls of the programs. -/
inductive BusOp where
  /-- `c.closed`. -/
  | isClosed | setClosed
  /-- `c.conn`. -/
  | readConn | setConn (conn : Nat)
  /-- `dialBus`. -/
  | dialBus
  | closeConn (conn : Nat)
  /-- `<-conn.NotifyClose`: returns when the connection is closed. -/
  | notifyClose (conn : Nat)
  /-- `regMu`. -/
  | lock | unlock
  /-- `c.consumers` and `c.configHandlers`. -/
  | registry | addConsumer (cs : Consumer) | addHandler (handler : Nat)
  /-- A new channel or function literal. -/
  | make
  | invoke (conn : Nat) (verb : Verb)
  /-- `ch.Close()`. -/
  | closeChannel (conn : Nat)
  deriving DecidableEq, Repr

/-- What a call answers.  The text of an `invoke` is read of a queue declaration only: the name of
    the queue.  `addHandler` answers the place it appended at, which no program reads. -/
@[reducible] def BusOp.Ret : BusOp → Type
  | .isClosed => Bool
  | .readConn => Option Nat
  | .dialBus => Except String Nat
  | .registry => List Consumer × List Nat
  | .addHandler _ => Nat
  | .make => Nat
  | .invoke _ _ => Except String String
  | .setClosed | .setConn _ | .closeConn _ | .notifyClose _ | .lock | .unlock | .addConsumer _
  | .closeChannel _ => Unit

/-- A program of `amqp.Conn`. -/
abbrev BusProg := Prog BusOp.Ret

/-! ## Topology -/

/-- `WorkExchange`. -/
def workExchange : String := "relay.work"

/-- `ConfigExchange`. -/
def configExchange : String := "config.changed"

/-- The name of a queue. -/
def queueName : Queue → String
  | .work => "relay.work.q"
  | .wait30s => "wait.30s"
  | .wait5m => "wait.5m"
  | .wait30m => "wait.30m"
  | .dlq => "relay.dlq"

/-- What `declare` declares, and what it calls a failure. -/
def declarations : List (Verb × String) :=
  [(.exchangeDeclare workExchange "topic", "declare exchange: "),
    (.exchangeDeclare configExchange "fanout", "declare config exchange: "),
    (.queueDeclare { name := queueName .work }, "declare queue: "),
    (.queueBind (queueName .work) "#" workExchange, "bind queue: ")] ++
  waitTiers.map (fun t =>
    (.queueDeclare { name := queueName t.queue, messageTTL := some (t.ttl * 1000)
                     deadLetter := some (workExchange, "retry") },
      "declare " ++ queueName t.queue ++ ": ")) ++
  [(.queueDeclare { name := queueName .dlq }, "declare dlq: ")]

/-- The declarations one after another, up to the first that fails. -/
def declareAll (conn : Nat) : List (Verb × String) → BusProg (Option String)
  | [] => pure none
  | (v, text) :: rest => do
    match ← Prog.lift (BusOp.invoke conn v) with
    | .error e => pure (some (text ++ e))
    | .ok _ => declareAll conn rest

/-- `declare`. -/
def declare (conn : Nat) : BusProg (Option String) := declareAll conn declarations

/-! ## Subscriptions -/

/-- `startConsumer`: the error, none when it has subscribed. -/
def startConsumer (cs : Consumer) : BusProg (Option String) := do
  match ← Prog.lift BusOp.readConn with
  | none => pure (some "no connection")
  | some conn =>
    match ← Prog.lift (BusOp.invoke conn .channel) with
    | .error e => pure (some ("consumer channel: " ++ e))
    | .ok _ =>
      match ← Prog.lift (BusOp.invoke conn (.qos cs.prefetch)) with
      | .error e => do
        Prog.lift (BusOp.closeChannel conn)
        pure (some ("qos: " ++ e))
      | .ok _ =>
        match ← Prog.lift (BusOp.invoke conn (.consume cs.queue false false (.consumer cs))) with
        | .error e => do
          Prog.lift (BusOp.closeChannel conn)
          pure (some ("consume " ++ cs.queue ++ ": " ++ e))
        | .ok _ => pure none

/-- `startConfigSub`. -/
def startConfigSub (handler : Nat) : BusProg (Option String) := do
  match ← Prog.lift BusOp.readConn with
  | none => pure (some "no connection")
  | some conn =>
    match ← Prog.lift (BusOp.invoke conn .channel) with
    | .error e => pure (some ("config channel: " ++ e))
    | .ok _ =>
      match ← Prog.lift (BusOp.invoke conn (.exchangeDeclare configExchange "fanout")) with
      | .error e => pure (some ("declare config exchange: " ++ e))
      | .ok _ =>
        -- the broker names the queue
        let spec : QueueSpec :=
          { name := "", durable := false, autoDelete := true, exclusive := true, quorum := false }
        match ← Prog.lift (BusOp.invoke conn (.queueDeclare spec)) with
        | .error e => pure (some ("declare config queue: " ++ e))
        | .ok name =>
          match ← Prog.lift (BusOp.invoke conn (.queueBind name "" configExchange)) with
          | .error e => pure (some ("bind config queue: " ++ e))
          | .ok _ =>
            match ← Prog.lift (BusOp.invoke conn (.consume name true true (.config handler))) with
            | .error e => pure (some ("consume config: " ++ e))
            | .ok _ => pure none

/-- `registerConsumer`: the error, none when the consumer is registered. -/
def registerConsumer (queue : String) (prefetch : Nat) : BusProg (Option String) := do
  let out ← Prog.lift BusOp.make
  let cs : Consumer := ⟨queue, prefetch, out⟩
  Prog.lift BusOp.lock
  match ← startConsumer cs with
  | some e => do
    Prog.lift BusOp.unlock
    pure (some e)
  | none => do
    Prog.lift (BusOp.addConsumer cs)
    Prog.lift BusOp.unlock
    pure none

/-- `SubscribeConfig`, of a function literal. -/
def subscribeConfig : BusProg (Option String) := do
  let handler ← Prog.lift BusOp.make
  Prog.lift BusOp.lock
  let _ ← Prog.lift (BusOp.addHandler handler)
  Prog.lift BusOp.unlock
  startConfigSub handler

/-- `Close`. -/
def close : BusProg (Option String) := do
  Prog.lift BusOp.setClosed
  match ← Prog.lift BusOp.readConn with
  | none => pure none
  | some conn => do
    Prog.lift (BusOp.closeConn conn)
    pure none

/-! ## The supervisor -/

/-- `connect`. -/
def connect : BusProg (Option String) := do
  match ← Prog.lift BusOp.dialBus with
  | .error e => pure (some ("amqp dial: " ++ e))
  | .ok conn =>
    match ← Prog.lift (BusOp.invoke conn .channel) with
    | .error e => do
      Prog.lift (BusOp.closeConn conn)
      pure (some ("amqp channel: " ++ e))
    | .ok _ =>
      match ← declare conn with
      | some e => do
        Prog.lift (BusOp.closeConn conn)
        pure (some e)
      | none => do
        Prog.lift (BusOp.setConn conn)
        pure none

/-- What starts a subscription again. -/
def Sub.start : Sub → BusProg (Option String)
  | .consumer cs => startConsumer cs
  | .config handler => startConfigSub handler

/-- The loops of `reestablish`: an error is logged, and the next one is started. -/
def startAll : List Sub → BusProg Unit
  | [] => pure ()
  | x :: xs => do
    let _ ← x.start
    startAll xs

/-- `reestablish`: every consumer, then every handler. -/
def reestablish : BusProg Unit := do
  Prog.lift BusOp.lock
  let (consumers, handlers) ← Prog.lift BusOp.registry
  startAll (consumers.map .consumer ++ handlers.map .config)
  Prog.lift BusOp.unlock

/-- Where the supervisor's program goes on: at the head of the loop of `supervise`, at that of
    `reconnect`, after the call of `reconnect`, or nowhere. -/
inductive Loop where
  | supervise | reconnect | reconnected | done
  deriving DecidableEq, Repr

/-- One pass of `supervise`, up to its call of `reconnect`. -/
def supervise : BusProg Loop := do
  if ← Prog.lift BusOp.isClosed then pure .done
  else
    match ← Prog.lift BusOp.readConn with
    | none => pure .done
    | some conn => do
      Prog.lift (BusOp.notifyClose conn)
      if ← Prog.lift BusOp.isClosed then pure .done else pure .reconnect

/-- One pass of `reconnect`; the backoff between two passes is not modelled. -/
def reconnect : BusProg Loop := do
  if ← Prog.lift BusOp.isClosed then pure .reconnected
  else
    match ← connect with
    | some _ => pure .reconnect
    | none => do
      reestablish
      pure .reconnected

/-- The supervisor from a loop head on. -/
def Loop.body : Loop → BusProg Loop
  | .supervise => Amqp.supervise
  | .reconnect => Amqp.reconnect
  | .reconnected => do
    if ← Prog.lift BusOp.isClosed then pure .done else pure .supervise
  | .done => pure .done

/-! ## The state -/

/-- The fields of a `Conn`, and the broker's side: the connections dialed so far, which of them are
    gone, and every subscription made, with its connection. -/
structure Bus where
  conn : Option Nat
  dialed : Nat
  lost : Nat → Bool
  closed : Bool
  held : Bool
  consumers : List Consumer
  handlers : List Nat
  subs : List (Nat × Sub)
  made : Nat

/-- The answers a call can get. -/
def BusOp.Answers (s : Bus) : (o : BusOp) → o.Ret → Prop
  | .isClosed, r => r = s.closed
  | .readConn, r => r = s.conn
  | .dialBus, .ok conn => conn = s.dialed
  | .notifyClose conn, _ => s.lost conn = true
  | .lock, _ => s.held = false
  | .registry, r => r = (s.consumers, s.handlers)
  | .addHandler _, r => r = s.handlers.length
  | .make, r => r = s.made
  | .invoke conn _, .ok _ => s.lost conn = false
  | _, _ => True

/-- The state after a call. -/
def BusOp.after (s : Bus) : (o : BusOp) → o.Ret → Bus
  | .setClosed, _ => { s with closed := true }
  | .setConn conn, _ => { s with conn := some conn }
  | .dialBus, .ok _ => { s with dialed := s.dialed + 1 }
  | .closeConn conn, _ => { s with lost := Function.update s.lost conn true }
  | .lock, _ => { s with held := true }
  | .unlock, _ => { s with held := false }
  | .addConsumer cs, _ => { s with consumers := s.consumers ++ [cs] }
  | .addHandler handler, _ => { s with handlers := s.handlers ++ [handler] }
  | .make, _ => { s with made := s.made + 1 }
  | .invoke conn (.consume _ _ _ sub), .ok _ => { s with subs := s.subs ++ [(conn, sub)] }
  | _, _ => s

/-- The subscriptions that a connection carries. -/
def Bus.live (s : Bus) (conn : Nat) : Multiset Sub :=
  ((s.subs.filter (·.1 = conn)).map (·.2) : List Sub)

/-- The registered consumers and handlers. -/
def Bus.registered (s : Bus) : Multiset Sub :=
  (s.consumers.map .consumer ++ s.handlers.map .config : List Sub)

/-! ## Histories -/

/-- How far the supervisor is.  `n` is how many handlers there were when it last read the registry,
    which is none while it has swapped in a connection and not read the registry since. -/
inductive Watch where
  /-- It may wait for the end of the connection it has read. -/
  | watching (n : Nat) (conn : Option Nat)
  /-- The connection is gone. -/
  | down (n : Nat)
  /-- A new one is dialed. -/
  | dialed (n conn : Nat)
  /-- It is `c.conn`, and nothing is subscribed again. -/
  | swapped
  /-- `regMu` is taken for that. -/
  | entered
  /-- These are left to start, the first over the connection that was read. -/
  | sweeping (n : Nat) (todo : List Sub) (conn : Option Nat)
  /-- `c.closed` was seen to be set. -/
  | closing
  deriving DecidableEq, Repr

namespace Watch

/-- How many handlers the registry had when it was read for the current connection. -/
def seen : Watch → Option Nat
  | .watching n _ | .down n | .dialed n _ | .sweeping n _ _ => some n
  | .swapped | .entered | .closing => none

/-- The subscriptions left to start again. -/
def todo : Watch → List Sub
  | .sweeping _ xs _ => xs
  | _ => []

/-- The supervisor holds `regMu`. -/
def locked : Watch → Bool
  | .entered | .sweeping _ _ _ => true
  | _ => false

end Watch

/-- What the supervisor may call. -/
def Watch.allow : Watch → BusOp → Prop
  | _, .isClosed => True
  | .watching _ _, .readConn => True
  | .watching _ c, .notifyClose conn => c = some conn
  | .down _, .dialBus => True
  | .dialed _ d, .invoke conn v => conn = d ∧ ∀ q a e x, v ≠ .consume q a e x
  | .dialed _ d, .closeConn conn | .dialed _ d, .setConn conn => conn = d
  | .swapped, .lock => True
  | .entered, .registry => True
  | .sweeping _ xs _, .readConn => xs ≠ []
  | .sweeping _ xs c, .invoke conn v =>
    c = some conn ∧ xs ≠ [] ∧ ∀ q a e x, v = .consume q a e x → xs.head? = some x
  | .sweeping _ _ _, .closeChannel _ => True
  | .sweeping _ xs _, .unlock => xs = []
  | _, _ => False

/-- How far it is after a call. -/
def Watch.next : Watch → (o : BusOp) → o.Ret → Watch
  | .down _, .isClosed, true => .closing
  | .closing, .isClosed, false => .watching 0 none
  | .watching n _, .readConn, c => .watching n c
  | .watching n _, .notifyClose _, _ => .down n
  | .down n, .dialBus, .ok d => .dialed n d
  | .dialed n _, .closeConn _, _ => .down n
  | .dialed _ _, .setConn _, _ => .swapped
  | .swapped, .lock, _ => .entered
  | .entered, .registry, (cs, hs) => .sweeping hs.length (cs.map .consumer ++ hs.map .config) none
  | .sweeping n xs _, .readConn, some c => .sweeping n xs (some c)
  | .sweeping n xs _, .readConn, none => .sweeping n xs.tail none
  | .sweeping n xs _, .invoke _ _, .error _ => .sweeping n xs.tail none
  | .sweeping n xs _, .invoke _ (.consume _ _ _ _), .ok _ => .sweeping n xs.tail none
  | .sweeping n _ _, .unlock, _ => .watching n none
  | w, _, _ => w

/-- The supervisor's discipline. -/
def watching : Discipline BusOp.Ret Watch where
  allow := Watch.allow
  next := Watch.next

/-- How far a caller is. -/
inductive Stage where
  | begun
  /-- It has made its channel or its handler. -/
  | made (out : Nat)
  /-- It holds `regMu`, and has perhaps read a connection. -/
  | holding (out : Nat) (conn : Option Nat)
  /-- `registerConsumer` has subscribed over the connection, and holds `regMu`. -/
  | subscribed (cs : Consumer) (conn : Nat)
  /-- `SubscribeConfig` has appended the handler at this place; it may still hold `regMu`, and has
      perhaps read a connection. -/
  | registered (handler place : Nat) (locked : Bool) (conn : Option Nat)
  /-- Nothing is left but to return, and perhaps to release `regMu`. -/
  | ended (locked : Bool)
  deriving DecidableEq, Repr

/-- The caller holds `regMu`. -/
def Stage.locked : Stage → Bool
  | .holding _ _ | .subscribed _ _ => true
  | .registered _ _ l _ | .ended l => l
  | .begun | .made _ => false

/-- What a caller may call. -/
def Stage.allow : Stage → BusOp → Prop
  | .begun, .make | .begun, .setClosed | .begun, .readConn | .begun, .closeConn _ => True
  | .made _, .lock => True
  | .holding _ _, .readConn | .holding _ _, .unlock | .holding _ _, .closeChannel _ => True
  | .holding out c, .invoke conn v =>
    c = some conn ∧ ∀ q a e x, v = .consume q a e x → ∃ cs : Consumer, x = .consumer cs ∧ cs.out = out
  | .holding out _, .addHandler h => h = out
  | .subscribed cs _, .addConsumer cs' => cs' = cs
  | .registered _ _ l _, .unlock => l = true
  | .registered _ _ l _, .readConn => l = false
  | .registered h _ l c, .invoke conn v =>
    l = false ∧ c = some conn ∧ ∀ q a e x, v = .consume q a e x → x = .config h
  | .ended l, .unlock => l = true
  | _, _ => False

/-- How far it is after a call. -/
def Stage.next : Stage → (o : BusOp) → o.Ret → Stage
  | .begun, .make, out => .made out
  | .made out, .lock, _ => .holding out none
  | .holding out _, .readConn, c => .holding out c
  | .holding _ _, .unlock, _ => .ended false
  | .holding out _, .addHandler _, place => .registered out place true none
  | .holding _ _, .invoke conn (.consume _ _ _ (.consumer cs)), .ok _ => .subscribed cs conn
  | .subscribed _ _, .addConsumer _, _ => .ended true
  | .registered h i _ c, .unlock, _ => .registered h i false c
  | .registered h i _ _, .readConn, some c => .registered h i false (some c)
  | .registered _ _ _ _, .readConn, none => .ended false
  | .registered _ _ _ _, .invoke _ _, .error _ => .ended false
  | .registered _ _ _ _, .invoke _ (.consume _ _ _ _), .ok _ => .ended false
  | .ended _, .unlock, _ => .ended false
  | st, _, _ => st

/-- The discipline of the callers. -/
def calling : Discipline BusOp.Ret Stage where
  allow := Stage.allow
  next := Stage.next

/-! ## The link -/

/-- The calls that others make. -/
inductive Task where
  | registerConsumer (queue : String) (prefetch : Nat)
  | subscribeConfig
  | close
  deriving DecidableEq, Repr

/-- The program of a call. -/
def Task.body : Task → BusProg (Option String)
  | .registerConsumer queue prefetch => Amqp.registerConsumer queue prefetch
  | .subscribeConfig => Amqp.subscribeConfig
  | .close => Amqp.close

/-- The connection, and its supervisor: what it has done and the rest of its program. -/
structure Link where
  bus : Bus
  past : Watch
  rest : BusProg Loop

/-- What happens beside the callers: a connection is lost, or the supervisor makes a call, or goes
    on at a loop head. -/
inductive Event where
  | lose (conn : Nat)
  | supervise (o : BusOp) (r : o.Ret)
  | loop (l : Loop)

/-- One such step. -/
inductive Link.Moves : Link → Event → Link → Prop where
  | lose {s : Link} {conn : Nat} :
      Moves s (.lose conn) { s with bus.lost := Function.update s.bus.lost conn true }
  | supervise {s : Link} {o : BusOp} {k : o.Ret → BusProg Loop} {r : o.Ret}
      (hk : s.rest = .call o k) (ha : o.Answers s.bus r) :
      Moves s (.supervise o r) ⟨o.after s.bus r, s.past.next o r, k r⟩
  | loop {s : Link} {l : Loop} (hk : s.rest = .pure l) :
      Moves s (.loop l) { s with rest := l.body }

/-- A `Conn` when `Dial` returns: connected, nothing registered, and the supervisor started. -/
def dialed : Link where
  bus := { conn := some 0, dialed := 1, lost := fun _ => false, closed := false, held := false
           consumers := [], handlers := [], subs := [], made := 0 }
  past := .watching 0 none
  rest := Loop.supervise.body

/-- **The link.**  Any number of callers, in any interleaving with the supervisor, the losses of
    connections, and every answer the broker may give. -/
def link : Service Link Task BusOp.Ret Unit Event (Option String) Stage where
  init s := s = dialed
  starts _ _ := True
  body := Task.body
  exec s _ o r _ s' := o.Answers s.bus r ∧ s' = { s with bus := o.after s.bus r }
  world := Link.Moves
  discipline _ := calling
  birth _ := .begun

/-- The state of a link. -/
abbrev LinkPool := Pool Link Task BusOp.Ret (Option String) Stage

/-- A step of it. -/
abbrev LinkAct := Act Task BusOp.Ret Unit Event (Option String) Stage

/-- A call in progress. -/
abbrev LinkRun := Running Task BusOp.Ret (Option String) Stage

/-- The supervisor is waiting for the end of this connection. -/
def Link.WaitsOn (s : Link) (conn : Nat) : Prop :=
  ∃ k : Unit → BusProg Loop, s.rest = .call (.notifyClose conn) k

end Novamail.Amqp

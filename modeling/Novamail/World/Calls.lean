/-
  The calls a handler makes, and what each may answer.

  A handler is a `Handler α`, a program over `Op`.  There are four kinds of call: a `write` changes
  the world and answers only whether it was reported as done; an `ask` leaves the world alone;
  `settle` decides the fate of the delivery the handler holds; `newID` draws an id.

  Every failure the services can meet is an answer here.  A read may always fail, a write may fail
  with or without its effect (`Fate`), a sleep may be cut short by the deadline, a provider may
  answer anything that the parameter `net` admits.
-/
import Novamail.Core.Prog
import Novamail.Delivery.State
import Novamail.Ingress.Inbound
import Novamail.Providers.Send
import Novamail.World.State

namespace Novamail

open Novamail.Core

/-- The counters. -/
inductive Metric where
  | accepted | rejected | relayed | deferred | failed | bounced | suppressed
  deriving DecidableEq, Repr

/-- The limiter of the inbound policy, and the two of the routing state. -/
inductive Gate where
  | inbound | domain | provider
  deriving DecidableEq, Repr

/-- A call that leaves the world alone. -/
inductive Query where
  /-- `Store.Get` with `io.ReadAll`; none is an error. -/
  | get (key : String)
  /-- The listing of `Store.Walk`, and whether it ended in an error. -/
  | walk
  /-- `LastDetail`, empty on an error. -/
  | lastDetail (id : MsgId)
  /-- `SELECT … FROM messages WHERE id=$1`; none is an error. -/
  | selectMessage (id : MsgId)
  /-- `ActiveBodyRefs`; none is an error. -/
  | activeBodyRefs
  /-- `GetSettingInt`, none when the default is to be used. -/
  | settingInt (key : String)
  /-- The query of `alertFrom`, none is an error. -/
  | alertFrom
  /-- `w.state.Load()`. -/
  | loadState
  /-- `s.be.policy.Load()`. -/
  | loadPolicy
  /-- `Signer.Sign`; none is an error. -/
  | sign (s : Signer) (body : Bytes)
  /-- `Limiter.Reserve` on one of the limiters: the delay in nanoseconds, none when the key is
      unlimited. -/
  | reserve (g : Gate) (l : Limiter) (key : String)
  /-- `Reservation.Cancel`. -/
  | cancel
  /-- Wait that many nanoseconds; false when the deadline comes first. -/
  | sleep (ns : Nat)
  /-- `Provider.Send`. -/
  | send (p : Provider) (m : Message)
  /-- `Counter.Inc`. -/
  | inc (m : Metric)
  /-- The time as a mail date. -/
  | now

/-- The answer to a query. -/
@[reducible] def Query.Ret : Query → Type
  | .get _ => Option Bytes
  | .walk => List String × Bool
  | .lastDetail _ => String
  | .selectMessage _ => Option (Option Row)
  | .activeBodyRefs => Option (List String)
  | .settingInt _ => Option Int
  | .alertFrom => Option String
  | .loadState => RouteState
  | .loadPolicy => Option InboundPolicy
  | .sign _ _ => Option Bytes
  | .reserve _ _ _ => Option Nat
  | .cancel => Unit
  | .sleep _ => Bool
  | .send _ _ => SendReply
  | .inc _ => Unit
  | .now => String

/-- What a consumer does with its delivery. -/
inductive Verdict where
  | ack
  | nack (requeue : Bool)
  | reject (requeue : Bool)
  deriving DecidableEq, Repr

/-- A call. -/
inductive Op where
  | write (w : Write)
  | ask (q : Query)
  | settle (v : Verdict)
  | newID

/-- The answer to a call.  A write answers whether it was reported as done. -/
@[reducible] def Op.Ret : Op → Type
  | .write _ => Bool
  | .ask q => q.Ret
  | .settle _ => Unit
  | .newID => MsgId

/-- A program of a service. -/
abbrev Handler := Prog Op.Ret

/-- Make a write. -/
def write (w : Write) : Handler Bool := Prog.lift (Op.write w)
/-- Make a query. -/
def ask (q : Query) : Handler q.Ret := Prog.lift (Op.ask q)
/-- Settle the delivery. -/
def settle (v : Verdict) : Handler Unit := Prog.lift (Op.settle v)
/-- `newID`, `randomUUID`. -/
def newID : Handler MsgId := Prog.lift Op.newID

/-! ## What a call may answer -/

/-- How a write ended: done; failed without effect; or done but reported as failed. -/
inductive Fate where
  | ok | failed | lost
  deriving DecidableEq, Repr

/-- What the caller is told. -/
def Fate.reported : Fate → Bool
  | .ok => true
  | .failed | .lost => false

/-- The write took effect. -/
def Fate.applied : Fate → Bool
  | .ok | .lost => true
  | .failed => false

theorem Fate.applied_of_reported {f : Fate} (h : f.reported = true) : f.applied = true := by
  cases f with
  | ok => rfl
  | failed => cases h
  | lost => cases h

/-- The fates a write can have in a world. -/
def Write.possible (w : World) (wr : Write) : Fate → Bool
  | .ok => wr.enabled w
  | .failed => true
  | .lost => wr.enabled w && wr.mayBeLost

/-- A network: the replies providers can give. -/
abbrev Net := Provider → Message → SendReply → Prop

/-- The answers a query can get in a world.  The tables of the configuration are no part of a world,
    so a snapshot may hold anything: more than a deployment that stays as it is can answer. -/
def Query.Answers (net : Net) (w : World) : (q : Query) → q.Ret → Prop
  | .get key, r => r = none ∨ r = w.bodies key
  | .walk, r => (∀ k ∈ r.1, (w.bodies k).isSome) ∧ (r.2 = false → ∀ k, (w.bodies k).isSome → k ∈ r.1)
  | .lastDetail id, r =>
    r = "" ∨ r = (((w.events.filter (·.messageID = id)).getLast?).map (·.detail)).getD ""
  | .selectMessage id, r => r = none ∨ r = some (w.rows id)
  | .activeBodyRefs, r =>
    ∀ ks, r = some ks → ∀ k, k ∈ ks ↔ ∃ id row, w.rows id = some row ∧ row.status.live ∧
      row.bodyRef.key = k
  | .settingInt _, _ => True
  | .alertFrom, _ => True
  | .loadState, _ => True
  | .loadPolicy, _ => True
  | .sign _ _, _ => True
  | .reserve _ l key, r => r.isSome = (l.bucket key).isSome
  | .cancel, _ => True
  | .sleep _, _ => True
  | .send p m, r => net p m r
  | .inc _, _ => True
  | .now, _ => True

end Novamail

/-
  The shared state of the deployment: the body store, the two message tables, the suppression
  list, and the broker with its bag of jobs.

  The handlers of all services change it by `Write`s.  A write is one statement of the program
  (`Put`, `InsertMessage`, `Publish`, …) and is atomic; what a caller learns of it is in
  `Novamail.World.Calls`.  Every write has one equation for its effect (`Write.apply`), and the
  lemmas below say which part of the world it leaves alone.

  `log` is a record on the side, of what happened; no program reads it.
-/
import Mathlib.Data.Multiset.AddSub
import Mathlib.Logic.Function.Basic
import Novamail.Config.Tables
import Novamail.Model.Topology

namespace Novamail

/-! ## Tables -/

/-- A row of `messages`. -/
structure Row where
  envelope : Envelope
  bodyRef : BodyRef
  status : Status := .queued
  info : MessageMeta
  attempts : Nat := 0
  updatedAt : Nat
  deriving DecidableEq, Repr

/-- A row of `message_events`; `at` is its place in the table. -/
structure MessageEvent where
  messageID : MsgId
  kind : EventKind
  provider : String := ""
  detail : String := ""
  deriving DecidableEq, Repr

/-- The reasons the column admits (its CHECK constraint). -/
def SuppressReason.ofText (s : String) : Option SuppressReason :=
  if s = "hard_bounce" then some .hardBounce
  else if s = "complaint" then some .complaint
  else if s = "manual" then some .manual
  else none

/-! ## The world -/

/-- What happened, for the statements of the results. -/
inductive Event where
  /-- A submission, a bounce or an alert put its first job on the bus. -/
  | submitted (id : MsgId)
  /-- An operator requeue put another job on the bus. -/
  | requeued (id : MsgId)
  /-- `Data` returned nil. -/
  | accepted (id : MsgId)
  /-- A provider reported the message as delivered. -/
  | delivered (id : MsgId)
  /-- The bounce of a message was published. -/
  | dsnPublished (id : MsgId)
  /-- The bounce of a message was deliberately not sent. -/
  | dsnSuppressed (id : MsgId)
  /-- A provider answered 5xx to the RCPT of this address, for this message. -/
  | refused (id : MsgId) (addr : String)
  /-- A permanent bounce notification named this address. -/
  | notified (addr : String)
  /-- The address was put on the suppression list, for the bounce of this message if for any. -/
  | listed (addr : String) (reason : SuppressReason) (cause : Option MsgId)
  /-- An attempt with this status was recorded for the message. -/
  | recorded (id : MsgId) (status : Status)
  /-- A write for this message was reported as failed to its caller. -/
  | writeFailed (id : MsgId)
  deriving DecidableEq, Repr

/-- The shared state. -/
structure World where
  bodies : String → Option Bytes := fun _ => none
  rows : MsgId → Option Row := fun _ => none
  events : List MessageEvent := []
  suppressions : List Suppression := []
  /-- Every job on the broker that no consumer holds, with the queue it is in. -/
  bus : Multiset (Queue × Wire) := 0
  /-- The ids drawn so far. -/
  ids : List MsgId := []
  clock : Nat := 0
  log : List Event := []

namespace World

/-- The row exists with a status that is still to be delivered. -/
def live (w : World) (id : MsgId) : Bool := (w.rows id).any fun r => r.status.live

/-- The jobs on the broker that carry this id. -/
def jobs (w : World) (id : MsgId) : Nat := w.bus.countP fun d => d.2.carries id

/-- Add to the record. -/
def record (w : World) (es : List Event) : World := { w with log := w.log ++ es }

@[simp] theorem record_bodies (w : World) (es : List Event) : (w.record es).bodies = w.bodies := rfl
@[simp] theorem record_rows (w : World) (es : List Event) : (w.record es).rows = w.rows := rfl
@[simp] theorem record_bus (w : World) (es : List Event) : (w.record es).bus = w.bus := rfl
@[simp] theorem record_ids (w : World) (es : List Event) : (w.record es).ids = w.ids := rfl
@[simp] theorem record_log (w : World) (es : List Event) : (w.record es).log = w.log ++ es := rfl

end World

/-! ## Writes -/

/-- A statement of a program that changes the world. -/
inductive Write where
  /-- `Store.Put`: both backends overwrite. -/
  | put (key : String) (body : Bytes)
  /-- `INSERT INTO message_bodies`. -/
  | insertBody (key : String) (body : Bytes)
  /-- `Store.Delete`. -/
  | delete (key : String)
  /-- `INSERT INTO messages`; `logged` when a `queued` event is inserted with it. -/
  | insertMessage (id : MsgId) (env : Envelope) (bodyRef : BodyRef) (info : MessageMeta)
      (logged : Bool)
  /-- `RecordAttempt`. -/
  | recordAttempt (id : MsgId) (status : Status) (kind : EventKind) (provider detail : String)
  /-- The upsert of a suppression.  Without a detail only the reason of a present row changes. -/
  | addSuppression (address reason source : String) (detail : Option String)
  /-- `PruneOld`. -/
  | pruneOld (days : Int)
  /-- A publish of the data plane: to the work exchange, to a wait tier, or to the DLQ. -/
  | publish (queue : Queue) (job : RelayJob)
  /-- `publishRelayJob` of the Admin API: always to the work exchange. -/
  | publishRelayJob (job : RelayJob)
  /-- `PublishConfig`. -/
  | publishConfig

namespace Write

/-- `AddSuppression`'s row, given the present row of the address. -/
def suppressionRow (a : String) (reason : SuppressReason) (source : String)
    (detail : Option String) : Option Suppression → Suppression
  | none =>
    { address := a, reason := reason, source := source, detail := detail.getD "", expiresAt := none }
  | some old =>
    match detail with
    | none => { old with reason := reason }
    | some d => { old with reason := reason, source := source, detail := d }

/-- `ON CONFLICT (address) DO UPDATE`. -/
def upsert (a : String) (f : Option Suppression → Suppression) :
    List Suppression → List Suppression
  | [] => [f none]
  | s :: ss => if s.address = a then f (some s) :: ss else s :: upsert a f ss

/-- One row of `PruneOld`: gone when terminal and older than the window (days of 86400 s). -/
def pruned (clock : Nat) (days : Int) (r : Row) : Bool :=
  !r.status.live && (r.updatedAt : Int) < (clock : Int) - 86400 * days

/-- The effect of a write. -/
def apply (w : World) : Write → World
  | .put key body => { w with bodies := Function.update w.bodies key (some body) }
  | .insertBody key body => { w with bodies := Function.update w.bodies key (some body) }
  | .delete key => { w with bodies := Function.update w.bodies key none }
  | .insertMessage id env bodyRef info logged =>
    { w with
      rows := Function.update w.rows id
        (some { envelope := env, bodyRef := bodyRef, info := info, updatedAt := w.clock })
      events := if logged then w.events ++ [{ messageID := id, kind := .queued }] else w.events }
  | .recordAttempt id status kind provider detail =>
    { w with
      rows := Function.update w.rows id ((w.rows id).map fun r =>
        { r with status := status, attempts := r.attempts + 1, updatedAt := w.clock })
      events := w.events ++
        [{ messageID := id, kind := kind, provider := provider, detail := detail }] }
  | .addSuppression address reason source detail =>
    { w with
      suppressions := (SuppressReason.ofText reason).elim w.suppressions fun r =>
        upsert (lower address) (suppressionRow (lower address) r source detail) w.suppressions }
  | .pruneOld days =>
    { w with
      rows := fun id => (w.rows id).filter fun r => !pruned w.clock days r
      events := w.events.filter fun e => !((w.rows e.messageID).any (pruned w.clock days)) }
  | .publish queue job => { w with bus := (queue, .job job) ::ₘ w.bus }
  | .publishRelayJob job => { w with bus := (.work, .job job) ::ₘ w.bus }
  | .publishConfig => w

/-- The statement can succeed: an insert finds no row of its key, the event of an attempt finds its
    message (foreign key), a reason passes its CHECK. -/
def enabled (w : World) : Write → Bool
  | .insertBody key _ => (w.bodies key).isNone
  | .insertMessage id _ _ _ _ => (w.rows id).isNone
  | .recordAttempt id _ _ _ _ => (w.rows id).isSome
  | .addSuppression _ reason _ _ => (SuppressReason.ofText reason).isSome
  | _ => true

/-- The statement may take effect and still be reported as failed: the connection to the database
    or the volume breaks after the commit, or the Admin API's channel buffer is full.  A publish of
    the data plane returns nil iff the job was enqueued. -/
def mayBeLost : Write → Bool
  | .publish _ _ | .publishConfig => false
  | _ => true

/-! ### What a write leaves alone -/

/-- The key whose body the write touches. -/
def bodyKey : Write → Option String
  | .put k _ | .insertBody k _ | .delete k => some k
  | _ => none

theorem apply_bodies_of_ne {w : World} {wr : Write} {k : String} (h : wr.bodyKey ≠ some k) :
    (wr.apply w).bodies k = w.bodies k := by
  cases wr with
  | put key body => exact Function.update_of_ne (fun hk => h (by rw [hk]; rfl)) _ _
  | insertBody key body => exact Function.update_of_ne (fun hk => h (by rw [hk]; rfl)) _ _
  | delete key => exact Function.update_of_ne (fun hk => h (by rw [hk]; rfl)) _ _
  | _ => rfl

/-- The row the write inserts or updates. -/
def rowKey : Write → Option MsgId
  | .insertMessage id _ _ _ _ | .recordAttempt id _ _ _ _ => some id
  | _ => none

theorem apply_rows_of_ne {w : World} {wr : Write} {id : MsgId} (h : wr.rowKey ≠ some id)
    (hp : ∀ days, wr ≠ .pruneOld days) : (wr.apply w).rows id = w.rows id := by
  cases wr with
  | insertMessage => exact Function.update_of_ne (fun hk => h (by rw [hk]; rfl)) _ _
  | recordAttempt => exact Function.update_of_ne (fun hk => h (by rw [hk]; rfl)) _ _
  | pruneOld days => exact absurd rfl (hp days)
  | _ => rfl

theorem apply_rows_insertMessage {w : World} {id : MsgId} {env : Envelope} {ref : BodyRef}
    {info : MessageMeta} {logged : Bool} :
    ((Write.insertMessage id env ref info logged).apply w).rows id =
      some { envelope := env, bodyRef := ref, info := info, updatedAt := w.clock } :=
  Function.update_self ..

theorem apply_rows_recordAttempt {w : World} {id : MsgId} {st : Status} {kind : EventKind}
    {provider detail : String} :
    ((Write.recordAttempt id st kind provider detail).apply w).rows id = (w.rows id).map fun r =>
      { r with status := st, attempts := r.attempts + 1, updatedAt := w.clock } :=
  Function.update_self ..

theorem apply_rows_pruneOld {w : World} {id : MsgId} {days : Int} :
    ((Write.pruneOld days).apply w).rows id =
      (w.rows id).filter fun r => !pruned w.clock days r := rfl

/-- The write stores a body under the key. -/
theorem apply_bodies_put {w : World} {k : String} {b : Bytes} :
    ((Write.put k b).apply w).bodies k = some b := Function.update_self ..

@[simp] theorem apply_ids (w : World) (wr : Write) : (wr.apply w).ids = w.ids := by
  cases wr <;> rfl

@[simp] theorem apply_log (w : World) (wr : Write) : (wr.apply w).log = w.log := by
  cases wr <;> rfl

/-- The job a write puts on the broker. -/
def publishes : Write → Option (Queue × Wire)
  | .publish q j => some (q, .job j)
  | .publishRelayJob j => some (.work, .job j)
  | _ => none

/-- The broker after a write: one more job after a publish, the same jobs after anything else. -/
theorem apply_bus (w : World) (wr : Write) :
    (wr.apply w).bus = (wr.publishes.elim w.bus fun d => d ::ₘ w.bus) := by
  cases wr <;> rfl

end Write

end Novamail

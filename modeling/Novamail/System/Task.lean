/-
  What a handler may do, one call at a time.

  A task is one run of a handler: a DATA command, a delivery, an operator request.  While it runs
  it goes through phases, each a fact about what it has done so far: an id drawn, the body stored,
  the row inserted, the job handed to the bus; or a Delivered reported, the attempt recorded, the
  successor published.  `Phase.next` reads the phase off the calls, `Task.allow` says which calls
  the text of the services makes in which phase, and `Novamail.System.Obeys` checks the text
  against it, handler by handler.  The results about whole runs use only this automaton.
-/
import Novamail.Admin.Routes
import Novamail.Delivery.Handle
import Novamail.Dsn.Handle
import Novamail.Ingress.Session
import Novamail.Maintenance.Sweep

namespace Novamail

open Novamail.Core

/-- What the deployment fixes: the libraries, the relay's host name, and the network. -/
structure Site where
  platform : Platform
  host : String
  net : Net

/-! ## Tasks -/

/-- One run of a handler. -/
inductive Task where
  /-- `Data` in this session, with these bytes. -/
  | submit (s : Ingress.Session) (body : Bytes)
  /-- `worker.handle` of a delivery from the work queue. -/
  | deliver (w : Wire)
  /-- `gen.handle` of a delivery from the DLQ. -/
  | bounce (w : Wire)
  /-- An operator requeue. -/
  | requeue (id : MsgId)
  /-- An alert mail. -/
  | alert (recipients : List String) (subject text : String)
  /-- A run of the maintenance program. -/
  | sweep
  /-- A feedback request. -/
  | feedback (provider : String) (body : Admin.Feedback)
  deriving DecidableEq

namespace Task

/-- The delivery a consumer task is started with. -/
def delivery : Task → Option (Queue × Wire)
  | .deliver w => some (.work, w)
  | .bounce w => some (.dlq, w)
  | _ => none

/-- The job of a consumer task, when it parses. -/
def job : Task → Option RelayJob
  | .deliver (.job j) | .bounce (.job j) => some j
  | _ => none

theorem of_job {t : Task} {j : RelayJob} (h : t.job = some j) :
    t = .deliver (.job j) ∨ t = .bounce (.job j) := by
  cases t with
  | deliver w =>
    cases w with
    | job j' =>
      cases h
      exact .inl rfl
    | garbage => cases h
  | bounce w =>
    cases w with
    | job j' =>
      cases h
      exact .inr rfl
    | garbage => cases h
  | _ => cases h

/-- The task consumes a job with this id. -/
def carries (t : Task) (id : MsgId) : Bool := t.job.any fun j => j.messageID = id

/-- The program of a task; it ends with true when the handler reports success. -/
def program (site : Site) : Task → Handler Bool
  | .submit s body => do
    let e ← Ingress.data site.platform s body
    pure e.isNone
  | .deliver w => do
    Delivery.handle w
    pure true
  | .bounce w => do
    Dsn.handle site.host w
    pure true
  | .requeue id => do
    let code ← Admin.requeue id
    pure (code = 200)
  | .alert recipients subject text => Admin.injectEmail recipients subject text
  | .sweep => do
    let swept ← Maintenance.main
    pure swept.isSome
  | .feedback provider body => do
    let code ← Admin.feedback provider body
    pure (code = 200)

/-- A task that brings a message into the system under an id it draws. -/
def produces : Task → Bool
  | .submit _ _ | .alert _ _ _ | .bounce _ => true
  | _ => false

end Task

/-! ## Phases -/

/-- How far a task has come. -/
inductive Phase where
  | start
  /-- An id was drawn for a new message. -/
  | drawn (id : MsgId)
  /-- Its body was reported as stored. -/
  | stored (id : MsgId)
  /-- Its row was reported as inserted. -/
  | inserted (id : MsgId)
  /-- Its job was handed to the bus. -/
  | published (id : MsgId)
  /-- A step of the new message, or the publish of a requeue, is over without a job. -/
  | ended
  /-- A provider reported Delivered. -/
  | sent
  /-- `RecordAttempt(relayed)` was called. -/
  | closed
  /-- The job's successor was published to a wait tier or the DLQ. -/
  | moved
  /-- `RecordAttempt(bounced)` was called. -/
  | noted
  /-- The bounce was deliberately not sent. -/
  | settled
  /-- The row of a requeue was read. -/
  | selected (row : Row)
  /-- The sweep has read the active body refs. -/
  | queried (active : List String)
  /-- The sweep has listed the store. -/
  | swept (active listing : List String)
  /-- The delivery was acked, nacked or rejected. -/
  | done
  deriving DecidableEq

namespace Phase

/-- The id whose message is still being brought into the system. -/
def pending : Phase → Option MsgId
  | .drawn id | .stored id | .inserted id => some id
  | _ => none

/-- The consumer has not yet discharged its job: nothing was delivered, moved, or settled. -/
def holds : Phase → Bool
  | .start | .noted | .drawn _ | .stored _ | .inserted _ | .ended => true
  | _ => false

/-- The phase after a write was reported as done or failed. -/
def nextWrite (ph : Phase) (ok : Bool) : Write → Phase
  | .put _ _ | .insertBody _ _ =>
    match ph with
    | .drawn id => if ok then .stored id else .ended
    | ph => ph
  | .delete _ =>
    match ph with
    | .stored _ => .ended
    | ph => ph
  | .insertMessage _ _ _ _ _ =>
    match ph with
    | .stored id => if ok then .inserted id else .ended
    | ph => ph
  | .recordAttempt _ st _ _ _ =>
    match st with
    | .relayed => .closed
    | .bounced => .noted
    | _ => ph
  | .publish _ _ =>
    match ph with
    | .inserted id => if ok then .published id else .ended
    | ph => if ok then .moved else ph
  | .publishRelayJob _ =>
    match ph with
    | .inserted id => if ok then .published id else .ended
    | _ => .ended
  | _ => ph

/-- The phase after a query was answered. -/
def nextQuery (ph : Phase) : (q : Query) → q.Ret → Phase
  | .send _ _, r => if r.isDelivered then .sent else ph
  | .inc .suppressed, _ => .settled
  | .selectMessage _, some (some row) => .selected row
  | .activeBodyRefs, some active => .queried active
  | .walk, r =>
    match ph with
    | .queried active => .swept active r.1
    | ph => ph
  | _, _ => ph

/-- The phase after a call. -/
def next (ph : Phase) : (o : Op) → o.Ret → Phase
  | .write w, ok => ph.nextWrite ok w
  | .ask q, r => ph.nextQuery q r
  | .settle _, _ => .done
  | .newID, id => .drawn id

end Phase

/-! ## The discipline -/

/-- Where a delivery moves its job, and with which attempt: to the next tier; to the DLQ when there
    is none left; to the DLQ as it is when its whole chain failed. -/
inductive RelayJob.Moves (j : RelayJob) : Queue → Int → Prop where
  | tier {tier : WaitTier} (h : tierForAttempt (j.attempt + 1) = some tier) :
      Moves j tier.queue (j.attempt + 1)
  | exhausted (h : tierForAttempt (j.attempt + 1) = none) : Moves j .dlq (j.attempt + 1)
  | failed : Moves j .dlq j.attempt

namespace Task

/-- The deletes of the services: an oversized submission drops the body it stored, a consumer the
    body of the job it has discharged, the sweep a listed body that was not active. -/
inductive MayDelete (t : Task) : Phase → String → Prop where
  | oversized (key : MsgId) (ht : t.produces = true) : MayDelete t (.stored key) key
  | relayed {j : RelayJob} (hd : t = .deliver (.job j)) : MayDelete t .closed j.bodyRef.key
  | bounced {j : RelayJob} {d : MsgId} (hd : t = .bounce (.job j)) :
      MayDelete t (.published d) j.bodyRef.key
  | suppressed {j : RelayJob} (hd : t = .bounce (.job j)) : MayDelete t .settled j.bodyRef.key
  | orphan {active listing : List String} {key : String} (ht : t = .sweep) (hl : key ∈ listing)
      (ha : key ∉ active) : MayDelete t (.swept active listing) key

/-- The attempts the services record. -/
inductive MayRecord (t : Task) : Phase → MsgId → Status → Prop where
  | failed {j : RelayJob} (hd : t = .deliver (.job j)) : MayRecord t .start j.messageID .failed
  | deferred {j : RelayJob} (hd : t = .deliver (.job j)) : MayRecord t .start j.messageID .deferred
  | relayed {j : RelayJob} (hd : t = .deliver (.job j)) : MayRecord t .sent j.messageID .relayed
  | bounced {j : RelayJob} (hd : t = .bounce (.job j)) : MayRecord t .start j.messageID .bounced

/-- The publishes of the data plane: a delivery moves its own job, with another attempt, to a wait
    tier or the DLQ; a producer publishes the message it has stored and recorded, and what the
    bounce generator publishes has a null sender. -/
inductive MayPublish (t : Task) : Phase → Queue → RelayJob → Prop where
  | successor {j : RelayJob} {q : Queue} (hd : t = .deliver (.job j))
      (hq : q.isWait = true ∨ q = .dlq) (attempt : Int) (hm : j.Moves q attempt) :
      MayPublish t .start q { j with attempt := attempt }
  | submission {s : Ingress.Session} {body : Bytes} {id : MsgId} {j : RelayJob}
      (ht : t = .submit s body) (hid : j.messageID = id) (hk : j.bodyRef.key = id)
      (hj : j = Ingress.relayJob s id) : MayPublish t (.inserted id) .work j
  | dsn {orig : RelayJob} {id : MsgId} {j : RelayJob} (ht : t = .bounce (.job orig))
      (hid : j.messageID = id) (hk : j.bodyRef.key = id) (hf : j.envelope.mailFrom = "")
      (hj : j = Dsn.dsnJob orig id) : MayPublish t (.inserted id) .work j

/-- The publishes of the Admin API. -/
inductive MayInject (t : Task) : Phase → RelayJob → Prop where
  | alert {rs : List String} {subject text : String} {id : MsgId} {j : RelayJob}
      (ht : t = .alert rs subject text) (hid : j.messageID = id) (hk : j.bodyRef.key = id)
      (hj : ∃ sender, j = Admin.alertJob id sender rs) : MayInject t (.inserted id) j
  | requeue {row : Row} {j : RelayJob} (ht : t = .requeue j.messageID)
      (hl : row.status.live = true) (hr : j.bodyRef = row.bodyRef)
      (he : j.envelope = row.envelope) (hj : j = Admin.requeueJob j.messageID row) : MayInject t (.selected row) j

/-- The suppressions the services insert. -/
inductive MaySuppress (t : Task) : Phase → String → String → Prop where
  | bounced {j : RelayJob} {addr : String} (ht : t = .bounce (.job j))
      (hf : j.envelope.mailFrom ≠ "") (ha : addr ∈ j.envelope.rcptTo) :
      MaySuppress t .noted addr "hard_bounce"
  | feedback {provider : String} {body : Admin.Feedback} {addrs : List String}
      {addr reason : String} (ht : t = .feedback provider body)
      (hp : body.parse = some (addrs, reason)) (ha : addr ∈ addrs) :
      MaySuppress t .start addr reason

/-- The writes a task makes in a phase. -/
def allowWrite (t : Task) (ph : Phase) : Write → Prop
  | .put key _ | .insertBody key _ => ph = .drawn key ∧ t.produces = true
  | .delete key => t.MayDelete ph key
  | .insertMessage id _ ref _ _ => ph = .stored id ∧ t.produces = true ∧ ref.key = id
  | .recordAttempt id st _ _ _ => t.MayRecord ph id st
  | .addSuppression addr reason _ _ => t.MaySuppress ph addr reason
  | .pruneOld _ => t = .sweep
  | .publish q j => t.MayPublish ph q j
  | .publishRelayJob j => t.MayInject ph j
  | .publishConfig => True

/-- The queries a task makes in a phase; only the read of a body and those that move the phase are
    restricted. -/
def allowQuery (t : Task) (ph : Phase) : Query → Prop
  | .get key => ph = .start ∧ ∃ j, t = .deliver (.job j) ∧ key = j.bodyRef.key
  | .send _ m => ph = .start ∧ ∃ j, t = .deliver (.job j) ∧ m.envelope = j.envelope
  | .inc .suppressed =>
    ph = .noted ∧ ∃ j, t = .bounce (.job j) ∧ (j.envelope.mailFrom = "" ∨ j.dsnSuppress = true)
  | .selectMessage id => ph = .start ∧ t = .requeue id
  | .activeBodyRefs => ph = .start ∧ t = .sweep
  | .walk => t = .sweep ∧ ∃ active, ph = .queried active
  | _ => True

/-- The verdicts: ack only what was discharged, nack (with requeue) only what was not, reject only
    what does not parse. -/
inductive MaySettle (t : Task) : Phase → Verdict → Prop where
  | relayed {j : RelayJob} (ht : t = .deliver (.job j)) : MaySettle t .closed .ack
  | moved {j : RelayJob} (ht : t = .deliver (.job j)) : MaySettle t .moved .ack
  | bounced {j : RelayJob} {d : MsgId} (ht : t = .bounce (.job j)) : MaySettle t (.published d) .ack
  | suppressed {j : RelayJob} (ht : t = .bounce (.job j)) : MaySettle t .settled .ack
  | retry {j : RelayJob} (ht : t = .deliver (.job j)) : MaySettle t .start (.nack true)
  | regenerate {j : RelayJob} (ht : t = .bounce (.job j)) : MaySettle t .ended (.nack true)
  | garbage (ht : t = .deliver .garbage ∨ t = .bounce .garbage) :
      MaySettle t .start (.reject false)

/-- The calls a task makes in a phase. -/
def allow (t : Task) (ph : Phase) : Op → Prop
  | .write w => t.allowWrite ph w
  | .ask q => t.allowQuery ph q
  | .settle v => t.MaySettle ph v
  | .newID => t.produces = true ∧ (ph = .start ∧ t.delivery = none ∨
      ph = .noted ∧ ∃ j, t = .bounce (.job j))

/-- The discipline of a task. -/
def discipline (t : Task) : Discipline Op.Ret Phase where
  allow := t.allow
  next := Phase.next

/-- How a task ends: a consumer with its delivery settled, `Data` with a nil error only after its
    publish, and no producer between the insert of its row and the publish of its job. -/
structure Fin (t : Task) (ph : Phase) (ok : Bool) : Prop where
  settled : t.delivery.isSome → ph = .done
  accepted : ∀ s body, t = .submit s body → ok = true → ∃ id, ph = .published id
  through : t.produces = true → ∀ id, ph ≠ .inserted id

end Task

end Novamail

/-
  The jobs that the Admin API publishes, as texts: the objects of the requeue endpoint (`routes.ts`)
  and of `injectEmail` (`alerts.ts`), and `publishRelayJob` of `bus.ts`.

  The object is written by `JSON.stringify` and read by Go.  What a handler reads is the job of the
  model (`requeueJob`, `alertJob`), and the routing key is the recipient domain that it reads.
-/
import Novamail.Admin.Routes
import Novamail.Model.JobText

namespace Novamail.Admin

open Novamail.Core.Json Novamail.Core.Rfc3339

/-- A `Date`: a moment in UTC, to a millisecond. -/
abbrev JsDate := { m : Moment // m.1.zone = 0 ∧ m.1.nano % 1000000 = 0 }

/-- The object literal of a job. -/
def jobObject (id : MsgId) (backend key mailFrom : String) (rcptTo : List String)
    (recipientDomain senderDomain : String) (now : JsDate) : Value :=
  .obj [("v", .num (.ofInt 1)),
    ("messageId", .str id),
    ("bodyRef", .obj [("backend", .str backend), ("key", .str key)]),
    ("envelope", .obj [("mailFrom", .str mailFrom), ("rcptTo", .arr (rcptTo.map .str))]),
    ("routingHints", .obj
      [("recipientDomain", .str recipientDomain), ("senderDomain", .str senderDomain)]),
    ("attempt", .num (.ofInt 0)),
    ("enqueuedAt", .str (String.ofList now.1.1.iso))]

/-- The object of `POST /api/messages/:id/requeue` for a row. -/
def requeueObject (id : MsgId) (m : Row) (now : JsDate) : Value :=
  jobObject id m.bodyRef.backend.text m.bodyRef.key m.envelope.mailFrom m.envelope.rcptTo
    (firstDomain m.envelope.rcptTo) (splitDomain m.envelope.mailFrom) now

/-- The object of `injectEmail`. -/
def alertObject (id sender : String) (recipients : List String) (now : JsDate) : Value :=
  jobObject id "pg" id sender recipients (firstDomain recipients) (splitDomain sender) now

/-- `o?.k`: a member of an object. -/
def member? (k : String) : Option Value → Option Value
  | some (.obj ms) => ms.lookup k
  | _ => none

/-- `publishRelayJob`: the routing key and the body of the message. -/
def relayMessage (job : Value) : String × String :=
  (match member? "recipientDomain" (member? "routingHints" (some job)) with
    | some (.str s) => s
    | _ => "",
  job.text plainStyle)

/-! ## What Go reads -/

/-- The record that an object literal is read as. -/
def jobRecord (id : MsgId) (backend key mailFrom : String) (rcptTo : List String)
    (recipientDomain senderDomain : String) (now : JsDate) : JobRecord where
  v := 1
  messageID := id
  bodyRef := { backend := backend, key := key }
  envelope := { mailFrom := mailFrom, rcptTo := rcptTo }
  routingHints := { recipientDomain := recipientDomain, senderDomain := senderDomain }
  enqueuedAt := now.1

/-- The hints of an object literal, which are always written. -/
def hintsObject (h : RoutingHints) : Value :=
  .obj [("recipientDomain", .str h.recipientDomain), ("senderDomain", .str h.senderDomain)]

theorem record_hintsObject (h : RoutingHints) :
    Into.record JobRecord.routingHintsFields (hintsObject h) {} = (h, true) := rfl

theorem accepts_hintsObject (h : RoutingHints) : Schema.accepts (hintsObject h)
    (.object [] [("recipientDomain", .string), ("senderDomain", .string)]) = true := rfl

/-- An object literal has the members of the record that it is read as. -/
theorem jobObject_eq (id : MsgId) (backend key mailFrom : String) (rcptTo : List String)
    (recipientDomain senderDomain : String) (now : JsDate) :
    jobObject id backend key mailFrom rcptTo recipientDomain senderDomain now =
      .obj ((jobRecord id backend key mailFrom rcptTo recipientDomain senderDomain now).members
        (hintsObject { recipientDomain := recipientDomain, senderDomain := senderDomain })
        (.str (String.ofList now.1.1.iso))) := rfl

/-- **What `JSON.stringify` wrote, Go reads**, member by member. -/
theorem unmarshal_jobObject (id : MsgId) (backend key mailFrom : String) (rcptTo : List String)
    (recipientDomain senderDomain : String) (now : JsDate) :
    JobRecord.unmarshal ((jobObject id backend key mailFrom rcptTo recipientDomain senderDomain
      now).text plainStyle) =
      some (jobRecord id backend key mailFrom rcptTo recipientDomain senderDomain now) := by
  have hdate : Into.moment (.str (String.ofList now.1.1.iso)) zeroTime = (now.1, true) :=
    Into.moment_str (by rw [String.toList_ofList, parse_iso now.2.1 now.2.2]) zeroTime
  have hread := JobRecord.foldl_members
    (jobRecord id backend key mailFrom rcptTo recipientDomain senderDomain now)
    (record_hintsObject _) hdate
  unfold JobRecord.unmarshal
  rw [Into.unmarshal_text, jobObject_eq, Into.record_obj]
  exact congrArg (fun p : JobRecord × Bool => if p.2 then some p.1 else none) hread

/-- An object literal conforms to the schema as soon as it has a recipient. -/
theorem accepts_jobObject (id : MsgId) (b : Backend) (key mailFrom : String) (rcptTo : List String)
    (recipientDomain senderDomain : String) (now : JsDate) :
    Schema.accepts (jobObject id b.text key mailFrom rcptTo recipientDomain senderDomain now)
      JobRecord.relayJobSchema = decide (rcptTo ≠ []) := by
  let r := jobRecord id b.text key mailFrom rcptTo recipientDomain senderDomain now
  let hints := hintsObject { recipientDomain := recipientDomain, senderDomain := senderDomain }
  have hall : (JobRecord.jobRequired.all fun k =>
      (r.members hints (.str (String.ofList now.1.1.iso))).any fun m => m.1 = k) = true :=
    List.all_eq_true.mpr (r.any_members hints _)
  have hbackend : b.text ∈ ["fs", "pg"] := by cases b <;> decide
  have hone : (1 ≤ rcptTo.length) = (rcptTo ≠ []) := propext
    (Nat.one_le_iff_ne_zero.trans (not_congr List.length_eq_zero_iff))
  rw [jobObject_eq, JobRecord.relayJobSchema, Schema.accepts_obj, hall,
    JobRecord.accepts_members _ _ (accepts_hintsObject _)]
  show (true && (true && (decide (b.text ∈ ["fs", "pg"]) &&
    (decide (1 ≤ rcptTo.length) && true)))) = _
  simp only [hbackend, hone, decide_true, Bool.true_and, Bool.and_true]

/-- A message of the Admin API is the job of the model: its text conforms to the schema if it has a
    recipient, Go reads it as this job, with its date and without a trace, and it goes out under
    the recipient domain that Go reads. -/
structure Means (object : Value) (j : RelayJob) (now : JsDate) : Prop where
  conforms : Schema.accepts object JobRecord.relayJobSchema = decide (j.envelope.rcptTo ≠ [])
  read : ∃ r, JobRecord.unmarshal (relayMessage object).2 = some r ∧ r.Tells j ∧
    r.enqueuedAt = now.1 ∧ r.trace.1 = [] ∧
    (relayMessage object).1 = r.routingHints.recipientDomain

/-- **The data plane reads the job that the Admin API meant**, for a requeue and for an alert. -/
theorem admin_jobs_read (id : MsgId) (m : Row) (sender : String) (rcpts : List String)
    (now : JsDate) :
    Means (requeueObject id m now) (requeueJob id m) now ∧
      Means (alertObject id sender rcpts now) (alertJob id sender rcpts) now := by
  have hrequeue : Means (requeueObject id m now) (requeueJob id m) now :=
    ⟨accepts_jobObject id m.bodyRef.backend _ _ _ _ _ now, _, unmarshal_jobObject ..,
      ⟨rfl, rfl, rfl, rfl, rfl, rfl, rfl, rfl⟩, rfl, rfl, rfl⟩
  have halert : Means (alertObject id sender rcpts now) (alertJob id sender rcpts) now :=
    ⟨accepts_jobObject id .pg _ _ _ _ _ now, _, unmarshal_jobObject ..,
      ⟨rfl, rfl, rfl, rfl, rfl, rfl, rfl, rfl⟩, rfl, rfl, rfl⟩
  exact ⟨hrequeue, halert⟩

end Novamail.Admin

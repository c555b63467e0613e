/-
  The Admin API handlers that touch mail: `POST /api/messages/:id/requeue` and
  `POST /api/feedback/:provider` of `routes.ts`, and `injectEmail` of `alerts.ts`.
-/
import Novamail.World.Calls

namespace Novamail.Admin

open Novamail.Core

/-- `(addr.split("@")[1] ?? "").toLowerCase()`: what stands between the first two `@`. -/
def splitDomain (addr : String) : String :=
  match splitOn '@' addr.toList with
  | _ :: d :: _ => lower (String.ofList d)
  | _ => ""

/-- The same of the first address of a list. -/
def firstDomain : List String → String
  | [] => ""
  | a :: _ => splitDomain a

example : splitDomain "bob@Example.com" = "example.com" := by decide

/-! ## Requeue -/

/-- The statuses the requeue endpoint refuses. -/
def terminal : Status → Bool
  | .relayed | .bounced | .failed => true
  | .queued | .deferred => false

theorem terminal_eq (s : Status) : terminal s = !s.live := by cases s <;> rfl

/-- The job the requeue endpoint publishes for a row.  Its `messageId` is the id of the row as
    Postgres prints it, with dashes: the id of the request in another spelling. -/
def requeueJob (id : MsgId) (m : Row) : RelayJob :=
  { messageID := id, bodyRef := m.bodyRef, envelope := m.envelope,
    routingHints :=
      { recipientDomain := firstDomain m.envelope.rcptTo
        senderDomain := splitDomain m.envelope.mailFrom } }

/-- `POST /api/messages/:id/requeue`: the HTTP status. -/
def requeue (id : MsgId) : Handler Nat := do
  match ← ask (.selectMessage id) with
  | none => pure 500
  | some none => pure 404
  | some (some m) =>
    if terminal m.status then pure 409
    else if !(← write (.publishRelayJob (requeueJob id m))) then pure 502
    else pure 200

/-! ## Alert mail -/

/-- The text has a CR or an LF. -/
def hasNewline (s : String) : Bool := s.toList.any fun c => c = '\r' || c = '\n'

/-- The bytes of an alert mail. -/
def alertBody (id sender : String) (recipients : List String) (subject text date : String) : Bytes :=
  ("From: NovaMail Alerts <" ++ sender ++ ">\r\n" ++
    "To: " ++ String.intercalate ", " recipients ++ "\r\n" ++
    "Subject: " ++ subject ++ "\r\n" ++
    "Date: " ++ date ++ "\r\n" ++
    "Message-ID: <" ++ id ++ "@novamail>\r\n" ++
    "Content-Type: text/plain; charset=utf-8\r\n" ++
    "\r\n" ++ text ++ "\r\n").toUTF8.toList

/-- The job of an alert mail. -/
def alertJob (id sender : String) (recipients : List String) : RelayJob :=
  { messageID := id, bodyRef := { backend := .pg, key := id },
    envelope := { mailFrom := sender, rcptTo := recipients },
    routingHints := { recipientDomain := firstDomain recipients, senderDomain := splitDomain sender } }

/-- `injectEmail`: true when it reports the mail as queued. -/
def injectEmail (recipients : List String) (subject text : String) : Handler Bool := do
  if recipients.isEmpty then pure false
  else do
    let id ← newID
    match ← ask .alertFrom with
    | none => pure false
    | some sender =>
      if sender = "" then pure false
      else if hasNewline sender || recipients.any hasNewline then pure false
      else do
        let date ← ask .now
        let body := alertBody id sender recipients subject text date
        if !(← write (.insertBody id body)) then pure false
        else if !(← write (.insertMessage id { mailFrom := sender, rcptTo := recipients }
            { backend := .pg, key := id } { subject := subject, sizeBytes := body.length }
            false)) then pure false
        else write (.publishRelayJob (alertJob id sender recipients))

/-! ## Feedback -/

/-- The body of a feedback request: an SNS notification, a plain list, or neither. -/
inductive Feedback where
  | complaint (addrs : List String)
  | bounce (bounceType : String) (addrs : List String)
  | addresses (addrs : List String) (reason : Option String)
  /-- Any other JSON. -/
  | other
  /-- A `Message` that is not JSON. -/
  | unparseable
  deriving DecidableEq, Repr

/-- The addresses and the reason the route reads off a body; none is the 400. -/
def Feedback.parse : Feedback → Option (List String × String)
  | .complaint addrs => some (addrs, "complaint")
  | .bounce _ addrs => some (addrs, "hard_bounce")
  | .addresses addrs reason => some (addrs, reason.getD "hard_bounce")
  | .other => some ([], "hard_bounce")
  | .unparseable => none

/-- The insert loop: a query that fails ends the request. -/
def suppressEach (provider reason : String) : List String → Handler Bool
  | [] => pure true
  | a :: rest => do
    if ← write (.addSuppression a reason provider none) then suppressEach provider reason rest
    else pure false

/-- `POST /api/feedback/:provider`: the HTTP status. -/
def feedback (provider : String) (body : Feedback) : Handler Nat := do
  match body.parse with
  | none => pure 400
  | some (addrs, reason) =>
    if !(← suppressEach provider reason addrs) then pure 500
    else if addrs.isEmpty then pure 200
    else if ← write .publishConfig then pure 200 else pure 500

end Novamail.Admin

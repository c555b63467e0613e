/-
  `gen.handle` of `cmd/dsn/main.go`: one delivery from the DLQ.

  The message is marked bounced and its recipients suppressed, whatever brought it here; then a
  bounce is stored, recorded and published under an id of its own, unless the message is itself a
  bounce or its sender asked for none.
-/
import Novamail.World.Calls

namespace Novamail.Dsn

open Novamail.Core

/-- `domainOf` (dsn). -/
def domainOf (addr : String) : String := addrDomain addr

/-- The lines of `buildDSN`, without their CRLF. -/
def dsnLines (host id sender : String) (rcpts : List String) (detail date : String) :
    List String :=
  let boundary := "novamail-dsn-" ++ id
  [ "From: MAILER-DAEMON@" ++ host
  , "To: " ++ sender
  , "Subject: Delivery Status Notification (Failure)"
  , "Date: " ++ date
  , "Message-Id: <dsn-" ++ id ++ "@" ++ host ++ ">"
  , "MIME-Version: 1.0"
  , "Auto-Submitted: auto-replied"
  , "Content-Type: multipart/report; report-type=delivery-status; boundary=\"" ++ boundary ++ "\""
  , ""
  , "--" ++ boundary
  , "Content-Type: text/plain; charset=utf-8"
  , ""
  , "This is the mail delivery system at " ++ host ++ "."
  , ""
  , "Your message could not be delivered to the following recipient(s):"
  , "" ]
  ++ rcpts.map (fun r => "  " ++ r)
  ++
  [ ""
  , "Diagnostic: " ++ detail
  , ""
  , "--" ++ boundary
  , "Content-Type: message/delivery-status"
  , ""
  , "Reporting-MTA: dns; " ++ host ]
  ++ rcpts.flatMap (fun r =>
    [ ""
    , "Final-Recipient: rfc822; " ++ r
    , "Action: failed"
    , "Status: 5.0.0"
    , "Diagnostic-Code: smtp; " ++ detail ])
  ++ [ "", "--" ++ boundary ++ "--" ]

/-- `buildDSN`; `date` is the current time. -/
def buildDSN (host id sender : String) (rcpts : List String) (detail date : String) : Bytes :=
  let detail := if detail = "" then "delivery to upstream provider failed" else detail
  (String.join ((dsnLines host id sender rcpts detail date).map (· ++ "\r\n"))).toUTF8.toList

/-- The loop that suppresses the recipients. -/
def suppressAll (detail : String) : List String → Handler Unit
  | [] => pure ()
  | r :: rs => do
    let _ ← write (.addSuppression r "hard_bounce" "dsn" (some detail))
    suppressAll detail rs

/-- The envelope of a bounce: null sender, to the original sender. -/
def dsnEnvelope (job : RelayJob) : Envelope :=
  { mailFrom := "", rcptTo := [job.envelope.mailFrom] }

/-- The job of a bounce. -/
def dsnJob (job : RelayJob) (dsnID : MsgId) : RelayJob :=
  { messageID := dsnID, bodyRef := { backend := .fs, key := dsnID }, envelope := dsnEnvelope job,
    routingHints := { recipientDomain := domainOf job.envelope.mailFrom } }

/-- The second half of `handle`: generate the bounce. -/
def bounce (host : String) (job : RelayJob) (detail : String) : Handler Unit := do
  let dsnID ← newID
  let date ← ask .now
  let body := buildDSN host dsnID job.envelope.mailFrom job.envelope.rcptTo detail date
  if !(← write (.put dsnID body)) then settle (.nack true)
  else if !(← write (.insertMessage dsnID (dsnEnvelope job) { backend := .fs, key := dsnID }
      { subject := "Delivery Status Notification (Failure)", sizeBytes := body.length } true)) then
    settle (.nack true)
  else if !(← write (.publish .work (dsnJob job dsnID))) then settle (.nack true)
  else do
    let _ ← write (.delete job.bodyRef.key)
    ask (.inc .bounced)
    settle .ack

/-- `handle` after the JSON was parsed; `host` is the `hostname` setting read at the start. -/
def handleJob (host : String) (job : RelayJob) : Handler Unit := do
  let detail ← ask (.lastDetail job.messageID)
  let _ ← write (.recordAttempt job.messageID .bounced .bounced "dsn" detail)
  if job.envelope.mailFrom ≠ "" then do
    suppressAll detail job.envelope.rcptTo
    let _ ← write .publishConfig
  if job.envelope.mailFrom = "" ∨ job.dsnSuppress then do
    ask (.inc .suppressed)
    let _ ← write (.delete job.bodyRef.key)
    settle .ack
  else bounce host job detail

/-- `handle`: a job that does not parse is dropped. -/
def handle (host : String) : Wire → Handler Unit
  | .garbage => settle (.reject false)
  | .job job => handleJob host job

end Novamail.Dsn

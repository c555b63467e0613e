/-
  `Send` of the three providers, as functions of what the network answers.

  One call of `Send` is one SMTP dialogue (for `direct`, one for each MX host tried).  The answers
  of the peer are an `Upstream` script; `classify` and `classifyDirect` turn the first error of the
  script into an outcome by its reply code alone, which is all the delivery worker gets to see.
  `SendReply.refused` is an observation on the side: the recipient, if any, whose own RCPT was
  answered 5xx.  No code reads it.
-/
import Novamail.Providers.Factory

namespace Novamail

/-- `providers.Outcome`. -/
inductive Outcome where
  | delivered | defer | fail
  deriving DecidableEq, Repr

/-- What `Send` returns: the `Result`, the error text if the error is not nil, and the recipient
    the peer refused with a 5xx reply to its RCPT. -/
structure SendReply where
  outcome : Outcome
  detail : String
  err : Option String := none
  refused : Option String := none
  deriving DecidableEq, Repr

/-- A provider reported the message as delivered: outcome `Delivered` and no error. -/
def SendReply.isDelivered (r : SendReply) : Bool := r.outcome = .delivered && r.err.isNone

/-- `providers.Message`. -/
structure Message where
  envelope : Envelope
  body : Bytes
  deriving DecidableEq, Repr

/-- An error of an SMTP dialogue: a reply code with its text, or a network error. -/
inductive NetErr where
  | reply (code : Nat) (text : String)
  | network (text : String)
  deriving DecidableEq, Repr

/-- `err.Error()`. -/
def NetErr.text : NetErr → String
  | .reply _ t => t
  | .network t => t

/-- The error is a permanent (5xx) reply. -/
def NetErr.permanent : NetErr → Bool
  | .reply c _ => 500 ≤ c
  | .network _ => false

/-- What one peer answers at each stage (none is success): connection, TLS and AUTH; MAIL FROM;
    each RCPT TO; DATA. -/
structure Upstream where
  acquire : Option NetErr := none
  mail : Option NetErr := none
  rcpt : String → Option NetErr := fun _ => none
  data : Option NetErr := none

/-- `classify` and `classifyDirect`: 5xx is `Fail`, 4xx and network errors are `Defer`. -/
def classify (e : NetErr) : SendReply :=
  { outcome := if e.permanent then .fail else .defer, detail := e.text, err := some e.text }

/-- The first recipient whose RCPT fails, with its error. -/
def firstRefused (u : Upstream) : List String → Option (String × NetErr)
  | [] => none
  | r :: rs =>
    match u.rcpt r with
    | some e => some (r, e)
    | none => firstRefused u rs

/-- `SendMail`: MAIL, every RCPT in order, DATA, stopping at the first error. -/
def sendMail (u : Upstream) (env : Envelope) : Option SendReply :=
  match u.mail with
  | some e => some (classify e)
  | none =>
    match firstRefused u env.rcptTo with
    | some (r, e) =>
      some { classify e with refused := if e.permanent then some r else none }
    | none => u.data.map classify

/-- `SMTPProvider.Send`. -/
def smtpSend (cfg : SMTPConfig) (u : Upstream) (m : Message) : SendReply :=
  if cfg.username ≠ "" ∧ cfg.tlsMode = .none then
    { outcome := .fail, detail := "refusing PLAIN auth over a non-TLS connection"
      err := some "PLAIN auth requires TLS (starttls/implicit)" }
  else
    match u.acquire with
    | some e => classify e
    | none =>
      match sendMail u m.envelope with
      | some r => r
      | none => { outcome := .delivered, detail := "250 ok" }

/-- `GmailProvider.Send`; `token` is the error of the access-token refresh, if it failed, and
    `dial` that of the connection. -/
def gmailSend (token dial : Option String) (u : Upstream) (m : Message) : SendReply :=
  match token, dial with
  | some e, _ => { outcome := .defer, detail := e, err := some e }
  | none, some e => { outcome := .defer, detail := e, err := some e }
  | none, none =>
    match u.acquire with
    | some e => classify e
    | none =>
      match sendMail u m.envelope with
      | some r => r
      | none => { outcome := .delivered, detail := "250 ok" }

/-! ## Direct-to-MX -/

/-- `recipientDomain` (direct): the domain of the first recipient that has one. -/
def recipientDomain : List String → String
  | [] => ""
  | r :: rs =>
    match afterLast '@' r.toList with
    | some (c :: t) => lower (String.ofList (c :: t))
    | _ => recipientDomain rs

/-- One record of an MX answer. -/
structure MX where
  host : String
  pref : Nat
  deriving DecidableEq, Repr

/-- `strings.TrimSuffix(s, ".")`. -/
def trimDot (s : String) : String :=
  match s.toList.reverse with
  | '.' :: t => String.ofList t.reverse
  | _ => s

/-- `lookupMX`: the hosts in preference order; none is a lookup error.  Without a record, and on
    any error, the domain itself. -/
def lookupMX (answer : Option (List MX)) (domain : String) : List String :=
  match answer with
  | none => [domain]
  | some [] => [domain]
  | some mxs => (mxs.mergeSort fun a b => a.pref ≤ b.pref).map fun mx => trimDot mx.host

/-- `deliverTo`: one host.  `starttls` is the error of an offered but failed STARTTLS, which is
    always a deferral. -/
def deliverTo (starttls : Option String) (u : Upstream) (m : Message) : SendReply :=
  match u.acquire with
  | some e => classify e
  | none =>
    match starttls with
    | some e => { outcome := .defer, detail := "STARTTLS failed: " ++ e, err := some e }
    | none =>
      match sendMail u m.envelope with
      | some r => r
      | none => { outcome := .delivered, detail := "250 ok (direct)" }

/-- The loop of `DirectProvider.Send` over the hosts: the reply, and the hosts dialled. -/
def directLoop (host : String → SendReply) : List String → SendReply → SendReply × List String
  | [], last =>
    (if last.detail = "" then
      { outcome := .defer, detail := "no MX host reachable", err := last.err } else last, [])
  | h :: hs, _ =>
    match (host h).outcome with
    | .delivered => ({ host h with err := none }, [h])
    | .fail => (host h, [h])
    | .defer => let r := directLoop host hs (host h); (r.1, h :: r.2)

/-- `DirectProvider.Send`: the reply, and the hosts dialled.  `mx` is the resolver, `host` what an
    attempt at a host returns. -/
def directSend (mx : String → Option (List MX)) (host : String → SendReply) (m : Message) :
    SendReply × List String :=
  let domain := recipientDomain m.envelope.rcptTo
  if domain = "" then
    ({ outcome := .fail, detail := "no recipient domain"
       err := some "direct: empty recipient domain" }, [])
  else directLoop host (lookupMX (mx domain) domain) { outcome := .delivered, detail := "" }

/-- The replies a built-in provider can give to a message: those of its `Send` on some network. -/
def Provider.sends : Provider → Message → SendReply → Prop
  | .smtp cfg, m, r => ∃ u, r = smtpSend cfg u m
  | .gmail _, m, r => ∃ token dial u, r = gmailSend token dial u m
  | .direct _, m, r =>
    ∃ (mx : String → Option (List MX)) (starttls : String → Option String)
      (u : String → Upstream), r = (directSend mx (fun h => deliverTo (starttls h) (u h) m) m).1

end Novamail

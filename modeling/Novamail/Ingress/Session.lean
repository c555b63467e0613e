/-
  `cmd/ingress/backend.go`: the commands of one SMTP session, and `Data`.

  The commands before DATA only read the policy snapshot and change the session, so they are
  functions: each returns its error, if any, and the session it leaves.  `Data` talks to the body
  store, the database and the bus, and is a handler.
-/
import Novamail.World.Calls

namespace Novamail.Ingress

open Novamail.Core

/-- `model.Account`. -/
structure Account where
  id : String
  username : String
  allowedSenderDomains : List String
  ipAllowlist : List String
  deriving DecidableEq, Repr

/-- `session`; `sender` is the field `from`. -/
structure Session where
  ip : Option IP := none
  auth : Option Account := none
  client : Option TrustedClient := none
  sender : String := ""
  rcpts : List String := []
  dsnReturn : String := ""
  rcptN : Nat := 0
  neverN : Nat := 0
  deriving DecidableEq, Repr

/-- `NewSession`: a trusted source IP relays without AUTH. -/
def newSession (policy : Option InboundPolicy) (ip : Option IP) : Session :=
  { ip := ip, client := policy.bind fun p => p.matchClient ip }

/-- The callback of `Auth`, given what `Authenticate` returned: false is `ErrAuthFailed`. -/
def auth (P : Platform) (s : Session) : Option Account → Bool × Session
  | none => (false, s)
  | some acc =>
    if !acc.ipAllowlist.isEmpty && !ipInAny P s.ip acc.ipAllowlist then (false, s)
    else (true, { s with auth := some acc })

/-- `allowedSenders`; nil is the empty list. -/
def Session.allowedSenders (s : Session) : List String :=
  match s.auth, s.client with
  | some a, _ => a.allowedSenderDomains
  | none, some c => c.senders
  | none, none => []

/-- 530: neither AUTH nor a trusted IP. -/
def errAuthRequired : SMTPError :=
  ⟨530, (5, 7, 0), "Authentication required (or relay from a trusted IP)"⟩
/-- 550: the sender domain is not the client's. -/
def errSenderNotPermitted : SMTPError := ⟨550, (5, 7, 1), "Sender domain not permitted for this client"⟩
/-- 550: the sender domain does not pass the relay-domain gate. -/
def errNotRelayDomain : SMTPError := ⟨550, (5, 7, 1), "Sender domain is not a permitted relay domain"⟩
/-- 451: the bucket of the client is empty. -/
def errRateLimit : SMTPError := ⟨451, (4, 7, 0), "Rate limit exceeded; try again later"⟩
/-- 550: the recipient is suppressed. -/
def errSuppressed : SMTPError := ⟨550, (5, 1, 1), "Recipient is on the suppression list"⟩
/-- 552: the message is too long. -/
def errTooLarge : SMTPError := ⟨552, (5, 3, 4), "Message exceeds maximum permitted size"⟩

/-- The key `Mail` charges: the account, else the source address, else `"*"`. -/
def Session.rateKey (P : Platform) (s : Session) : String :=
  match s.auth, s.ip with
  | some a, _ => "acct:" ++ a.id
  | none, some ip => "ip:" ++ P.ipString ip
  | none, none => "*"

/-- The token buckets as `Mail` meets them: how long a reservation in the bucket kept under a name
    would have to wait. -/
abbrev Delays := String → Bucket → Nat

/-- The part of `Mail` that depends on the policy: the relay-domain gate and the rate limit. -/
def policyCheck (P : Platform) (delays : Delays) (s : Session) (domain : String)
    (p : InboundPolicy) : Option SMTPError :=
  if !p.relayDomainOK domain then some errNotRelayDomain
  else
    match p.limiter.bucket (s.rateKey P) with
    | none => none
    | some (name, b) => if 0 < delays name b then some errRateLimit else none

/-- The checks of `Mail`, in order. -/
def mailCheck (P : Platform) (policy : Option InboundPolicy) (delays : Delays) (s : Session)
    (sender : String) : Option SMTPError :=
  if s.auth.isNone && s.client.isNone then some errAuthRequired
  else if !sendersAllow s.allowedSenders (domainOf [sender]) then some errSenderNotPermitted
  else
    match policy with
    | none => none
    | some p => policyCheck P delays s (domainOf [sender]) p

/-! ### The calls of `Mail` -/

/-- `policyCheck` as the calls it makes: a token is asked for, and given back when it would have to
    be waited for. -/
def policyCalls (P : Platform) (s : Session) (domain : String) (p : InboundPolicy) :
    Handler (Option SMTPError) :=
  if !p.relayDomainOK domain then pure (some errNotRelayDomain)
  else do
    match ← ask (.reserve .inbound p.limiter (s.rateKey P)) with
    | none => pure none
    | some delay =>
      if 0 < delay then do
        ask .cancel
        pure (some errRateLimit)
      else pure none

/-- `mailCheck` as the calls it makes. -/
def mailCalls (P : Platform) (s : Session) (sender : String) : Handler (Option SMTPError) :=
  if s.auth.isNone && s.client.isNone then pure (some errAuthRequired)
  else if !sendersAllow s.allowedSenders (domainOf [sender]) then pure (some errSenderNotPermitted)
  else do
    match ← ask .loadPolicy with
    | none => pure none
    | some p => policyCalls P s (domainOf [sender]) p

section
variable {P : Platform} {delays : Delays} {ans : (o : Op) → o.Ret}

theorem policyCalls_eval (hdelays : ∀ g l key, ans (.ask (.reserve g l key)) =
      (l.bucket key).map fun b => delays b.1 b.2) (s : Session) (domain : String)
    (p : InboundPolicy) :
    (policyCalls P s domain p).eval ans = policyCheck P delays s domain p := by
  unfold policyCalls policyCheck
  by_cases hdomain : (!p.relayDomainOK domain) = true
  · rw [if_pos hdomain, if_pos hdomain]
    rfl
  rw [if_neg hdomain, if_neg hdomain]
  simp only [ask, Prog.lift_bind, Prog.eval_call, hdelays]
  cases p.limiter.bucket (s.rateKey P) with
  | none => rfl
  | some b =>
    dsimp only [Option.map_some]
    by_cases hdelay : 0 < delays b.1 b.2
    · rw [if_pos hdelay, if_pos hdelay]
      rfl
    · rw [if_neg hdelay, if_neg hdelay]
      rfl

/-- **The calls come to the checks.** -/
theorem mailCalls_eval {policy : Option InboundPolicy} (hpolicy : ans (.ask .loadPolicy) = policy)
    (hdelays : ∀ g l key, ans (.ask (.reserve g l key)) =
      (l.bucket key).map fun b => delays b.1 b.2) (s : Session) (sender : String) :
    (mailCalls P s sender).eval ans = mailCheck P policy delays s sender := by
  unfold mailCalls mailCheck
  by_cases hauth : (s.auth.isNone && s.client.isNone) = true
  · rw [if_pos hauth, if_pos hauth]
    rfl
  rw [if_neg hauth, if_neg hauth]
  by_cases hsender : (!sendersAllow s.allowedSenders (domainOf [sender])) = true
  · rw [if_pos hsender, if_pos hsender]
    rfl
  rw [if_neg hsender, if_neg hsender]
  simp only [ask, Prog.lift_bind, Prog.eval_call, hpolicy]
  cases policy with
  | none => rfl
  | some p => exact policyCalls_eval hdelays s _ p

end

/-- `Mail`; `ret` is `opts.Return` when there are options.  The DSN parameter is stored before the
    checks, the sender only after them. -/
def mail (P : Platform) (policy : Option InboundPolicy) (delays : Delays) (s : Session)
    (sender : String) (ret : Option String) : Option SMTPError × Session :=
  let s := { s with dsnReturn := ret.getD s.dsnReturn }
  match mailCheck P policy delays s sender with
  | some e => (some e, s)
  | none => (none, { s with sender := sender })

/-- `smtp.DSNNotify`. -/
inductive Notify where
  | never | delayed | failure | success
  deriving DecidableEq, Repr

/-- `Rcpt`; `notify` is `opts.Notify`, empty without options. -/
def rcpt (policy : Option InboundPolicy) (s : Session) (addr : String) (notify : List Notify) :
    Option SMTPError × Session :=
  if policy.any fun p => p.suppressed.contains (lower addr) then (some errSuppressed, s)
  else
    (none,
      { s with
        rcpts := s.rcpts ++ [addr]
        rcptN := s.rcptN + 1
        neverN := s.neverN + notify.count .never })

/-- `Reset`. -/
def Session.reset (s : Session) : Session :=
  { s with sender := "", rcpts := [], dsnReturn := "", rcptN := 0, neverN := 0 }

/-! ## DATA -/

/-- The error of `Data`. -/
inductive DataError where
  | smtp (e : SMTPError)
  /-- The error of `Put`, `InsertMessage` or `Publish`. -/
  | call
  deriving DecidableEq, Repr

/-- The limit of the capture buffer. -/
def captureLimit : Nat := 65536

/-- The metadata recorded with a message. -/
def metaOf (P : Platform) (body : Bytes) : MessageMeta :=
  { subject := (P.mimeHeader (body.take captureLimit)).1
    messageID := (P.mimeHeader (body.take captureLimit)).2
    sizeBytes := body.length }

/-- The job `Data` publishes. -/
def relayJob (s : Session) (id : MsgId) : RelayJob :=
  { messageID := id, bodyRef := { backend := .fs, key := id },
    envelope := { mailFrom := s.sender, rcptTo := s.rcpts },
    routingHints := { recipientDomain := domainOf s.rcpts, senderDomain := domainOf [s.sender] },
    dsnReturn := s.dsnReturn, dsnSuppress := decide (0 < s.rcptN ∧ s.neverN = s.rcptN) }

/-- The policy caps the size, and the message is longer. -/
def tooLarge (policy : Option InboundPolicy) (body : Bytes) : Bool :=
  policy.any fun p => 0 < p.maxMessageBytes && p.maxMessageBytes < (body.length : Int)

/-- `Data`: body, row, job, in this order; none is a nil error. -/
def data (P : Platform) (s : Session) (body : Bytes) : Handler (Option DataError) := do
  let id ← newID
  if !(← write (.put id body)) then do
    ask (.inc .rejected)
    pure (some .call)
  else if tooLarge (← ask .loadPolicy) body then do
    let _ ← write (.delete id)
    ask (.inc .rejected)
    pure (some (.smtp errTooLarge))
  else if !(← write (.insertMessage id { mailFrom := s.sender, rcptTo := s.rcpts }
      { backend := .fs, key := id } (metaOf P body) true)) then do
    ask (.inc .rejected)
    pure (some .call)
  else if !(← write (.publish .work (relayJob s id))) then do
    -- body and metadata are durable; the client is asked to retry
    ask (.inc .rejected)
    pure (some .call)
  else do
    ask (.inc .accepted)
    pure none

end Novamail.Ingress

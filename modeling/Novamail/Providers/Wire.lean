/-
  The connections behind `Send`: `smtp.go`, `gmail.go` and `direct.go`, call by call.

  `Novamail.Providers.Send` says what a send answers; here is what it does to sockets.  The methods
  of a provider are programs over `WireOp`: open a connection, start TLS, an SMTP command, take a
  warm connection from the pool of the instance or put one back.  The delivery worker runs any
  number of them at once, over connections that outlive the instance they were opened for.

  The loop of `acquire` may meet any number of stale connections; it has a fuel, and a program that
  uses it up ends without a result, holding no connection.
-/
import Mathlib.Data.Finset.Lattice.Lemmas
import Novamail.Core.Pool
import Novamail.Providers.Send

namespace Novamail.Wire

open Novamail.Core

/-! ## Calls -/

/-- A provider instance: which one it is, and its configuration. -/
structure Ref where
  id : Nat
  provider : Provider
  deriving DecidableEq, Repr

/-- `tls.Config`. -/
structure TLSConfig where
  serverName : String
  insecureSkipVerify : Bool
  minVersion : Nat
  deriving DecidableEq, Repr

/-- The versions a handshake under this configuration may agree on. -/
def TLSConfig.Allows (cfg : TLSConfig) (version : Nat) : Prop := cfg.minVersion ≤ version

/-- What a `sasl.Client` presents. -/
inductive Auth where
  | plain (username password : String)
  | xoauth2 (user token : String)
  deriving DecidableEq, Repr

/-- A command on an open connection. -/
inductive Verb where
  /-- The greeting of the peer, which `smtp.NewClient` of the standard library waits for. -/
  | greeting
  | hello (name : String)
  /-- STARTTLS, and the handshake behind it. -/
  | startTLS (cfg : TLSConfig)
  | auth (a : Auth)
  | noop
  | mail (sender : String)
  | rcpt (recipient : String)
  | data (body : Bytes)
  | reset
  | quit
  deriving DecidableEq, Repr

/-- The command carries a part of a message. -/
def Verb.carries : Verb → Bool
  | .mail _ | .rcpt _ | .data _ => true
  | .greeting | .hello _ | .startTLS _ | .auth _ | .noop | .reset | .quit => false

/-- What an instance calls. -/
inductive Cmd where
  /-- TCP, with TLS from the first byte on if a configuration is given. -/
  | dial (addr : String) (tls : Option TLSConfig)
  /-- A command on a connection; none is success. -/
  | run (c : Nat) (v : Verb)
  /-- Whether the peer offers the extension. -/
  | extension (c : Nat) (name : String)
  | close (c : Nat)
  /-- The last connection of `p.idle`, under the mutex. -/
  | takeIdle
  /-- Back to `p.idle`, under the mutex; false when the pool is full or shut down. -/
  | giveIdle (c bound : Nat)
  /-- Shut the pool down and take what is in it, under the mutex. -/
  | drain
  /-- The access token of Gmail that is still good, if there is one. -/
  | token
  /-- A refreshed one, or the error. -/
  | refresh (url clientID clientSecret refreshToken : String)
  /-- `LookupMX`; none is an error. -/
  | lookupMX (domain : String)
  /-- The rate limit of the provider. -/
  | reserve
  deriving DecidableEq, Repr

/-- What comes of a provider's rate limit: send, skip the provider, or the deadline has passed. -/
inductive Pace where
  | go | skip | stop
  deriving DecidableEq, Repr

/-- A call by an instance. -/
structure WireOp where
  ref : Ref
  cmd : Cmd
  deriving DecidableEq, Repr

/-- What a call answers. -/
@[reducible] def WireOp.Ret : WireOp → Type
  | ⟨_, .dial _ _⟩ => Except String Nat
  | ⟨_, .run _ _⟩ => Option NetErr
  | ⟨_, .extension _ _⟩ => Bool
  | ⟨_, .close _⟩ => Unit
  | ⟨_, .takeIdle⟩ => Option Nat
  | ⟨_, .giveIdle _ _⟩ => Bool
  | ⟨_, .drain⟩ => List Nat
  | ⟨_, .token⟩ => Option String
  | ⟨_, .refresh _ _ _ _⟩ => Except String String
  | ⟨_, .lookupMX _⟩ => Option (List MX)
  | ⟨_, .reserve⟩ => Pace

/-- A program of an instance. -/
abbrev Wired (α : Type) := Prog WireOp.Ret α

section
variable (p : Ref)

def dial (addr : String) (tls : Option TLSConfig) : Wired (Except String Nat) :=
  Prog.lift (WireOp.mk p (.dial addr tls))
def run (c : Nat) (v : Verb) : Wired (Option NetErr) := Prog.lift (WireOp.mk p (.run c v))
def extension (c : Nat) (name : String) : Wired Bool := Prog.lift (WireOp.mk p (.extension c name))
def close (c : Nat) : Wired Unit := Prog.lift (WireOp.mk p (.close c))
def takeIdle : Wired (Option Nat) := Prog.lift (WireOp.mk p (.takeIdle))
def giveIdle (c bound : Nat) : Wired Bool := Prog.lift (WireOp.mk p (.giveIdle c bound))
def drain : Wired (List Nat) := Prog.lift (WireOp.mk p (.drain))
def token : Wired (Option String) := Prog.lift (WireOp.mk p (.token))
def refresh (url clientID clientSecret refreshToken : String) : Wired (Except String String) :=
  Prog.lift (WireOp.mk p (.refresh url clientID clientSecret refreshToken))
def askMX (domain : String) : Wired (Option (List MX)) := Prog.lift (WireOp.mk p (.lookupMX domain))
def reserve : Wired Pace := Prog.lift (WireOp.mk p (.reserve))

end

/-! ## Both SMTP clients -/

/-- Every RCPT in order, stopping at the first that fails. -/
def rcpts (p : Ref) (c : Nat) : List String → Wired (Option SendReply)
  | [] => pure none
  | r :: rs => do
    match ← run p c (.rcpt r) with
    | some e => pure (some { classify e with refused := if e.permanent then some r else none })
    | none => rcpts p c rs

/-- `SendMail`: MAIL, every RCPT, DATA; the reply of the first that fails. -/
def sendMail (p : Ref) (c : Nat) (m : Message) : Wired (Option SendReply) := do
  match ← run p c (.mail m.envelope.mailFrom) with
  | some e => pure (some (classify e))
  | none =>
    match ← rcpts p c m.envelope.rcptTo with
    | some r => pure (some r)
    | none => do
      let e ← run p c (.data m.body)
      pure (e.map classify)

/-- `hostOnly`: the host of `net.SplitHostPort`, or the whole text where that is an error. -/
def hostOnly (addr : String) : String :=
  let cs := addr.toList
  match afterLast ':' cs with
  | none => addr
  | some port =>
    let host := cs.take (cs.length - port.length - 1)
    let bracketed := host.head? = some '[' ∧ host.getLast? = some ']'
    let inner := if bracketed then host.tail.dropLast else host
    if (inner ++ port).any fun ch => ch = '[' || ch = ']' then addr
    else if ¬ bracketed ∧ ':' ∈ host then addr
    else String.ofList inner

/-- The minimum version that a configured one stands for: 0 is TLS 1.2. -/
def minVer (configured : Nat) : Nat := if configured = 0 then tls12 else configured

/-! ## `smtp.go` -/

/-- `maxIdle`; `defaultMaxIdle` is `DefaultMaxIdleConns`, which `main` sets before anything. -/
def maxIdle (defaultMaxIdle : Nat) (cfg : SMTPConfig) : Nat :=
  if cfg.maxIdleConns > 0 then cfg.maxIdleConns else defaultMaxIdle

/-- `dialConn`. -/
def dialConn (p : Ref) (cfg : SMTPConfig) : Wired (Except NetErr Nat) := do
  let tlsCfg : TLSConfig := ⟨hostOnly cfg.addr, cfg.insecure, minVer cfg.minTLSVersion⟩
  match ← dial p cfg.addr (if cfg.tlsMode = .implicit then some tlsCfg else none) with
  | .error e => pure (.error (.network e))
  | .ok c =>
    if cfg.tlsMode = .starttls then
      match ← run p c (.startTLS tlsCfg) with
      | some e => do
        close p c
        pure (.error e)
      | none => pure (.ok c)
    else pure (.ok c)

/-- `greet`. -/
def greet (p : Ref) (cfg : SMTPConfig) (c : Nat) : Wired (Option NetErr) := do
  let hello := if cfg.helo ≠ "" then run p c (.hello cfg.helo) else pure none
  match ← hello with
  | some e => pure (some e)
  | none =>
    if cfg.username ≠ "" then run p c (.auth (.plain cfg.username cfg.password)) else pure none

/-- The end of `acquire`: a connection that is dialled and greeted. -/
def dialReady (p : Ref) (cfg : SMTPConfig) : Wired (Except NetErr Nat) := do
  match ← dialConn p cfg with
  | .error e => pure (.error e)
  | .ok c =>
    match ← greet p cfg c with
    | some e => do
      close p c
      pure (.error e)
    | none => pure (.ok c)

/-- `acquire`; none when the fuel is used up. -/
def acquire (p : Ref) (cfg : SMTPConfig) : Nat → Wired (Option (Except NetErr Nat))
  | 0 => pure none
  | fuel + 1 => do
    match ← takeIdle p with
    | none => some <$> dialReady p cfg
    | some c =>
      match ← run p c .noop with
      | none => pure (some (.ok c))
      | some _ => do
        close p c
        acquire p cfg fuel

/-- `release`. -/
def release (p : Ref) (bound c : Nat) : Wired Unit := do
  if ← giveIdle p c bound then pure () else close p c

/-- `SMTPProvider.Send`; none when the fuel is used up. -/
def smtpSend (defaultMaxIdle fuel : Nat) (p : Ref) (cfg : SMTPConfig) (m : Message) :
    Wired (Option SendReply) :=
  if cfg.username ≠ "" ∧ cfg.tlsMode = .none then
    pure (some
      { outcome := .fail, detail := "refusing PLAIN auth over a non-TLS connection"
        err := some "PLAIN auth requires TLS (starttls/implicit)" })
  else do
    match ← acquire p cfg fuel with
    | none => pure none
    | some (.error e) => pure (some (classify e))
    | some (.ok c) =>
      match ← sendMail p c m with
      | some r => do
        close p c
        pure (some r)
      | none => do
        match ← run p c .reset with
        | some _ => close p c
        | none => release p (maxIdle defaultMaxIdle cfg) c
        pure (some { outcome := .delivered, detail := "250 ok" })

/-- `SMTPProvider.Verify`: the error text, none when the provider is all right. -/
def verify (p : Ref) (cfg : SMTPConfig) : Wired (Option String) :=
  if cfg.username ≠ "" ∧ cfg.tlsMode = .none then
    pure (some "refusing PLAIN auth over a non-TLS connection")
  else do
    match ← dialConn p cfg with
    | .error e => pure (some e.text)
    | .ok c => do
      let e ← greet p cfg c
      close p c
      pure (e.map NetErr.text)

/-- Close each of them. -/
def closeAll (p : Ref) : List Nat → Wired Unit
  | [] => pure ()
  | c :: cs => do
    close p c
    closeAll p cs

/-- `SMTPProvider.Close`. -/
def closePool (p : Ref) : Wired Unit := do
  closeAll p (← drain p)

/-! ## `gmail.go` -/

/-- `accessToken`. -/
def accessToken (p : Ref) (cfg : GmailConfig) : Wired (Except String String) := do
  match ← token p with
  | some t => pure (.ok t)
  | none => refresh p cfg.tokenURL cfg.clientID cfg.clientSecret cfg.refreshToken

/-- `GmailProvider.Send`. -/
def gmailSend (p : Ref) (cfg : GmailConfig) (m : Message) : Wired SendReply := do
  match ← accessToken p cfg with
  | .error e => pure { outcome := .defer, detail := e, err := some e }
  | .ok tok =>
    match ← dial p cfg.addr none with
    | .error e => pure { outcome := .defer, detail := e, err := some e }
    | .ok c =>
      match ← run p c (.startTLS ⟨hostOnly cfg.addr, false, tls12⟩) with
      | some e => do
        close p c
        pure { outcome := .defer, detail := e.text, err := some e.text }
      | none =>
        match ← run p c (.auth (.xoauth2 cfg.user tok)) with
        | some e => do
          close p c
          pure (classify e)
        | none => do
          let r ← sendMail p c m
          close p c
          pure (r.getD { outcome := .delivered, detail := "250 ok" })

/-! ## `direct.go` -/

/-- `net.JoinHostPort(host, "25")`. -/
def mxAddr (host : String) : String :=
  if ':' ∈ host.toList then "[" ++ host ++ "]:25" else host ++ ":25"

/-- `deliverTo` from MAIL on. -/
def transact (p : Ref) (c : Nat) (m : Message) : Wired SendReply := do
  match ← sendMail p c m with
  | some r => do
    close p c
    pure r
  | none => do
    let _ ← run p c .quit
    close p c
    pure { outcome := .delivered, detail := "250 ok (direct)" }

/-- `deliverTo`; `directHELO` is `DirectHELO`. -/
def deliverTo (directHELO : String) (p : Ref) (cfg : DirectConfig) (m : Message) (host : String) :
    Wired SendReply := do
  match ← dial p (mxAddr host) none with
  | .error e => pure (classify (.network e))
  | .ok c =>
    match ← run p c .greeting with
    | some e => do
      close p c
      pure (classify e)
    | none =>
      match ← run p c (.hello (if cfg.helo ≠ "" then cfg.helo else directHELO)) with
      | some e => do
        close p c
        pure (classify e)
      | none =>
        if ← extension p c "STARTTLS" then
          match ← run p c (.startTLS ⟨host, true, minVer cfg.minTLSVersion⟩) with
          | some e => do
            close p c
            pure { outcome := .defer, detail := "STARTTLS failed: " ++ e.text, err := some e.text }
          | none => transact p c m
        else transact p c m

/-- The loop of `DirectProvider.Send`. -/
def directLoop (directHELO : String) (p : Ref) (cfg : DirectConfig) (m : Message) :
    List String → SendReply → Wired SendReply
  | [], last =>
    pure (if last.detail = "" then
      { outcome := .defer, detail := "no MX host reachable", err := last.err } else last)
  | h :: hs, _ => do
    let r ← deliverTo directHELO p cfg m h
    match r.outcome with
    | .delivered => pure { r with err := none }
    | .fail => pure r
    | .defer => directLoop directHELO p cfg m hs r

/-- `DirectProvider.Send`. -/
def directSend (directHELO : String) (p : Ref) (cfg : DirectConfig) (m : Message) :
    Wired SendReply :=
  let domain := recipientDomain m.envelope.rcptTo
  if domain = "" then
    pure
      { outcome := .fail, detail := "no recipient domain"
        err := some "direct: empty recipient domain" }
  else do
    let mxs ← askMX p domain
    directLoop directHELO p cfg m (lookupMX mxs domain) { outcome := .delivered, detail := "" }

/-! ## The delivery worker -/

/-- The package variables of `providers`. -/
structure Env where
  defaultMaxIdle : Nat
  directHELO : String
  deriving DecidableEq, Repr

/-- `Provider.Send`; none when the fuel is used up. -/
def send (E : Env) (fuel : Nat) (p : Ref) (m : Message) : Wired (Option SendReply) :=
  match p.provider with
  | .smtp cfg => smtpSend E.defaultMaxIdle fuel p cfg m
  | .gmail cfg => some <$> gmailSend p cfg m
  | .direct cfg => some <$> directSend E.directHELO p cfg m

/-- The loop of `handle` over its chain: the next provider until one has delivered. -/
def relay (E : Env) (fuel : Nat) (m : Message) : List Ref → Wired Unit
  | [] => pure ()
  | p :: ps => do
    match ← reserve p with
    | .stop => pure ()
    | .skip => relay E fuel m ps
    | .go =>
      match ← send E fuel p m with
      | none => pure ()
      | some r => if r.isDelivered then pure () else relay E fuel m ps

/-- What runs: a handler that has resolved its chain, a request to `/test/`, and `Close`. -/
inductive Task where
  | relay (chain : List Ref) (m : Message) (fuel : Nat)
  | verify (p : Ref)
  | close (p : Ref)
  deriving DecidableEq, Repr

/-- The program of a task.  Only an SMTP provider has something to verify or to close. -/
def Task.body (E : Env) : Task → Wired Unit
  | .relay chain m fuel => Wire.relay E fuel m chain
  | .verify p =>
    match p.provider with
    | .smtp cfg => (fun _ => ()) <$> Wire.verify p cfg
    | .gmail _ | .direct _ => pure ()
  | .close p =>
    match p.provider with
    | .smtp _ => closePool p
    | .gmail _ | .direct _ => pure ()

/-! ## The sockets -/

/-- A connection: whether it is under TLS, whether the peer said it offers no STARTTLS, and whether
    the worker has it open. -/
structure Conn where
  tls : Bool
  bare : Bool := false
  isOpen : Bool := true
  deriving DecidableEq, Repr

/-- The connections, the pools, and the instances: those that ever were, and those of the current
    `routeState`. -/
structure Net where
  conns : Nat → Option Conn := fun _ => none
  idle : Ref → List Nat := fun _ => []
  closed : Ref → Bool := fun _ => false
  built : Finset Ref := ∅
  current : Finset Ref := ∅

/-- The worker has the connection open. -/
def Net.Open (s : Net) (c : Nat) : Prop := ∃ conn, s.conns c = some conn ∧ conn.isOpen = true

/-- The connection is under TLS. -/
def Net.TLS (s : Net) (c : Nat) : Prop := ∃ conn, s.conns c = some conn ∧ conn.tls = true

/-- The peer was asked and does not offer STARTTLS. -/
def Net.Bare (s : Net) (c : Nat) : Prop := ∃ conn, s.conns c = some conn ∧ conn.bare = true

/-- A change to one connection. -/
def Net.alter (s : Net) (c : Nat) (f : Conn → Conn) : Net :=
  { s with conns := Function.update s.conns c ((s.conns c).map f) }

/-- What a call may answer. -/
def WireOp.Answers (s : Net) : (o : WireOp) → o.Ret → Prop
  | ⟨_, .dial _ _⟩, .ok c => s.conns c = none
  | ⟨p, .takeIdle⟩, r => r = (s.idle p).getLast?
  | ⟨p, .giveIdle _ bound⟩, r => r = !(s.closed p || bound ≤ (s.idle p).length)
  | ⟨p, .drain⟩, r => r = s.idle p
  | _, _ => True

/-- What a call leaves behind. -/
def WireOp.after (s : Net) : (o : WireOp) → o.Ret → Net
  | ⟨_, .dial _ tls⟩, .ok c =>
    { s with conns := Function.update s.conns c (some { tls := tls.isSome }) }
  | ⟨_, .run c (.startTLS _)⟩, none => s.alter c fun conn => { conn with tls := true }
  | ⟨_, .extension c name⟩, false =>
    if name = "STARTTLS" then s.alter c fun conn => { conn with bare := true } else s
  | ⟨_, .close c⟩, _ => s.alter c fun conn => { conn with isOpen := false }
  | ⟨p, .takeIdle⟩, _ => { s with idle := Function.update s.idle p (s.idle p).dropLast }
  | ⟨p, .giveIdle c _⟩, true => { s with idle := Function.update s.idle p (s.idle p ++ [c]) }
  | ⟨p, .drain⟩, _ =>
    { s with
      idle := Function.update s.idle p []
      closed := Function.update s.closed p true }
  | _, _ => s

/-- `w.state.Store(buildState(…))`: instances of its own in place of those before. -/
inductive Net.Reload (s : Net) (fresh : Finset Ref) : Net → Prop where
  | swap (hnew : ∀ p ∈ fresh, p ∉ s.built) :
      Net.Reload s fresh { s with current := fresh, built := s.built ∪ fresh }

/-! ## What a program holds -/

/-- When the messages of a provider go over TLS: always, when the peer offers it, never. -/
inductive Cover where
  | always | offered | never
  deriving DecidableEq, Repr

/-- A connection in this state may carry messages. -/
def Cover.Met : Cover → (tls bare : Bool) → Prop
  | .always, tls, _ => tls = true
  | .offered, tls, bare => tls = true ∨ bare = true
  | .never, _, _ => True

end Novamail.Wire

namespace Novamail

open Wire

/-- When the messages of the provider go over TLS. -/
def Provider.cover : Provider → Cover
  | .smtp cfg => if cfg.tlsMode = .none then .never else .always
  | .gmail _ => .always
  | .direct _ => .offered

/-- The least version in the handshakes of the provider. -/
def Provider.floor : Provider → Nat
  | .smtp cfg => minVer cfg.minTLSVersion
  | .gmail _ => tls12
  | .direct cfg => minVer cfg.minTLSVersion

/-- How many connections the provider keeps warm; only an SMTP provider has a pool. -/
def Provider.bound (E : Env) : Provider → Nat
  | .smtp cfg => maxIdle E.defaultMaxIdle cfg
  | .gmail _ | .direct _ => 0

end Novamail

namespace Novamail.Wire

open Novamail.Core

/-- A connection that a program has in hand: of which instance, and what it has learnt of it. -/
structure Held where
  ref : Ref
  conn : Nat
  tls : Bool
  bare : Bool
  deriving DecidableEq, Repr

/-- A command fits the provider and what is known of the connection. -/
def Verb.Fits (q : Provider) (tls bare : Bool) : Verb → Prop
  | .startTLS cfg => cfg.minVersion = q.floor
  | .auth _ => tls = true
  | .mail _ | .rcpt _ | .data _ => q.cover.Met tls bare
  | .greeting | .hello _ | .noop | .reset | .quit => True

/-- What a program may call: it opens a connection only when it has none in hand, and otherwise
    calls only on the one it has. -/
def Permits (E : Env) (h : List Held) : WireOp → Prop
  | ⟨p, .dial _ tls⟩ => h = [] ∧ ∀ cfg ∈ tls, cfg.minVersion = p.provider.floor
  | ⟨p, .run c v⟩ => ∃ tls bare, h = [⟨p, c, tls, bare⟩] ∧ v.Fits p.provider tls bare
  | ⟨p, .extension c _⟩ => ∃ tls bare, h = [⟨p, c, tls, bare⟩]
  | ⟨p, .close c⟩ => ∃ tls bare, ⟨p, c, tls, bare⟩ ∈ h
  | ⟨p, .giveIdle c bound⟩ =>
    ∃ tls bare, h = [⟨p, c, tls, bare⟩] ∧ p.provider.cover.Met tls bare ∧ bound = p.provider.bound E
  | ⟨p, .refresh url _ _ _⟩ => h = [] ∧ ∃ cfg, p.provider = .gmail cfg ∧ url = cfg.tokenURL
  | ⟨_, .takeIdle⟩ | ⟨_, .drain⟩ | ⟨_, .token⟩ | ⟨_, .lookupMX _⟩ | ⟨_, .reserve⟩ => h = []

/-- A connection from the pool. -/
def pooled (p : Ref) (c : Nat) : Held := ⟨p, c, p.provider.cover = .always, false⟩

/-- What a program has in hand after a call. -/
def WireOp.next (h : List Held) : (o : WireOp) → o.Ret → List Held
  | ⟨p, .dial _ tls⟩, .ok c => ⟨p, c, tls.isSome, false⟩ :: h
  | ⟨_, .run _ (.startTLS _)⟩, none => h.map fun x => { x with tls := true }
  | ⟨_, .extension _ name⟩, false =>
    if name = "STARTTLS" then h.map fun x => { x with bare := true } else h
  | ⟨_, .close c⟩, _ => h.eraseP fun x => x.conn = c
  | ⟨p, .takeIdle⟩, some c => pooled p c :: h
  | ⟨_, .giveIdle c _⟩, true => h.eraseP fun x => x.conn = c
  | ⟨p, .drain⟩, cs => cs.map (pooled p)
  | _, _ => h

/-- The discipline of the programs. -/
def holding (E : Env) : Discipline WireOp.Ret (List Held) where
  allow := Permits E
  next h o r := o.next h r

/-- **The delivery worker.**  A handler takes its chain from the current `routeState`; a reload puts
    another in its place; nothing calls `Close`. -/
def worker (E : Env) : Service Net Task WireOp.Ret Unit (Finset Ref) Unit (List Held) where
  init s := s = {}
  starts s t :=
    match t with
    | .relay chain _ _ => ∀ p ∈ chain, p ∈ s.current
    | .verify p => p ∈ s.current
    | .close _ => False
  body := Task.body E
  exec s _ o r _ s' := o.Answers s r ∧ s' = o.after s r
  world s fresh s' := s.Reload fresh s'
  discipline _ := holding E
  birth _ := []

end Novamail.Wire

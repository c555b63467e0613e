/-
  `cmd/ingress/inbound.go`: the submission-side policy snapshot.

  `buildInbound` reads five things and keeps what it could read.  An empty set does not mean the
  same in every field: no relay domain means NO GATE, no suppression means nothing is refused, no
  limit means unlimited, but no trusted client means nobody relays without AUTH.
-/
import Novamail.Config.Tables

namespace Novamail

open Novamail.Core

/-- `trustedClient`; no sender domain, or `"*"`, means any. -/
structure TrustedClient where
  net : IPNet
  senders : List String
  deriving DecidableEq, Repr

/-- `inboundPolicy`.  The two maps are the lists of their (lowercased) keys. -/
@[ext] structure InboundPolicy where
  clients : List TrustedClient := []
  relayDomains : List String := []
  suppressed : List String := []
  limiter : Limiter := {}
  maxMessageBytes : Int := 0

/-- The default of `max_message_bytes`: 50 MiB. -/
def defaultMaxMessageBytes : Int := 52428800

namespace InboundPolicy

/-- The trusted clients of the rows whose CIDR parses. -/
def trustedClients (P : Platform) (rows : List RelayClient) : List TrustedClient :=
  rows.filterMap fun c =>
    (P.parseCIDR c.cidr).map fun n => { net := n, senders := c.allowedSenderDomains }

/-- The inbound specs among the rate limits. -/
def inboundSpecs (rows : List RateLimit) : List RateSpec :=
  rows.filterMap fun rl =>
    if rl.direction = .inbound then some ⟨rl.scopeValue, rl.perSecond, rl.burst⟩ else none

end InboundPolicy

open InboundPolicy in
/-- `buildInbound`: an error of a read is logged, and the rows that came with it are used. -/
def buildInbound (P : Platform) : Load InboundPolicy := do
  let clients ← Prog.lift ConfigOp.getRelayClients
  let domains ← Prog.lift ConfigOp.getRelayDomains
  let supp ← Prog.lift ConfigOp.getSuppressions
  let limits ← Prog.lift ConfigOp.getRateLimits
  let maxBytes ← Prog.lift (ConfigOp.getSettingInt "max_message_bytes")
  pure
    { clients := trustedClients P clients.rows
      relayDomains := domains.rows.map lower
      suppressed := supp.rows.map lower
      limiter := Limiter.build (inboundSpecs limits.rows)
      maxMessageBytes := maxBytes.getD defaultMaxMessageBytes }

open InboundPolicy in
/-- The snapshot, field by field, from the answers to the five reads. -/
theorem buildInbound_eval (P : Platform) (ans : (o : ConfigOp) → o.Ret) :
    (buildInbound P).eval ans =
      { clients := trustedClients P (ans .getRelayClients).rows
        relayDomains := (ans .getRelayDomains).rows.map lower
        suppressed := (ans .getSuppressions).rows.map lower
        limiter := Limiter.build (inboundSpecs (ans .getRateLimits).rows)
        maxMessageBytes :=
          (ans (.getSettingInt "max_message_bytes")).getD defaultMaxMessageBytes } := by
  rfl

/-- `matchClient`: the first client whose range contains the address. -/
def InboundPolicy.matchClient (p : InboundPolicy) : Option IP → Option TrustedClient
  | none => none
  | some ip => p.clients.find? fun c => c.net.contains ip

/-- `relayDomainOK`. -/
def InboundPolicy.relayDomainOK (p : InboundPolicy) (domain : String) : Bool :=
  if p.relayDomains.isEmpty then true else p.relayDomains.contains (lower domain)

/-- `sendersAllow`: the empty list and `"*"` permit any domain; names compare by `EqualFold`. -/
def sendersAllow (allowed : List String) (domain : String) : Bool :=
  if allowed.isEmpty then true else allowed.any fun a => a = "*" || lower a = lower domain

/-- `ipInAny`: a nil address is in no range, and a CIDR that does not parse contains nothing. -/
def ipInAny (P : Platform) (ip : Option IP) (cidrs : List String) : Bool :=
  cidrs.any fun c =>
    match P.parseCIDR c, ip with
    | some n, some ip => n.contains ip
    | _, _ => false

end Novamail

/-
  The operational configuration in Postgres, and the reads of `internal/db/db.go`.

  A loader (`buildInbound`, `buildState`) is a program over `ConfigOp`, one call for each query it
  makes.  `ConfigDb.answer` is what a healthy database answers; `Broken` is what a failing one
  may answer instead: the query functions return the rows scanned so far together with the error
  (`return out, rows.Err()`), and the single-value reads fall back to a default.
-/
import Mathlib.Data.List.Infix
import Novamail.Core.Prog
import Novamail.Model.Platform
import Novamail.Model.Routing
import Novamail.Providers.Factory

namespace Novamail

open Novamail.Core

/-! ## Rows -/

/-- `relay_clients`. -/
structure RelayClient where
  id : String
  cidr : String
  allowedSenderDomains : List String
  enabled : Bool
  deriving DecidableEq, Repr

/-- `relay_domains`. -/
structure RelayDomain where
  domain : String
  enabled : Bool
  deriving DecidableEq, Repr

/-- `suppressions.reason`. -/
inductive SuppressReason where
  | hardBounce | complaint | manual
  deriving DecidableEq, Repr

/-- `suppressions`; `expiresAt` is null for a suppression without an end. -/
structure Suppression where
  address : String
  reason : SuppressReason
  source : String
  detail : String
  expiresAt : Option Nat
  deriving DecidableEq, Repr

/-- `rate_limits.direction`. -/
inductive Direction where
  | inbound | outbound
  deriving DecidableEq, Repr

/-- `rate_limits.scope`. -/
inductive Scope where
  | account | ip | recipientDomain | provider | global
  deriving DecidableEq, Repr

/-- `rate_limits`; a null `scopeValue` is read as `"*"`. -/
structure RateLimit where
  id : String
  direction : Direction
  scope : Scope
  scopeValue : String
  perSecond : Rat
  burst : Int
  enabled : Bool
  deriving DecidableEq, Repr

/-- `tls_policy`; `providerID` is empty for the global row. -/
structure TLSPolicyRow where
  providerID : String
  minVersion : String
  starttlsRequired : Bool
  deriving DecidableEq, Repr

/-- `dkim_keys.rotation`. -/
inductive Rotation where
  | active | retiring | revoked
  deriving DecidableEq, Repr

/-- `dkim_keys`. -/
structure DKIMKey where
  domain : String
  selector : String
  privateRef : String
  rotation : Rotation
  deriving DecidableEq, Repr

/-- A provider row with its flag. -/
structure ProviderEntry where
  row : ProviderRow
  enabled : Bool
  deriving DecidableEq, Repr

/-- The configuration tables, the settings, the secrets, and the mounted secret files. -/
structure ConfigDb where
  relayClients : List RelayClient := []
  relayDomains : List RelayDomain := []
  suppressions : List Suppression := []
  rateLimits : List RateLimit := []
  providers : List ProviderEntry := []
  routingRules : List RoutingRule := []
  tlsPolicies : List TLSPolicyRow := []
  dkimKeys : List DKIMKey := []
  /-- `secrets`: the envelope of a ref. -/
  secrets : String → Option String := fun _ => none
  /-- Settings that parse as integers. -/
  settingInt : String → Option Int := fun _ => none
  /-- Settings that are not blank. -/
  settingString : String → Option String := fun _ => none
  /-- Files under the provider secrets directory. -/
  secretFile : String → Option Bytes := fun _ => none
  /-- The time `now()` returns. -/
  clock : Nat := 0

/-! ## Reads -/

/-- The rows a query function returns, and whether it returns an error with them. -/
structure Rows (α : Type) where
  rows : List α
  err : Bool := false
  deriving DecidableEq, Repr

/-- The row a secret is read for: two readers of one secret make two reads. -/
inductive SecretReader where
  | provider (id : String)
  | dkimKey (domain selector : String)
  deriving DecidableEq, Repr

/-- The queries of the two loaders. -/
inductive ConfigOp where
  | getRelayClients | getRelayDomains | getSuppressions | getRateLimits | getProviders
  | getRoutingRules | getTLSPolicies | getActiveDKIMKeys
  | getSecret (reader : SecretReader) (ref : String)
  | getSettingInt (key : String)
  | getSettingString (key : String)
  | readSecretFile (ref : String)
  deriving DecidableEq, Repr

/-- The answer to a query.  `getSecret`: none is an error, `""` no such secret.  The settings and
    the file: none is an error or an absent value, which the callers do not tell apart. -/
@[reducible] def ConfigOp.Ret : ConfigOp → Type
  | .getRelayClients => Rows RelayClient
  | .getRelayDomains => Rows String
  | .getSuppressions => Rows String
  | .getRateLimits => Rows RateLimit
  | .getProviders => Rows ProviderRow
  | .getRoutingRules => Rows RoutingRule
  | .getTLSPolicies => Rows TLSPolicyRow
  | .getActiveDKIMKeys => Rows DKIMKey
  | .getSecret _ _ => Option String
  | .getSettingInt _ => Option Int
  | .getSettingString _ => Option String
  | .readSecretFile _ => Option Bytes

/-- A program that reads the configuration. -/
abbrev Load := Prog ConfigOp.Ret

namespace ConfigDb

/-- `ORDER BY priority DESC, id`. -/
def ruleOrder (a b : RoutingRule) : Bool :=
  b.priority < a.priority || (a.priority = b.priority && a.id ≤ b.id)

/-- `ORDER BY provider_id NULLS FIRST, min_version`. -/
def tlsOrder (a b : TLSPolicyRow) : Bool :=
  a.providerID < b.providerID || (a.providerID = b.providerID && a.minVersion ≤ b.minVersion)

/-- What a healthy database answers. -/
def answer (db : ConfigDb) : (o : ConfigOp) → o.Ret
  | .getRelayClients => { rows := db.relayClients.filter (·.enabled) }
  | .getRelayDomains => { rows := (db.relayDomains.filter (·.enabled)).map (·.domain) }
  | .getSuppressions =>
    { rows := (db.suppressions.filter fun s => s.expiresAt.all (db.clock < ·)).map (·.address) }
  | .getRateLimits => { rows := db.rateLimits.filter (·.enabled) }
  | .getProviders => { rows := (db.providers.filter (·.enabled)).map (·.row) }
  | .getRoutingRules => { rows := (db.routingRules.filter (·.enabled)).mergeSort ruleOrder }
  | .getTLSPolicies => { rows := db.tlsPolicies.mergeSort tlsOrder }
  | .getActiveDKIMKeys => { rows := db.dkimKeys.filter (·.rotation = .active) }
  | .getSecret _ ref => some ((db.secrets ref).getD "")
  | .getSettingInt key => db.settingInt key
  | .getSettingString key => db.settingString key
  | .readSecretFile ref => db.secretFile ref

end ConfigDb

/-- A failing multi-row read: an error, with the rows scanned before it. -/
def Rows.Broken {α : Type} (good bad : Rows α) : Prop := bad.err = true ∧ bad.rows <+: good.rows

/-- `bad` is what the read `o` may return when it fails, where a healthy database would have
    answered `good`.  The file system is not part of the database and does not fail with it. -/
def ConfigOp.Broken : (o : ConfigOp) → (good bad : o.Ret) → Prop
  | .getRelayClients, good, bad => good.Broken bad
  | .getRelayDomains, good, bad => good.Broken bad
  | .getSuppressions, good, bad => good.Broken bad
  | .getRateLimits, good, bad => good.Broken bad
  | .getProviders, good, bad => good.Broken bad
  | .getRoutingRules, good, bad => good.Broken bad
  | .getTLSPolicies, good, bad => good.Broken bad
  | .getActiveDKIMKeys, good, bad => good.Broken bad
  | .getSecret _ _, _, bad => bad = none
  | .getSettingInt _, _, bad => bad = none
  | .getSettingString _, _, bad => bad = none
  | .readSecretFile _, _, _ => False

/-- A reload during which the reads in `fails` fail and all others are answered by `db`. -/
structure Outage (db : ConfigDb) where
  /-- The reads that fail. -/
  fails : ConfigOp → Bool
  /-- What each read returns. -/
  ans : (o : ConfigOp) → o.Ret
  healthy : ∀ o, fails o = false → ans o = db.answer o
  broken : ∀ o, fails o = true → o.Broken (db.answer o) (ans o)

/-- A failed read without a row. -/
def ConfigOp.nothing : (o : ConfigOp) → o.Ret
  | .getRelayClients | .getRelayDomains | .getSuppressions | .getRateLimits | .getProviders
  | .getRoutingRules | .getTLSPolicies | .getActiveDKIMKeys => { rows := [], err := true }
  | .getSecret _ _ | .getSettingInt _ | .getSettingString _ | .readSecretFile _ => none

/-- A reload during which these reads fail and return nothing; the file system does not fail. -/
def Outage.without (db : ConfigDb) (fails : ConfigOp → Bool)
    (hfile : ∀ ref, fails (.readSecretFile ref) = false) : Outage db where
  fails := fails
  ans o := if fails o then o.nothing else db.answer o
  healthy o h := by rw [h, if_neg Bool.false_ne_true]
  broken o h := by
    rw [if_pos h]
    cases o with
    | readSecretFile ref => exact Bool.noConfusion ((hfile ref).symm.trans h)
    | getSecret | getSettingInt | getSettingString => rfl
    | _ => exact ⟨rfl, List.nil_prefix⟩

/-- The trusted clients that are read are the first of those there are. -/
theorem Outage.clients_prefix {db : ConfigDb} (o : Outage db) :
    (o.ans .getRelayClients).rows <+: (db.answer .getRelayClients).rows := by
  cases h : o.fails .getRelayClients with
  | false =>
    rw [o.healthy _ h]
  | true => exact (o.broken _ h).2

/-- So are the relay domains. -/
theorem Outage.domains_prefix {db : ConfigDb} (o : Outage db) :
    (o.ans .getRelayDomains).rows <+: (db.answer .getRelayDomains).rows := by
  cases h : o.fails .getRelayDomains with
  | false =>
    rw [o.healthy _ h]
  | true => exact (o.broken _ h).2

end Novamail

/-
  The routing snapshot of the delivery worker (`buildState`, `resolveCreds` in
  `cmd/delivery/main.go`).

  Every query that fails is logged and treated as the rows that came back.  The rows feed one
  another: the TLS policies and the secrets go into the provider instances, and an instance that
  is missing shortens every chain that names it.
-/
import Novamail.Config.Tables

namespace Novamail

open Novamail.Core

/-- `routeState`. -/
@[ext] structure RouteState where
  engine : Engine := {}
  /-- provider id → instance -/
  instances : String → Option Provider := fun _ => none
  /-- per recipient domain -/
  limiter : Limiter := {}
  /-- per provider name -/
  provLimiter : Limiter := {}
  /-- by sender domain -/
  dkimByDomain : String → Option Signer := fun _ => none

/-- `tlsVersion`: anything but `"1.3"` is TLS 1.2. -/
def tlsVersion (s : String) : Nat := if s = "1.3" then tls13 else tls12

/-- The global policy and the per-provider ones, as the loop over `tls_policy` leaves them. -/
@[ext] structure TLSPolicies where
  globalPol : TLSPolicy := defaultTLSPolicy
  byProvider : String → Option TLSPolicy := fun _ => none

namespace TLSPolicies

/-- One pass of the loop over the rows. -/
def add (p : TLSPolicies) (t : TLSPolicyRow) : TLSPolicies :=
  let pol : TLSPolicy := ⟨tlsVersion t.minVersion, t.starttlsRequired⟩
  if t.providerID = "" then { p with globalPol := pol }
  else { p with byProvider := Function.update p.byProvider t.providerID (some pol) }

/-- The whole loop. -/
def build (rows : List TLSPolicyRow) : TLSPolicies := rows.foldl add {}

/-- The policy of a provider: its own row overrides the global one. -/
def policyFor (p : TLSPolicies) (id : String) : TLSPolicy := (p.byProvider id).getD p.globalPol

end TLSPolicies

namespace RouteState

/-- The outbound specs of one scope among the rate limits. -/
def outboundSpecs (scope : Scope) (rows : List RateLimit) : List RateSpec :=
  rows.filterMap fun rl =>
    if rl.direction = .outbound ∧ rl.scope = scope then
      some ⟨rl.scopeValue, rl.perSecond, rl.burst⟩
    else none

end RouteState

/-! ## Credentials -/

/-- The credentials in an encrypted secret; none sends the caller to the file. -/
def secretCreds (P : Platform) : Option String → Option Creds
  | none => none
  | some env =>
    if env = "" then none
    else
      match P.decrypt env with
      | none => none
      | some pt => if (P.unmarshalCreds pt).2 then some (P.unmarshalCreds pt).1 else none

/-- The credentials in the mounted file; a parse error is ignored. -/
def fileCreds (P : Platform) : Option Bytes → Creds
  | none => {}
  | some b => (P.unmarshalCreds b).1

/-- `resolveCreds`: the encrypted secret when there is a master key, else the file.  `id` names the
    provider the read is made for. -/
def resolveCreds (P : Platform) (cipher : Bool) (id secretRef : String) : Load Creds :=
  if secretRef = "" then pure {}
  else if cipher then do
    let env ← Prog.lift (ConfigOp.getSecret (.provider id) secretRef)
    match secretCreds P env with
    | some c => pure c
    | none => do
      let b ← Prog.lift (ConfigOp.readSecretFile secretRef)
      pure (fileCreds P b)
  else do
    let b ← Prog.lift (ConfigOp.readSecretFile secretRef)
    pure (fileCreds P b)

/-- The credentials `resolveCreds` finds, from the answers to its two reads. -/
def credsOf (P : Platform) (cipher : Bool) (secretRef : String) (env : Option String)
    (file : Option Bytes) : Creds :=
  if secretRef = "" then {}
  else if cipher then (secretCreds P env).getD (fileCreds P file)
  else fileCreds P file

@[simp] theorem resolveCreds_eval (P : Platform) (cipher : Bool) (id ref : String)
    (ans : (o : ConfigOp) → o.Ret) :
    (resolveCreds P cipher id ref).eval ans =
      credsOf P cipher ref (ans (.getSecret (.provider id) ref)) (ans (.readSecretFile ref)) := by
  unfold resolveCreds credsOf
  by_cases href : ref = ""
  · rw [if_pos href, if_pos href]
    rfl
  rw [if_neg href, if_neg href]
  cases cipher with
  | false => rfl
  | true =>
    rw [if_pos rfl, if_pos rfl]
    simp only [Prog.lift_bind, Prog.eval_call]
    cases secretCreds P (ans (.getSecret (.provider id) ref)) with
    | none => rfl
    | some c => rfl

/-! ## The loops over providers and keys -/

/-- The loop over the provider rows: build an instance, or log the error and go on. -/
def buildInstances (P : Platform) (cipher : Bool) (directHELO : String) (pols : TLSPolicies) :
    List ProviderRow → (String → Option Provider) → Load (String → Option Provider)
  | [], acc => pure acc
  | p :: ps, acc => do
    let c ← resolveCreds P cipher p.id p.secretRef
    match newProvider P directHELO p c (pols.policyFor p.id) with
    | none => buildInstances P cipher directHELO pols ps acc
    | some inst =>
      buildInstances P cipher directHELO pols ps (Function.update acc p.id (some inst))

/-- One pass of that loop, given the answers to the reads of credentials. -/
def addInstance (P : Platform) (cipher : Bool) (directHELO : String) (pols : TLSPolicies)
    (ans : (o : ConfigOp) → o.Ret) (acc : String → Option Provider) (p : ProviderRow) :
    String → Option Provider :=
  let c := credsOf P cipher p.secretRef (ans (.getSecret (.provider p.id) p.secretRef))
    (ans (.readSecretFile p.secretRef))
  match newProvider P directHELO p c (pols.policyFor p.id) with
  | none => acc
  | some inst => Function.update acc p.id (some inst)

/-- The loop is a fold. -/
theorem buildInstances_eval (P : Platform) (cipher : Bool) (directHELO : String)
    (pols : TLSPolicies) (ans : (o : ConfigOp) → o.Ret) (rows : List ProviderRow) :
    ∀ acc, (buildInstances P cipher directHELO pols rows acc).eval ans =
      rows.foldl (addInstance P cipher directHELO pols ans) acc := by
  induction rows with
  | nil => exact fun acc => rfl
  | cons p ps ih =>
    intro acc
    unfold buildInstances
    rw [Prog.eval_bind, resolveCreds_eval, List.foldl_cons]
    unfold addInstance
    dsimp only
    split
    · exact ih acc
    · exact ih _

/-- `dkim.LoadPEM`; none is an error. -/
def loadPEM (P : Platform) (domain selector : String) (pem : Bytes) : Option Signer :=
  if domain = "" ∨ selector = "" ∨ pem = [] then none
  else (P.parseKey pem).map fun key => { domain := domain, selector := selector, key := key }

/-- The signer of a key row, from the answer to the read of its secret. -/
def signerOf (P : Platform) (k : DKIMKey) : Option String → Option Signer
  | none => none
  | some env =>
    if env = "" then none
    else
      match P.decrypt env with
      | none => none
      | some pem => loadPEM P k.domain k.selector pem

/-- The loop over the DKIM keys. -/
def buildSigners (P : Platform) :
    List DKIMKey → (String → Option Signer) → Load (String → Option Signer)
  | [], acc => pure acc
  | k :: ks, acc =>
    if k.privateRef = "" then buildSigners P ks acc
    else do
      let env ← Prog.lift (ConfigOp.getSecret (.dkimKey k.domain k.selector) k.privateRef)
      match signerOf P k env with
      | none => buildSigners P ks acc
      | some sgn => buildSigners P ks (Function.update acc (lower k.domain) (some sgn))

/-- One pass of that loop, given the answers to the reads of the keys. -/
def addSigner (P : Platform) (ans : (o : ConfigOp) → o.Ret) (acc : String → Option Signer)
    (k : DKIMKey) : String → Option Signer :=
  if k.privateRef = "" then acc
  else
    match signerOf P k (ans (.getSecret (.dkimKey k.domain k.selector) k.privateRef)) with
    | none => acc
    | some sgn => Function.update acc (lower k.domain) (some sgn)

/-- The loop is a fold. -/
theorem buildSigners_eval (P : Platform) (ans : (o : ConfigOp) → o.Ret) (keys : List DKIMKey) :
    ∀ acc, (buildSigners P keys acc).eval ans = keys.foldl (addSigner P ans) acc := by
  induction keys with
  | nil => exact fun acc => rfl
  | cons k ks ih =>
    intro acc
    unfold buildSigners
    rw [List.foldl_cons]
    unfold addSigner
    split
    · exact ih acc
    · rw [Prog.lift_bind, Prog.eval_call]
      split
      · exact ih acc
      · exact ih _

open RouteState in
/-- `buildState`.  `cipher` says whether a master key is configured. -/
def buildState (P : Platform) (cipher : Bool) : Load RouteState := do
  let helo ← Prog.lift (ConfigOp.getSettingString "direct_helo")
  let provs ← Prog.lift ConfigOp.getProviders
  let rules ← Prog.lift ConfigOp.getRoutingRules
  let limits ← Prog.lift ConfigOp.getRateLimits
  let tlsPols ← Prog.lift ConfigOp.getTLSPolicies
  let instances ← buildInstances P cipher (helo.getD "localhost") (TLSPolicies.build tlsPols.rows)
    provs.rows fun _ => none
  let keys ← Prog.lift ConfigOp.getActiveDKIMKeys
  let dkimByDomain ← if cipher then buildSigners P keys.rows fun _ => none else pure fun _ => none
  pure
    { engine := Engine.build rules.rows
      instances := instances
      limiter := Limiter.build (outboundSpecs .recipientDomain limits.rows)
      provLimiter := Limiter.build (outboundSpecs .provider limits.rows)
      dkimByDomain := dkimByDomain }

/-! ### The snapshot, part by part -/

section
variable (P : Platform) (cipher : Bool) (ans : (o : ConfigOp) → o.Ret)

/-- The instances that the provider rows, the TLS policies, the credentials and the HELO name
    give. -/
def instancesOf : String → Option Provider :=
  (ans .getProviders).rows.foldl
    (addInstance P cipher ((ans (.getSettingString "direct_helo")).getD "localhost")
      (TLSPolicies.build (ans .getTLSPolicies).rows) ans) fun _ => none

/-- The signers that the key rows and their secrets give. -/
def signersOf : String → Option Signer :=
  if cipher then (ans .getActiveDKIMKeys).rows.foldl (addSigner P ans) fun _ => none
  else fun _ => none

open RouteState in
/-- The snapshot from the answers to the reads. -/
theorem buildState_eval : (buildState P cipher).eval ans =
    { engine := Engine.build (ans .getRoutingRules).rows
      instances := instancesOf P cipher ans
      limiter := Limiter.build (outboundSpecs .recipientDomain (ans .getRateLimits).rows)
      provLimiter := Limiter.build (outboundSpecs .provider (ans .getRateLimits).rows)
      dkimByDomain := signersOf P cipher ans } := by
  unfold buildState instancesOf signersOf
  simp only [Prog.lift_bind, Prog.eval_call, Prog.eval_bind, buildInstances_eval]
  cases cipher with
  | false => rfl
  | true =>
    rw [if_pos rfl, if_pos rfl, Prog.eval_bind, buildSigners_eval]
    rfl

end

/-! ## What a worker reads off its snapshot -/

/-- `worker.chain`: the instances of the resolved rule, in order. -/
def RouteState.chain (st : RouteState) (hints : RoutingHints) : List Provider :=
  (st.engine.resolve hints.recipientDomain hints.senderDomain).filterMap st.instances

/-- `worker.signerFor`. -/
def RouteState.signerFor (st : RouteState) (domain : String) : Option Signer :=
  st.dkimByDomain (lower domain)

end Novamail

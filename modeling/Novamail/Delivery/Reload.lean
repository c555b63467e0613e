/-
  What a reload of the delivery snapshot keeps when some of its reads fail.

  `buildState` goes on with the rows that came back, so a part whose read failed is built from
  those rows, and not taken from the snapshot it replaces.  The two agree only when the previous
  snapshot had nothing else in that part.
-/
import Novamail.Config.Limits
import Novamail.Core.System

namespace Novamail

open Novamail.Core RouteState

section
variable (P : Platform) (cipher : Bool) (prev : RouteState) {db : ConfigDb} (o : Outage db)

/-- **The property.**  Every part of the installed snapshot whose read failed is that of the
    previous snapshot: the routes; both limiters; all instances when the providers or the TLS
    policies failed, the instance of a provider when its credentials did, the instances for direct
    delivery when their HELO name did; all signers when the keys failed, the signer of a domain
    when its key did. -/
structure KeepsLastGood : Prop where
  routes : o.fails .getRoutingRules = true →
    ((buildState P cipher).eval o.ans).engine = prev.engine
  limits : o.fails .getRateLimits = true →
    ((buildState P cipher).eval o.ans).limiter = prev.limiter ∧
      ((buildState P cipher).eval o.ans).provLimiter = prev.provLimiter
  instances : o.fails .getProviders = true ∨ o.fails .getTLSPolicies = true →
    ((buildState P cipher).eval o.ans).instances = prev.instances
  credentials : cipher = true → ∀ p ∈ (o.ans .getProviders).rows, p.secretRef ≠ "" →
    o.fails (.getSecret (.provider p.id) p.secretRef) = true →
      ((buildState P cipher).eval o.ans).instances p.id = prev.instances p.id
  helo : o.fails (.getSettingString "direct_helo") = true →
    ∀ p ∈ (o.ans .getProviders).rows, p.type = .direct →
      ((buildState P cipher).eval o.ans).instances p.id = prev.instances p.id
  signers : o.fails .getActiveDKIMKeys = true →
    ((buildState P cipher).eval o.ans).dkimByDomain = prev.dkimByDomain
  keys : cipher = true → ∀ k ∈ (o.ans .getActiveDKIMKeys).rows, k.privateRef ≠ "" →
    o.fails (.getSecret (.dkimKey k.domain k.selector) k.privateRef) = true →
      ((buildState P cipher).eval o.ans).dkimByDomain (lower k.domain) =
        prev.dkimByDomain (lower k.domain)

end

/-! ## What rows say -/

/-- The routes are those of the rules: for a recipient domain, for a sender domain and for the
    default, the chain of the first rule. -/
structure RoutedBy (e : Engine) (rules : List RoutingRule) : Prop where
  recipient : ∀ d, e.recipient d = (rules.find? (·.forRecipient d)).map (·.providerChain)
  sender : ∀ d, e.sender d = (rules.find? (·.forSender d)).map (·.providerChain)
  dflt : e.dflt = (rules.find? (·.isDefault)).map (·.providerChain)

/-- The limits are those of the rows: under each name, the rate and burst of the last row. -/
structure LimitedBy (l : Limiter) (rows : List RateLimit) : Prop where
  dflt : l.dflt = (kept rows "*").getLast?.map (·.spec.bucket)
  byKey : ∀ name, name ≠ "*" → l.byKey name = (kept rows name).getLast?.map (·.spec.bucket)
  star : l.byKey "*" = none

/-- The TLS policy the rows give a provider: its own last row, else the last global one, else the
    default. -/
def policyOf (rows : List TLSPolicyRow) (id : String) : TLSPolicy :=
  ((rows.filter (·.providerID = id)).getLast?.or (rows.filter (·.providerID = "")).getLast?).elim
    defaultTLSPolicy fun t => ⟨tlsVersion t.minVersion, t.starttlsRequired⟩

section
variable (P : Platform) (cipher : Bool) (ans : (o : ConfigOp) → o.Ret)

/-- The instance a row asks for, with its policy, and with the credentials of its secret or its
    file. -/
def instanceFor (p : ProviderRow) : Option Provider :=
  newProvider P ((ans (.getSettingString "direct_helo")).getD "localhost") p
    (credsOf P cipher p.secretRef (ans (.getSecret (.provider p.id) p.secretRef))
      (ans (.readSecretFile p.secretRef)))
    (policyOf (ans .getTLSPolicies).rows p.id)

/-- The instance of a provider: that of the last of its rows that asks for one. -/
def lastInstance (id : String) : Option Provider :=
  (((ans .getProviders).rows.filter (·.id = id)).filterMap (instanceFor P cipher ans)).getLast?

/-- The signer of a key row with its secret. -/
def keySigner (k : DKIMKey) : Option Signer :=
  if k.privateRef = "" then none
  else signerOf P k (ans (.getSecret (.dkimKey k.domain k.selector) k.privateRef))

/-- The signer of a domain: that of the last of its keys that can be loaded; none without a master
    key. -/
def lastSigner (d : String) : Option Signer :=
  if cipher then
    (((ans .getActiveDKIMKeys).rows.filter (lower ·.domain = d)).filterMap
      (keySigner P ans)).getLast?
  else none

end

section
variable (P : Platform) (cipher : Bool) (prev : RouteState) {db : ConfigDb} (o : Outage db)

/-- **The condition.**  In every part whose read failed, the rows that came back say what the
    previous snapshot had: the rules its routes, the limits its limits, the providers its instances
    under the policies that came back, or with the credentials of the mounted file, the keys its
    signers. -/
structure RowsSuffice : Prop where
  routes : o.fails .getRoutingRules = true → RoutedBy prev.engine (o.ans .getRoutingRules).rows
  limits : o.fails .getRateLimits = true →
    LimitedBy prev.limiter ((o.ans .getRateLimits).rows.filter Gate.domain.reads) ∧
      LimitedBy prev.provLimiter ((o.ans .getRateLimits).rows.filter Gate.provider.reads)
  instances : o.fails .getProviders = true ∨ o.fails .getTLSPolicies = true →
    ∀ id, prev.instances id = lastInstance P cipher o.ans id
  credentials : cipher = true → ∀ p ∈ (o.ans .getProviders).rows, p.secretRef ≠ "" →
    o.fails (.getSecret (.provider p.id) p.secretRef) = true →
      prev.instances p.id = lastInstance P cipher o.ans p.id
  helo : o.fails (.getSettingString "direct_helo") = true →
    ∀ p ∈ (o.ans .getProviders).rows, p.type = .direct →
      prev.instances p.id = lastInstance P cipher o.ans p.id
  signers : o.fails .getActiveDKIMKeys = true →
    ∀ d, prev.dkimByDomain d = lastSigner P cipher o.ans d
  keys : cipher = true → ∀ k ∈ (o.ans .getActiveDKIMKeys).rows, k.privateRef ≠ "" →
    o.fails (.getSecret (.dkimKey k.domain k.selector) k.privateRef) = true →
      prev.dkimByDomain (lower k.domain) = lastSigner P cipher o.ans (lower k.domain)

end

/-! ## What the loops make of them -/

/-- A loop that puts a value under a key, or nothing, leaves the last value of each key. -/
theorem foldl_last {α κ β : Type} [DecidableEq κ] (key : α → κ) (f : α → Option β)
    (step : (κ → Option β) → α → κ → Option β)
    (hstep : ∀ m a, step m a = (f a).elim m fun v => Function.update m (key a) (some v))
    (l : List α) (k : κ) :
    l.foldl step (fun _ => none) k = ((l.filter fun a => key a = k).filterMap f).getLast? := by
  induction l using List.reverseRecOn with
  | nil => rfl
  | append_singleton l a ih =>
    rw [List.foldl_concat, hstep, List.filter_append, List.filterMap_append]
    cases hf : f a with
    | none =>
      have hnil : ([a].filter fun a => key a = k).filterMap f = [] := by
        by_cases hk : key a = k <;> simp [hk, hf]
      rw [hnil, List.append_nil]
      exact ih
    | some v =>
      by_cases hk : key a = k
      · subst hk
        simp [hf]
      · simpa [hk, Function.update_of_ne (Ne.symm hk)] using ih

theorem routedBy_iff {e : Engine} {rules : List RoutingRule} :
    RoutedBy e rules ↔ e = Engine.build rules := by
  constructor
  · rintro ⟨hr, hs, hd⟩
    refine Engine.ext (funext fun d => ?_) (funext fun d => ?_) ?_
    · rw [hr, Engine.build_recipient]
    · rw [hs, Engine.build_sender]
    · rw [hd, Engine.build_dflt]
  · rintro rfl
    exact ⟨Engine.build_recipient rules, Engine.build_sender rules, Engine.build_dflt rules⟩

theorem limitedBy_iff {l : Limiter} {rows : List RateLimit} :
    LimitedBy l rows ↔ l = Limiter.build (rows.map RateLimit.spec) := by
  have hdflt : (Limiter.build (rows.map RateLimit.spec)).dflt =
      (kept rows "*").getLast?.map (·.spec.bucket) :=
    Limiter.build_named_rows rows "*"
  have hkey : ∀ name, name ≠ "*" → (Limiter.build (rows.map RateLimit.spec)).byKey name =
      (kept rows name).getLast?.map (·.spec.bucket) := by
    intro name hne
    have hnamed := Limiter.build_named_rows rows name
    unfold Limiter.named at hnamed
    rwa [if_neg hne] at hnamed
  constructor
  · rintro ⟨hd, hk, hs⟩
    refine Limiter.ext (funext fun name => ?_) (hd.trans hdflt.symm)
    by_cases hne : name = "*"
    · rw [hne, hs, Limiter.build_byKey_star]
    · rw [hk name hne, hkey name hne]
  · rintro rfl
    exact ⟨hdflt, hkey, Limiter.build_byKey_star _⟩

/-- The loop over the TLS policies. -/
theorem policyFor_build (rows : List TLSPolicyRow) (id : String) :
    (TLSPolicies.build rows).policyFor id = policyOf rows id := by
  let pol : TLSPolicyRow → TLSPolicy := fun t => ⟨tlsVersion t.minVersion, t.starttlsRequired⟩
  have hparts : (TLSPolicies.build rows).globalPol =
        (rows.filter (·.providerID = "")).getLast?.elim defaultTLSPolicy pol ∧
      ∀ id, (TLSPolicies.build rows).byProvider id =
        if id = "" then none else (rows.filter (·.providerID = id)).getLast?.map pol := by
    induction rows using List.reverseRecOn with
    | nil => exact ⟨rfl, fun id => (ite_self _).symm⟩
    | append_singleton rows t ih =>
      have hadd : TLSPolicies.build (rows ++ [t]) = (TLSPolicies.build rows).add t :=
        List.foldl_concat ..
      rw [hadd]
      unfold TLSPolicies.add
      by_cases hglobal : t.providerID = ""
      · refine ⟨by simp [hglobal, pol], fun id => ?_⟩
        by_cases hid : id = ""
        · simp [hglobal, ih.2, hid]
        · simp [hglobal, ih.2, hid, Ne.symm hid]
      · refine ⟨by simpa [hglobal] using ih.1, fun id => ?_⟩
        by_cases hid : t.providerID = id
        · subst hid
          simp [hglobal, pol]
        · simpa [hglobal, hid, Function.update_of_ne (Ne.symm hid)] using ih.2 id
  unfold TLSPolicies.policyFor policyOf
  rw [hparts.1, hparts.2]
  by_cases hid : id = ""
  · subst hid
    cases (rows.filter (·.providerID = "")).getLast? <;> rfl
  · rw [if_neg hid]
    cases (rows.filter (·.providerID = id)).getLast? <;> rfl

section
variable (P : Platform) (cipher : Bool) (ans : (o : ConfigOp) → o.Ret)

/-- The loop over the providers. -/
theorem instancesOf_eq (id : String) :
    instancesOf P cipher ans id = lastInstance P cipher ans id := by
  refine foldl_last (·.id) (instanceFor P cipher ans) _ (fun m p => ?_) _ id
  unfold addInstance instanceFor
  rw [policyFor_build]
  dsimp only
  split <;> rename_i hnew <;> rw [hnew] <;> rfl

/-- The loop over the keys. -/
theorem signersOf_eq (d : String) : signersOf P cipher ans d = lastSigner P cipher ans d := by
  unfold signersOf lastSigner
  cases cipher with
  | false => rfl
  | true =>
    have hstep : ∀ m k, addSigner P ans m k =
        (keySigner P ans k).elim m fun v => Function.update m (lower k.domain) (some v) := by
      intro m k
      unfold addSigner keySigner
      by_cases href : k.privateRef = ""
      · rw [if_pos href, if_pos href]
        rfl
      · rw [if_neg href, if_neg href]
        split <;> rename_i hsigner <;> rw [hsigner] <;> rfl
    rw [if_pos rfl, if_pos rfl]
    exact foldl_last _ _ _ hstep ..

end

section
variable {P : Platform} {cipher : Bool} {prev : RouteState} {db : ConfigDb}

/-- A part is kept exactly when the rows that came back suffice for it. -/
theorem keeps_iff_suffice (o : Outage db) :
    KeepsLastGood P cipher prev o ↔ RowsSuffice P cipher prev o := by
  have heval := buildState_eval P cipher o.ans
  have hdomain : outboundSpecs .recipientDomain (o.ans .getRateLimits).rows =
      ((o.ans .getRateLimits).rows.filter Gate.domain.reads).map RateLimit.spec :=
    Gate.domain.specs_eq _
  have hprov : outboundSpecs .provider (o.ans .getRateLimits).rows =
      ((o.ans .getRateLimits).rows.filter Gate.provider.reads).map RateLimit.spec :=
    Gate.provider.specs_eq _
  rw [hdomain, hprov] at heval
  constructor
  · rintro ⟨hr, hl, hi, hc, hh, hs, hk⟩
    rw [heval] at hr hl hi hc hh hs hk
    refine ⟨fun h => routedBy_iff.mpr (hr h).symm,
      fun h => ⟨limitedBy_iff.mpr (hl h).1.symm, limitedBy_iff.mpr (hl h).2.symm⟩,
      fun h id => ?_, fun hci p hp hne h => ?_, fun h p hp ht => ?_, fun h d => ?_,
      fun hci k hkm hne h => ?_⟩
    · exact (congrFun (hi h) id).symm.trans (instancesOf_eq ..)
    · exact (hc hci p hp hne h).symm.trans (instancesOf_eq ..)
    · exact (hh h p hp ht).symm.trans (instancesOf_eq ..)
    · exact (congrFun (hs h) d).symm.trans (signersOf_eq ..)
    · exact (hk hci k hkm hne h).symm.trans (signersOf_eq ..)
  · rintro ⟨hr, hl, hi, hc, hh, hs, hk⟩
    refine ⟨?_, ?_, ?_, ?_, ?_, ?_, ?_⟩ <;> rw [heval]
    · exact fun h => (routedBy_iff.mp (hr h)).symm
    · exact fun h => ⟨(limitedBy_iff.mp (hl h).1).symm, (limitedBy_iff.mp (hl h).2).symm⟩
    · exact fun h => funext fun id => (instancesOf_eq ..).trans (hi h id).symm
    · exact fun hci p hp hne h => (instancesOf_eq ..).trans (hc hci p hp hne h).symm
    · exact fun h p hp ht => (instancesOf_eq ..).trans (hh h p hp ht).symm
    · exact fun h => funext fun d => (signersOf_eq ..).trans (hs h d).symm
    · exact fun hci k hkm hne h => (signersOf_eq ..).trans (hk hci k hkm hne h).symm

/-! ## Reload after reload -/

/-- The answer to a read that did not fail is that of the database. -/
theorem Outage.healthy_of_not {o : Outage db} {op : ConfigOp} (h : ¬ o.fails op = true) :
    o.ans op = db.answer op := o.healthy op (eq_false_of_ne_true h)

/-- The file system does not fail. -/
theorem Outage.file (o : Outage db) (ref : String) :
    o.ans (.readSecretFile ref) = db.answer (.readSecretFile ref) := by
  refine Outage.healthy_of_not fun h => ?_
  exact o.broken _ h

/-- The instance of a provider, when neither its rows nor what is read for them failed. -/
theorem lastInstance_healthy {o : Outage db} {id : String}
    (hrows : ¬ o.fails .getProviders = true) (htls : ¬ o.fails .getTLSPolicies = true)
    (hcreds : ∀ p ∈ (o.ans .getProviders).rows, p.id = id → cipher = true → p.secretRef ≠ "" →
      ¬ o.fails (.getSecret (.provider p.id) p.secretRef) = true)
    (hhelo : ∀ p ∈ (o.ans .getProviders).rows, p.id = id → p.type = .direct →
      ¬ o.fails (.getSettingString "direct_helo") = true) :
    lastInstance P cipher o.ans id = lastInstance P cipher db.answer id := by
  unfold lastInstance
  rw [← Outage.healthy_of_not hrows]
  refine congrArg List.getLast? (List.filterMap_congr fun p hp => ?_)
  obtain ⟨hmem, hid⟩ := List.mem_filter.mp hp
  have hid := of_decide_eq_true hid
  have hcredsOf : credsOf P cipher p.secretRef (o.ans (.getSecret (.provider p.id) p.secretRef))
        (o.ans (.readSecretFile p.secretRef)) =
      credsOf P cipher p.secretRef (db.answer (.getSecret (.provider p.id) p.secretRef))
        (db.answer (.readSecretFile p.secretRef)) := by
    rw [o.file]
    by_cases href : p.secretRef = ""
    · unfold credsOf
      rw [if_pos href, if_pos href]
    · cases cipher with
      | false => rfl
      | true => rw [Outage.healthy_of_not (hcreds p hmem hid rfl href)]
  unfold instanceFor
  rw [hcredsOf, Outage.healthy_of_not htls]
  by_cases hdirect : p.type = .direct
  · rw [Outage.healthy_of_not (hhelo p hmem hid hdirect)]
  · -- only direct delivery reads the HELO name
    unfold newProvider
    cases htype : p.type with
    | direct => exact absurd htype hdirect
    | _ => rfl

/-- The signer of a domain, when neither the keys nor their secrets failed. -/
theorem lastSigner_healthy {o : Outage db} {d : String}
    (hrows : ¬ o.fails .getActiveDKIMKeys = true)
    (hkeys : ∀ k ∈ (o.ans .getActiveDKIMKeys).rows, lower k.domain = d → cipher = true →
      k.privateRef ≠ "" →
        ¬ o.fails (.getSecret (.dkimKey k.domain k.selector) k.privateRef) = true) :
    lastSigner P cipher o.ans d = lastSigner P cipher db.answer d := by
  unfold lastSigner
  cases cipher with
  | false => rfl
  | true =>
    rw [if_pos rfl, if_pos rfl, ← Outage.healthy_of_not hrows]
    refine congrArg List.getLast? (List.filterMap_congr fun k hk => ?_)
    obtain ⟨hmem, hd⟩ := List.mem_filter.mp hk
    unfold keySigner
    by_cases href : k.privateRef = ""
    · rw [if_pos href, if_pos href]
    · rw [if_neg href, if_neg href,
        Outage.healthy_of_not (hkeys k hmem (of_decide_eq_true hd) rfl href)]

/-- A reload that keeps the last good parts of a snapshot made from this very database changes
    nothing. -/
theorem KeepsLastGood.unchanged {o : Outage db} (h : KeepsLastGood P cipher prev o)
    (hprev : prev = (buildState P cipher).eval db.answer) :
    (buildState P cipher).eval o.ans = prev := by
  obtain ⟨hr, hl, hi, hc, hh, hs, hk⟩ := h
  have heval := buildState_eval P cipher o.ans
  have hgood := buildState_eval P cipher db.answer
  have hengine : ((buildState P cipher).eval o.ans).engine = prev.engine := by
    by_cases hfail : o.fails .getRoutingRules = true
    · exact hr hfail
    · rw [hprev, heval, hgood, Outage.healthy_of_not hfail]
  have hlimits : ((buildState P cipher).eval o.ans).limiter = prev.limiter ∧
      ((buildState P cipher).eval o.ans).provLimiter = prev.provLimiter := by
    by_cases hfail : o.fails .getRateLimits = true
    · exact hl hfail
    · rw [hprev, heval, hgood, Outage.healthy_of_not hfail]
      exact ⟨rfl, rfl⟩
  have hinstances : ∀ id, ((buildState P cipher).eval o.ans).instances id = prev.instances id := by
    intro id
    by_cases hrows : o.fails .getProviders = true
    · rw [hi (.inl hrows)]
    by_cases htls : o.fails .getTLSPolicies = true
    · rw [hi (.inr htls)]
    by_cases hcreds : ∀ p ∈ (o.ans .getProviders).rows, p.id = id → cipher = true →
        p.secretRef ≠ "" → ¬ o.fails (.getSecret (.provider p.id) p.secretRef) = true
    · by_cases hhelo : ∀ p ∈ (o.ans .getProviders).rows, p.id = id → p.type = .direct →
          ¬ o.fails (.getSettingString "direct_helo") = true
      · rw [hprev, heval, hgood]
        dsimp only
        rw [instancesOf_eq, instancesOf_eq, lastInstance_healthy hrows htls hcreds hhelo]
      · push Not at hhelo
        obtain ⟨p, hp, rfl, hdirect, hfail⟩ := hhelo
        exact hh hfail p hp hdirect
    · push Not at hcreds
      obtain ⟨p, hp, rfl, hcipher, hne, hfail⟩ := hcreds
      exact hc hcipher p hp hne hfail
  have hsigners : ∀ d,
      ((buildState P cipher).eval o.ans).dkimByDomain d = prev.dkimByDomain d := by
    intro d
    by_cases hrows : o.fails .getActiveDKIMKeys = true
    · rw [hs hrows]
    by_cases hkeys : ∀ k ∈ (o.ans .getActiveDKIMKeys).rows, lower k.domain = d → cipher = true →
        k.privateRef ≠ "" →
          ¬ o.fails (.getSecret (.dkimKey k.domain k.selector) k.privateRef) = true
    · rw [hprev, heval, hgood]
      dsimp only
      rw [signersOf_eq, signersOf_eq, lastSigner_healthy hrows hkeys]
    · push Not at hkeys
      obtain ⟨k, hk', rfl, hcipher, hne, hfail⟩ := hkeys
      exact hk hcipher k hk' hne hfail
  exact RouteState.ext hengine (funext hinstances) hlimits.1 hlimits.2 (funext hsigners)

/-- Reload after reload: the snapshots of a worker. -/
def reloading (P : Platform) (cipher : Bool) : LTS RouteState ((db : ConfigDb) × Outage db) where
  init st := st = {}
  step _ r st' := st' = (buildState P cipher).eval r.2.ans

/-- A reload with rows that suffice: of the tables the snapshot in use was built from, or one that
    could read neither the routing rules nor the providers, whatever has become of the tables. -/
def failedReload (P : Platform) (cipher : Bool) (st : RouteState)
    (r : (db : ConfigDb) × Outage db) : Prop :=
  RowsSuffice P cipher st r.2 ∧
    (st = (buildState P cipher).eval r.1.answer ∨
      (r.2.fails .getRoutingRules = true ∧ r.2.fails .getProviders = true))

/-- **Delivery reload.**  For every previous snapshot, every database and every way the reads fail:
    the parts whose reads failed are kept exactly when the rows that came back suffice for them.
    And in every sequence of reloads in which the rows suffice each time, whichever reads fail,
    every message keeps its chain, credentials included. -/
theorem delivery_reload_keeps_iff (P : Platform) (cipher : Bool) :
    (∀ (prev : RouteState) (db : ConfigDb) (o : Outage db),
      KeepsLastGood P cipher prev o ↔ RowsSuffice P cipher prev o) ∧
    ∀ st st' : RouteState, Steps (reloading P cipher) (failedReload P cipher) st st' →
      ∀ hints, st'.chain hints = st.chain hints := by
  refine ⟨fun prev db o => keeps_iff_suffice o, fun st st' h => ?_⟩
  induction h with
  | refl => exact fun _ => rfl
  | @head st s' s'' r hok hst _ ih =>
    intro hints
    have hkeep := (keeps_iff_suffice r.2).mpr hok.1
    have hst : s' = (buildState P cipher).eval r.2.ans := hst
    have hstep : s'.chain hints = st.chain hints := by
      rcases hok.2 with hsame | ⟨hrules, hprovs⟩
      · rw [hst, hkeep.unchanged hsame]
      · unfold RouteState.chain
        rw [hst, hkeep.routes hrules, hkeep.instances (.inl hprovs)]
    exact (ih hints).trans hstep

/-- One default route to direct delivery. -/
def routed : ConfigDb :=
  { providers := [⟨⟨"p1", "mx", .direct, "", "", ""⟩, true⟩]
    routingRules := [⟨"1", "", "", ["p1"], 0, true⟩] }

/-- The connection is lost when the last routing rule has been read. -/
def cutAtEnd : Outage routed where
  fails op := op = .getRoutingRules
  ans
    | .getRoutingRules => { routed.answer .getRoutingRules with err := true }
    | op => routed.answer op
  healthy op h := by
    cases op with
    | getRoutingRules => exact absurd h (by decide)
    | _ => rfl
  broken op h := by
    cases op with
    | getRoutingRules => exact ⟨rfl, List.prefix_rfl⟩
    | _ => exact absurd h (by simp)

/-- The route is kept when every rule came back, and the mail is sent. -/
theorem delivery_reload_keeps_iff_cut :
    KeepsLastGood .plain true ((buildState .plain true).eval routed.answer) cutAtEnd ∧
      ∀ hints, ((buildState .plain true).eval cutAtEnd.ans).chain hints =
        [.direct ⟨"mx", "localhost", tls12⟩] := by
  obtain ⟨hiff, hseq⟩ := delivery_reload_keeps_iff .plain true
  have hrules : ((buildState .plain true).eval routed.answer).engine =
      Engine.build (cutAtEnd.ans .getRoutingRules).rows := rfl
  have hother : ∀ op, op ≠ .getRoutingRules → ¬ cutAtEnd.fails op = true :=
    fun op hne h => hne (of_decide_eq_true h)
  have hsuffice : RowsSuffice .plain true ((buildState .plain true).eval routed.answer) cutAtEnd :=
    { routes := fun _ => routedBy_iff.mpr hrules
      limits := fun h => absurd h (hother _ (by simp))
      instances := fun h => by rcases h with h | h <;> exact absurd h (hother _ (by simp))
      credentials := fun _ _ _ _ h => absurd h (hother _ (by simp))
      helo := fun h => absurd h (hother _ (by simp))
      signers := fun h => absurd h (hother _ (by simp))
      keys := fun _ _ _ _ h => absurd h (hother _ (by simp)) }
  refine ⟨(hiff _ _ _).mpr hsuffice, fun hints => ?_⟩
  have hrun : Steps (reloading .plain true) (failedReload .plain true)
      ((buildState .plain true).eval routed.answer) ((buildState .plain true).eval cutAtEnd.ans) :=
    .one (l := ⟨routed, cutAtEnd⟩) ⟨hsuffice, .inl rfl⟩ rfl
  rw [hseq _ _ hrun hints, buildState_eval]
  have hsorted : (routed.answer .getRoutingRules).rows = [⟨"1", "", "", ["p1"], 0, true⟩] :=
    List.mergeSort_singleton _
  have htls : (routed.answer .getTLSPolicies).rows = [] := List.mergeSort_nil
  unfold RouteState.chain instancesOf
  rw [hsorted, htls]
  rfl

/-! ## When nothing comes back -/

/-- The database is away: every read of it fails at once. -/
def ConfigOp.isQuery : ConfigOp → Bool
  | .readSecretFile _ => false
  | _ => true

/-- A reload while the database is away. -/
def Outage.blackout (db : ConfigDb) : Outage db := .without db ConfigOp.isQuery fun _ => rfl

/-- A reload while the database is away leaves nothing. -/
theorem blackout_eval (P : Platform) (cipher : Bool) (db : ConfigDb) :
    (buildState P cipher).eval (Outage.blackout db).ans = {} := by
  rw [buildState_eval]
  have hsigners : signersOf P cipher (Outage.blackout db).ans = fun _ => none := by
    unfold signersOf
    cases cipher <;> rfl
  rw [hsigners]
  rfl

/-- It keeps the snapshot only when that was empty. -/
theorem blackout_keeps_iff : KeepsLastGood P cipher prev (Outage.blackout db) ↔ prev = {} := by
  have heval := blackout_eval P cipher db
  constructor
  · intro h
    have hi := h.instances (.inl rfl)
    have hs := h.signers rfl
    have hr := h.routes rfl
    obtain ⟨hl, hp⟩ := h.limits rfl
    rw [heval] at hi hs hr hl hp
    exact RouteState.ext hr.symm hi.symm hl.symm hp.symm hs.symm
  · rintro rfl
    refine ⟨?_, ?_, ?_, ?_, ?_, ?_, ?_⟩ <;> rw [heval]
    · exact fun _ => rfl
    · exact fun _ => ⟨rfl, rfl⟩
    · exact fun _ => rfl
    · exact fun _ _ _ _ _ => rfl
    · exact fun _ _ _ _ => rfl
    · exact fun _ => rfl
    · exact fun _ _ _ _ _ => rfl

end

/-- One default route and its provider; the database is away during a reload. -/
theorem blackout_loses_route :
    ¬ ∀ (P : Platform) (cipher : Bool) (prev : RouteState) (db : ConfigDb) (o : Outage db),
      KeepsLastGood P cipher prev o := by
  intro hclaim
  let prev : RouteState := { engine := { dflt := some ["p1"] } }
  have hempty := blackout_keeps_iff.mp (hclaim .plain true prev {} (Outage.blackout {}))
  have hroute : prev.engine.dflt = none := by rw [hempty]
  exact Option.some_ne_none _ hroute

end Novamail

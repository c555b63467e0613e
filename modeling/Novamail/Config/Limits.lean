/-
  Which row of `rate_limits` an attempt is charged to.

  A limiter keeps its buckets by name: the scope value of the row, lowercased, or `"*"`.  The rows
  of one limiter overwrite one another where their names meet, and a key that has no bucket of its
  own falls to `"*"`.  So a row is charged when it is the LAST of those under the name its attempts
  are looked up by, and there is only one name for an attempt, although several rows may speak of
  it: MAIL looks up `acct:<id>`, `ip:<address>` or `"*"`, delivery the recipient domain and the
  provider's name.  The domain is looked up once, before the chain is tried: the providers that come
  after a first `Send` are tried on no token of the domain.
-/
import Novamail.Config.Charges

namespace Novamail

open Novamail.Core

/-! ## The rows of a limiter -/

/-- The specs the loaders build each of them from. -/
def Gate.specs : Gate → List RateLimit → List RateSpec
  | inbound => InboundPolicy.inboundSpecs
  | domain => RouteState.outboundSpecs .recipientDomain
  | provider => RouteState.outboundSpecs .provider

/-- The rows of `rate_limits`, with `CHECK (per_second > 0)`, `CHECK (burst >= 1)` and
    `UNIQUE (direction, scope, scope_value)`. -/
structure LimitTable where
  rows : List RateLimit
  checks : ∀ r ∈ rows, 0 < r.perSecond ∧ 1 ≤ r.burst
  unique : rows.Pairwise fun r r' =>
    ¬ (r.direction = r'.direction ∧ r.scope = r'.scope ∧ r.scopeValue = r'.scopeValue)

/-- The rows that are read. -/
def LimitTable.enabled (t : LimitTable) : List RateLimit := t.rows.filter (·.enabled)

/-- The limiter that is built from the enabled rows. -/
def LimitTable.limiter (t : LimitTable) (g : Gate) : Limiter := Limiter.build (g.specs t.enabled)

/-- The spec of a row. -/
def RateLimit.spec (r : RateLimit) : RateSpec := ⟨r.scopeValue, r.perSecond, r.burst⟩

/-- The rows that reach a limiter: inbound every scope, outbound no global one. -/
def Gate.reads : Gate → RateLimit → Bool
  | inbound, r => r.direction = .inbound
  | domain, r => r.direction = .outbound ∧ r.scope = .recipientDomain
  | provider, r => r.direction = .outbound ∧ r.scope = .provider

/-- A loop that turns the rows of a kind into specs. -/
theorem filterMap_spec {p : RateLimit → Prop} [DecidablePred p] (rows : List RateLimit) :
    (rows.filterMap fun r => if p r then some r.spec else none) =
      (rows.filter fun r => p r).map RateLimit.spec := by
  induction rows with
  | nil => rfl
  | cons r rows ih =>
    rw [List.filterMap_cons, ih]
    by_cases h : p r
    · rw [if_pos h, List.filter_cons_of_pos (by simpa using h), List.map_cons]
    · rw [if_neg h, List.filter_cons_of_neg (by simpa using h)]

theorem Gate.specs_eq (g : Gate) (rows : List RateLimit) :
    g.specs rows = (rows.filter g.reads).map RateLimit.spec := by
  cases g with
  | inbound => exact filterMap_spec rows
  | domain => exact filterMap_spec rows
  | provider => exact filterMap_spec rows

/-! ## The row that is charged -/

/-- The rows kept under a name. -/
def kept (rows : List RateLimit) (name : String) : List RateLimit :=
  rows.filter fun r => r.spec.name = name

/-- The rows a key is looked up among: those under its own name, else those under `"*"`. -/
def lookup (rows : List RateLimit) (key : String) : List RateLimit :=
  if kept rows (lower key) = [] then kept rows "*" else kept rows (lower key)

/-- The row whose bucket a key is charged to. -/
def charged (rows : List RateLimit) (key : String) : Option RateLimit := (lookup rows key).getLast?

namespace Limiter

theorem build_named_rows (rows : List RateLimit) (name : String) :
    (build (rows.map RateLimit.spec)).named name =
      (kept rows name).getLast?.map fun r => r.spec.bucket := by
  rw [build_named, List.filter_map, List.getLast?_map, Option.map_map]
  rfl

/-- A key is looked up under its own name, then under `"*"`. -/
theorem build_bucket (specs : List RateSpec) (key : String) :
    (build specs).bucket key =
      match (build specs).named (lower key) with
      | some b => some (lower key, b)
      | none => ((build specs).named "*").map fun b => ("*", b) := by
  unfold bucket
  by_cases hstar : lower key = "*"
  · have hnamed : (build specs).named "*" = (build specs).dflt := if_pos rfl
    rw [hstar, build_byKey_star, hnamed]
    cases (build specs).dflt <;> rfl
  · have hnamed : (build specs).named (lower key) = (build specs).byKey (lower key) :=
      if_neg hstar
    have hdflt : (build specs).named "*" = (build specs).dflt := if_pos rfl
    exact hnamed ▸ hdflt ▸ rfl

/-- **The bucket is that of the row `charged` names.** -/
theorem build_bucket_rows (rows : List RateLimit) (key : String) :
    (build (rows.map RateLimit.spec)).bucket key =
      (charged rows key).map fun r => (r.spec.name, r.spec.bucket) := by
  have hname : ∀ name, ((kept rows name).getLast?.map fun r => (name, r.spec.bucket)) =
      (kept rows name).getLast?.map fun r => (r.spec.name, r.spec.bucket) := by
    intro name
    cases hlast : (kept rows name).getLast? with
    | none => rfl
    | some r =>
      have hr := (List.mem_filter.mp (List.mem_of_getLast? hlast)).2
      rw [Option.map_some, Option.map_some, of_decide_eq_true hr]
  rw [build_bucket, build_named_rows, build_named_rows]
  unfold charged lookup
  by_cases hkept : kept rows (lower key) = []
  · rw [if_pos hkept, hkept]
    exact (Option.map_map ..).trans (hname "*")
  · rw [if_neg hkept, ← hname]
    obtain ⟨r, hr⟩ := Option.isSome_iff_exists.mp (List.getLast?_isSome.mpr hkept)
    rw [hr]
    rfl

end Limiter

/-- The enabled rows of a limiter. -/
def LimitTable.rowsOf (t : LimitTable) (g : Gate) : List RateLimit := t.enabled.filter g.reads

theorem LimitTable.bucket_charged (t : LimitTable) (g : Gate) (key : String) :
    (t.limiter g).bucket key =
      (charged (t.rowsOf g) key).map fun r => (r.spec.name, r.spec.bucket) := by
  unfold limiter rowsOf
  rw [Gate.specs_eq]
  exact Limiter.build_bucket_rows ..

/-! ## The property and the condition -/

/-- A delivery attempt to this domain by this provider falls under the row. -/
def RateLimit.coversAttempt (domain provider : String) (r : RateLimit) : Bool :=
  match r.scope with
  | .recipientDomain => lower r.scopeValue = lower domain
  | .provider => r.scopeValue = provider
  | .global => true
  | .account | .ip => false

/-- The enabled rows of a direction. -/
def LimitTable.directed (t : LimitTable) (d : Direction) : List RateLimit :=
  t.enabled.filter (·.direction = d)

/-- The token is taken from the bucket of the row. -/
structure Charge.Takes (c : Charge) (t : LimitTable) (r : RateLimit) : Prop where
  row : charged (t.rowsOf c.gate) c.key = some r
  bucket : c.limiter.bucket c.key = some (r.spec.name, r.spec.bucket)

/-- The rows these tokens are taken from do not depend on the order of the rows. -/
def OrderFree (t : LimitTable) (asked : List Charge) : Prop :=
  ∀ t' : LimitTable, t'.rows.Perm t.rows → ∀ c ∈ asked,
    charged (t'.rowsOf c.gate) c.key = charged (t.rowsOf c.gate) c.key

/-- **The property, outbound.**  An attempt that has these tokens is charged to every row it falls
    under, whatever the order of the rows. -/
structure AttemptCharged (t : LimitTable) (domain provider : String)
    (asked : List Charge) : Prop where
  scope : ∀ r ∈ t.directed .outbound, r.coversAttempt domain provider = true →
    ∃ c ∈ asked, c.Takes t r
  order : OrderFree t asked

/-- The row names the key, up to case. -/
def RateLimit.names (key : String) (r : RateLimit) : Bool := lower r.scopeValue = lower key

/-- **The condition, outbound**, for an attempt that so many calls of `Send` came before.  No outbound
    row is global, no two rows name the domain, or the provider, in different case, and after a first
    `Send` no row names the domain. -/
structure AttemptAlone (t : LimitTable) (sends : Nat) (domain provider : String) : Prop where
  noGlobal : ∀ r ∈ t.directed .outbound, r.scope ≠ .global
  domain : ((t.rowsOf .domain).filter (·.names domain)).length ≤ if sends = 0 then 1 else 0
  provider : ((t.rowsOf .provider).filter (·.names provider)).length ≤ 1

/-! ## Snapshots of the table -/

/-- The snapshot that `buildInbound` makes of these limits. -/
def InboundPolicy.Built (p : InboundPolicy) (rows : List RateLimit) : Prop :=
  ∃ (P : Platform) (ans : (o : ConfigOp) → o.Ret), (ans .getRateLimits).rows = rows ∧
    (buildInbound P).eval ans = p

/-- The snapshot that `buildState` makes of these limits. -/
def RouteState.Built (st : RouteState) (rows : List RateLimit) : Prop :=
  ∃ (P : Platform) (cipher : Bool) (ans : (o : ConfigOp) → o.Ret),
    (ans .getRateLimits).rows = rows ∧ (buildState P cipher).eval ans = st

theorem InboundPolicy.Built.limiter {p : InboundPolicy} {rows : List RateLimit}
    (h : p.Built rows) : p.limiter = Limiter.build (Gate.inbound.specs rows) := by
  obtain ⟨P, ans, rfl, rfl⟩ := h
  rfl

theorem RouteState.Built.limiters {st : RouteState} {rows : List RateLimit} (h : st.Built rows) :
    st.limiter = Limiter.build (Gate.domain.specs rows) ∧
      st.provLimiter = Limiter.build (Gate.provider.specs rows) := by
  obtain ⟨P, cipher, ans, rfl, rfl⟩ := h
  rw [buildState_eval]
  exact ⟨rfl, rfl⟩

/-- What a call loads, if it loads a snapshot, was built from these limits. -/
def Loads (rows : List RateLimit) : (o : Op) → o.Ret → Prop
  | .ask .loadPolicy, policy => ∃ p, policy = some p ∧ p.Built rows
  | .ask .loadState, st => st.Built rows
  | _, _ => True

/-- The limiters that were loaded last are those of the table, and no policy was missing. -/
structure Meter.Current (m : Meter) (t : LimitTable) : Prop where
  limiters : ∀ g l, m.loaded g = some l → l = t.limiter g
  policed : m.unpoliced = false

/-- A limiter of the table is loaded. -/
theorem Meter.update_limiter {loaded : Gate → Option Limiter} {t : LimitTable} {g : Gate}
    {l : Limiter} (h : ∀ g l, loaded g = some l → l = t.limiter g) (hl : l = t.limiter g)
    (g' : Gate) (l' : Limiter) (hl' : Function.update loaded g (some l) g' = some l') :
    l' = t.limiter g' := by
  by_cases hg : g' = g
  · subst hg
    rw [Function.update_self] at hl'
    exact (Option.some.inj hl').symm.trans hl
  · rw [Function.update_of_ne hg] at hl'
    exact h g' l' hl'

/-- One more call. -/
theorem Meter.Current.note {m : Meter} {t : LimitTable} (h : m.Current t) {o : Op} {r : o.Ret}
    (hr : Loads t.enabled o r) : (m.note o r).Current t := by
  cases o with
  | write w => exact h
  | settle v => exact h
  | newID => exact h
  | ask q =>
    cases q with
    | loadPolicy =>
      obtain ⟨p, rfl, hp⟩ := hr
      exact ⟨Meter.update_limiter h.limiters hp.limiter,
        (Bool.or_false _).trans h.policed⟩
    | loadState =>
      have hst : RouteState.Built r t.enabled := hr
      exact ⟨Meter.update_limiter (Meter.update_limiter h.limiters hst.limiters.1) hst.limiters.2,
        h.policed⟩
    | _ => exact ⟨h.limiters, h.policed⟩

/-- The name of a row is `"*"` only for the scope value `"*"`. -/
theorem RateLimit.name_eq_star {r : RateLimit} : r.spec.name = "*" ↔ r.scopeValue = "*" := by
  constructor
  · intro h
    by_contra hne
    have hname : r.spec.name = lower r.scopeValue := if_neg hne
    exact lower_ne_star hne (hname ▸ h)
  · exact fun h => if_pos h

/-- A row is kept under its scope value, lowercased. -/
theorem RateLimit.name_eq_lower {r : RateLimit} {key : String} :
    r.spec.name = lower key ↔ lower r.scopeValue = lower key := by
  by_cases hstar : r.scopeValue = "*"
  · rw [RateLimit.name_eq_star.mpr hstar, hstar]
    have hlower : lower "*" = "*" := by decide
    rw [hlower]
  · have hname : r.spec.name = lower r.scopeValue := if_neg hstar
    rw [hname]

/-- The rows under the name of a key are those that name it. -/
theorem kept_lower (rows : List RateLimit) (key : String) :
    kept rows (lower key) = rows.filter (·.names key) :=
  List.filter_congr fun _ _ => decide_eq_decide.mpr RateLimit.name_eq_lower

theorem kept_star (rows : List RateLimit) :
    kept rows "*" = rows.filter (·.scopeValue = "*") :=
  List.filter_congr fun _ _ => decide_eq_decide.mpr RateLimit.name_eq_star

/-- A key is looked up among at most one row. -/
theorem lookup_le_one {rows : List RateLimit} {key : String} :
    (lookup rows key).length ≤ 1 ↔
      (rows.filter (·.names key)).length ≤ 1 ∧
        (rows.filter (·.names key) = [] → (rows.filter (·.scopeValue = "*")).length ≤ 1) := by
  unfold lookup
  rw [kept_lower, kept_star]
  by_cases hnil : rows.filter (·.names key) = []
  · rw [if_pos hnil, hnil]
    exact ⟨fun h => ⟨Nat.zero_le 1, fun _ => h⟩, fun h => h.2 rfl⟩
  · rw [if_neg hnil]
    exact ⟨fun h => ⟨h, fun h' => absurd h' hnil⟩, fun h => h.1⟩

/-- The rows a key is looked up among. -/
theorem mem_lookup {rows : List RateLimit} {key : String} {r : RateLimit} (hr : r ∈ rows) :
    r ∈ lookup rows key ↔
      r.names key = true ∨ (r.scopeValue = "*" ∧ rows.filter (·.names key) = []) := by
  unfold lookup
  rw [kept_lower, kept_star]
  by_cases hnil : rows.filter (·.names key) = []
  · rw [if_pos hnil, List.mem_filter]
    constructor
    · exact fun h => .inr ⟨of_decide_eq_true h.2, hnil⟩
    · rintro (h | h)
      · exact absurd (List.mem_filter.mpr ⟨hr, h⟩) (hnil ▸ List.not_mem_nil)
      · exact ⟨hr, decide_eq_true h.1⟩
  · rw [if_neg hnil, List.mem_filter]
    constructor
    · exact fun h => .inl h.2
    · rintro (h | h)
      · exact ⟨hr, h⟩
      · exact absurd h.2 hnil

/-! ## Order -/

/-- Rows in another order are looked up in another order. -/
theorem lookup_perm {rows rows' : List RateLimit} (h : rows'.Perm rows) (key : String) :
    (lookup rows' key).Perm (lookup rows key) := by
  have hkept : ∀ name, (kept rows' name).Perm (kept rows name) := fun name => h.filter _
  unfold lookup
  by_cases hnil : kept rows (lower key) = []
  · rw [if_pos hnil, if_pos (List.perm_nil.mp (hnil ▸ hkept _))]
    exact hkept "*"
  · have hnil' : kept rows' (lower key) ≠ [] := by
      intro h'
      have hperm := hkept (lower key)
      rw [h'] at hperm
      exact hnil (List.nil_perm.mp hperm)
    rw [if_neg hnil, if_neg hnil']
    exact hkept _

theorem lookup_sublist (rows : List RateLimit) (key : String) : (lookup rows key).Sublist rows := by
  unfold lookup
  split
  · exact List.filter_sublist
  · exact List.filter_sublist

/-- With one row at most, the order does not matter. -/
theorem charged_perm {rows rows' : List RateLimit} {key : String} (h : rows'.Perm rows)
    (hone : (lookup rows key).length ≤ 1) : charged rows' key = charged rows key := by
  have hperm := lookup_perm h key
  unfold charged
  match hlist : lookup rows key with
  | [] =>
    rw [hlist] at hperm
    rw [List.perm_nil.mp hperm]
  | [r] =>
    rw [hlist] at hperm
    rw [List.perm_singleton.mp hperm]
  | r :: r' :: rest =>
    rw [hlist] at hone
    exact absurd hone (by simp)

/-- Rows read backwards are looked up backwards. -/
theorem lookup_reverse (rows : List RateLimit) (key : String) :
    lookup rows.reverse key = (lookup rows key).reverse := by
  have hkept : ∀ name, kept rows.reverse name = (kept rows name).reverse :=
    fun name => List.filter_reverse ..
  unfold lookup
  rw [hkept, hkept]
  by_cases hnil : kept rows (lower key) = []
  · rw [if_pos hnil, if_pos (List.reverse_eq_nil_iff.mpr hnil)]
  · rw [if_neg hnil, if_neg fun h => hnil (List.reverse_eq_nil_iff.mp h)]

/-- Several different rows: read backwards, the first of them is charged, not the last. -/
theorem length_le_one_of_charged {rows : List RateLimit} {key : String} (hnodup : rows.Nodup)
    (h : charged rows.reverse key = charged rows key) : (lookup rows key).length ≤ 1 := by
  unfold charged at h
  rw [lookup_reverse, List.getLast?_reverse] at h
  have hnodup := hnodup.sublist (lookup_sublist rows key)
  match hlist : lookup rows key with
  | [] => exact Nat.zero_le 1
  | [r] => exact Nat.le_refl 1
  | r :: r' :: rest =>
    rw [hlist, List.head?_cons, List.getLast?_cons_cons] at h
    rw [hlist] at hnodup
    exact absurd (List.mem_of_getLast? h.symm) (List.nodup_cons.mp hnodup).1

/-! ## Enforcement -/

section
variable (t : LimitTable)

/-- The rows backwards. -/
def LimitTable.reverse : LimitTable where
  rows := t.rows.reverse
  checks r hr := t.checks r (List.mem_reverse.mp hr)
  unique := by
    rw [List.pairwise_reverse]
    refine t.unique.imp fun h hsame => h ?_
    exact ⟨hsame.1.symm, hsame.2.1.symm, hsame.2.2.symm⟩

theorem LimitTable.rowsOf_reverse (g : Gate) : t.reverse.rowsOf g = (t.rowsOf g).reverse := by
  unfold reverse rowsOf enabled
  rw [List.filter_reverse, List.filter_reverse]

theorem LimitTable.rowsOf_sublist (g : Gate) : (t.rowsOf g).Sublist t.rows :=
  List.filter_sublist.trans List.filter_sublist

theorem LimitTable.nodup : t.rows.Nodup :=
  t.unique.imp fun {r r'} h hsame => by
    subst hsame
    exact h ⟨rfl, rfl, rfl⟩

variable {t}

/-- The order does not matter exactly when a key is looked up among at most one row. -/
theorem LimitTable.order_iff {g : Gate} {key : String} :
    (∀ t' : LimitTable, t'.rows.Perm t.rows →
      charged (t'.rowsOf g) key = charged (t.rowsOf g) key) ↔
        (lookup (t.rowsOf g) key).length ≤ 1 := by
  constructor
  · intro h
    have hreverse := h t.reverse (List.reverse_perm _)
    rw [t.rowsOf_reverse] at hreverse
    exact length_le_one_of_charged (t.nodup.sublist (t.rowsOf_sublist g)) hreverse
  · intro h t' hperm
    exact charged_perm ((hperm.filter _).filter _) h

/-- What is charged, of at most one row. -/
theorem charged_of_mem {rows : List RateLimit} {key : String} {r : RateLimit}
    (hone : (lookup rows key).length ≤ 1) (hr : r ∈ lookup rows key) :
    charged rows key = some r := by
  unfold charged
  match hlist : lookup rows key with
  | [] =>
    rw [hlist] at hr
    cases hr
  | [r'] =>
    rw [hlist] at hr
    rw [List.mem_singleton.mp hr]
    rfl
  | r' :: r'' :: rest =>
    rw [hlist] at hone
    exact absurd hone (by simp)

/-- A token asked for at the limiter of the table is taken from the row that is charged. -/
theorem Charge.takes_iff {c : Charge} (hc : c.limiter = t.limiter c.gate) {r : RateLimit} :
    c.Takes t r ↔ charged (t.rowsOf c.gate) c.key = some r := by
  refine ⟨Charge.Takes.row, fun h => ⟨h, ?_⟩⟩
  rw [hc, t.bucket_charged, h]
  rfl

theorem orderFree_iff {asked : List Charge} :
    OrderFree t asked ↔ ∀ c ∈ asked, (lookup (t.rowsOf c.gate) c.key).length ≤ 1 :=
  ⟨fun h c hc => LimitTable.order_iff.mp fun t' ht' => h t' ht' c hc,
    fun h t' ht' c hc => LimitTable.order_iff.mpr (h c hc) t' ht'⟩

/-- The two outbound limiters. -/
structure Gate.Outbound (g : Gate) (scope : Scope) : Prop where
  reads : ∀ r, g.reads r = true ↔ r.direction = .outbound ∧ r.scope = scope

theorem Gate.domain_outbound : Gate.domain.Outbound .recipientDomain :=
  ⟨fun _ => decide_eq_true_iff⟩

theorem Gate.provider_outbound : Gate.provider.Outbound .provider :=
  ⟨fun _ => decide_eq_true_iff⟩

namespace Gate.Outbound

variable {g : Gate} {scope : Scope}

theorem mem_rowsOf (hg : g.Outbound scope) {r : RateLimit} (hr : r ∈ t.directed .outbound)
    (hscope : r.scope = scope) : r ∈ t.rowsOf g := by
  obtain ⟨hmem, hdir⟩ := List.mem_filter.mp hr
  exact List.mem_filter.mpr ⟨hmem, (hg.reads r).mpr ⟨of_decide_eq_true hdir, hscope⟩⟩

/-- At most one row of an outbound limiter is the default. -/
theorem star_le_one (hg : g.Outbound scope) :
    ((t.rowsOf g).filter (·.scopeValue = "*")).length ≤ 1 := by
  have hpair := (t.unique.sublist (t.rowsOf_sublist g)).sublist
    (List.filter_sublist (p := (·.scopeValue = "*")))
  have hmem : ∀ r ∈ (t.rowsOf g).filter (·.scopeValue = "*"),
      r.direction = .outbound ∧ r.scope = scope ∧ r.scopeValue = "*" := by
    intro r hr
    obtain ⟨hrow, hvalue⟩ := List.mem_filter.mp hr
    obtain ⟨hdir, hscope⟩ := (hg.reads r).mp (List.mem_filter.mp hrow).2
    exact ⟨hdir, hscope, of_decide_eq_true hvalue⟩
  generalize (t.rowsOf g).filter (·.scopeValue = "*") = stars at hpair hmem ⊢
  match stars with
  | [] => exact Nat.zero_le 1
  | [r] => exact Nat.le_refl 1
  | r :: r' :: rest =>
    obtain ⟨hdir, hscope, hvalue⟩ := hmem r List.mem_cons_self
    obtain ⟨hdir', hscope', hvalue'⟩ := hmem r' (List.mem_cons_of_mem _ List.mem_cons_self)
    exact absurd ⟨hdir.trans hdir'.symm, hscope.trans hscope'.symm, hvalue.trans hvalue'.symm⟩
      ((List.pairwise_cons.mp hpair).1 r' List.mem_cons_self)

/-- So the order matters for a key exactly when two rows name it. -/
theorem lookup_le_one_iff (hg : g.Outbound scope) {key : String} :
    (lookup (t.rowsOf g) key).length ≤ 1 ↔ ((t.rowsOf g).filter (·.names key)).length ≤ 1 :=
  lookup_le_one.trans (and_iff_left fun _ => hg.star_le_one)

/-- A row of the limiter that names the key, alone, is charged. -/
theorem charged_of_name (hg : g.Outbound scope) {r : RateLimit} {key : String}
    (hone : ((t.rowsOf g).filter (·.names key)).length ≤ 1) (hr : r ∈ t.directed .outbound)
    (hscope : r.scope = scope) (hvalue : lower r.scopeValue = lower key) :
    charged (t.rowsOf g) key = some r :=
  charged_of_mem (hg.lookup_le_one_iff.mpr hone)
    ((mem_lookup (hg.mem_rowsOf hr hscope)).mpr (.inl (decide_eq_true hvalue)))

end Gate.Outbound

/-- The tokens of an attempt that so many calls of `Send` came before. -/
def LimitTable.tokens (t : LimitTable) (sends : Nat) (domain provider : String) : List Charge :=
  (if sends = 0 then [⟨.domain, t.limiter .domain, domain⟩] else []) ++
    [⟨.provider, t.limiter .provider, provider⟩]

theorem LimitTable.mem_tokens {sends : Nat} {domain provider : String} {c : Charge} :
    c ∈ t.tokens sends domain provider ↔
      (sends = 0 ∧ c = ⟨.domain, t.limiter .domain, domain⟩) ∨
        c = ⟨.provider, t.limiter .provider, provider⟩ := by
  unfold LimitTable.tokens
  rw [List.mem_append, List.mem_singleton]
  split
  · rename_i hfirst
    rw [List.mem_singleton, and_iff_right hfirst]
  · rename_i hlater
    rw [eq_false hlater, false_and]
    exact or_congr_left (iff_false_intro List.not_mem_nil)

section
variable {sends : Nat} {domain provider : String}

theorem AttemptAlone.charged (h : AttemptAlone t sends domain provider) :
    AttemptCharged t domain provider (t.tokens sends domain provider) := by
  have hdom := Gate.domain_outbound
  have hprov := Gate.provider_outbound
  obtain ⟨hglobal, hd, hp⟩ := h
  refine ⟨fun r hr hcovers => ?_, orderFree_iff.mpr fun c hc => ?_⟩
  · unfold RateLimit.coversAttempt at hcovers
    cases hscope : r.scope with
    | recipientDomain =>
      rw [hscope] at hcovers
      have hnames : r ∈ (t.rowsOf .domain).filter (·.names domain) :=
        List.mem_filter.mpr ⟨hdom.mem_rowsOf hr hscope, hcovers⟩
      have hfirst : sends = 0 := by
        by_contra hlater
        rw [if_neg hlater, Nat.le_zero, List.length_eq_zero_iff] at hd
        rw [hd] at hnames
        cases hnames
      rw [if_pos hfirst] at hd
      refine ⟨⟨.domain, t.limiter .domain, domain⟩, LimitTable.mem_tokens.mpr (.inl ⟨hfirst, rfl⟩),
        (Charge.takes_iff rfl).mpr ?_⟩
      exact hdom.charged_of_name hd hr hscope (of_decide_eq_true hcovers)
    | provider =>
      rw [hscope] at hcovers
      have hvalue : r.scopeValue = provider := of_decide_eq_true hcovers
      refine ⟨⟨.provider, t.limiter .provider, provider⟩, LimitTable.mem_tokens.mpr (.inr rfl),
        (Charge.takes_iff rfl).mpr ?_⟩
      exact hprov.charged_of_name hp hr hscope (congrArg lower hvalue)
    | global => exact absurd hscope (hglobal r hr)
    | account | ip =>
      rw [hscope] at hcovers
      cases hcovers
  · rcases LimitTable.mem_tokens.mp hc with ⟨hfirst, rfl⟩ | rfl
    · rw [if_pos hfirst] at hd
      exact hdom.lookup_le_one_iff.mpr hd
    · exact hprov.lookup_le_one_iff.mpr hp

end

end

/-! ## Runs -/

/-- A session of the account `alice`. -/
def aliceSession : Ingress.Session := { auth := some ⟨"7", "alice", [], []⟩ }

end Novamail

/-
  `checkDomain`: which providers an SPF record is checked for, and which the mail leaves through.

  The check derives the providers of a domain from the tables with a precedence of its own; the
  delivery service routes with `routing.Engine`.  The two are compared here.
-/
import Novamail.Admin.Spf
import Novamail.Config.Tables

namespace Novamail.Deliverability

/-! ## The two readers of the tables -/

/-- `routing_rules`. -/
structure RuleRow where
  id : String
  recipientDomain : Option String
  senderDomain : Option String
  providerChain : List String
  priority : Int
  enabled : Bool
  deriving DecidableEq, Repr

/-- The row as `GetRoutingRules` scans it, with `coalesce(…, '')`. -/
def RuleRow.scan (r : RuleRow) : RoutingRule :=
  { id := r.id, recipientDomain := r.recipientDomain.getD "", senderDomain := r.senderDomain.getD ""
    providerChain := r.providerChain, priority := r.priority, enabled := r.enabled }

/-- `GetRoutingRules`. -/
def engineRules (rows : List RuleRow) : List RoutingRule :=
  (ConfigDb.answer { routingRules := rows.map RuleRow.scan } .getRoutingRules).rows

/-- The engine the delivery service routes with. -/
def engine (rows : List RuleRow) : Engine := .build (engineRules rows)

/-- The provider ids of the domain's own rules:
    `where sender_domain = $1 and enabled order by priority`, all their chains together. -/
def ownIds (rows : List RuleRow) (domain : String) : List String :=
  ((rows.filter fun r => r.senderDomain = some domain && r.enabled).mergeSort
    fun a b => a.priority ≤ b.priority).flatMap (·.providerChain)

/-- `routedProviderTypes`.  No order is asked of `select distinct`; it is that of the table here. -/
def routedProviderTypes (rows : List RuleRow) (providers : List ProviderEntry) (domain : String) :
    List ProviderType :=
  let ids := ownIds rows domain
  if ids ≠ [] then
    ((providers.filter fun p => p.row.id ∈ ids && p.enabled).map (·.row.type)).eraseDups
  else ((providers.filter (·.enabled)).map (·.row.type)).eraseDups

/-- `required` of `checkDomain`. -/
def required (rows : List RuleRow) (providers : List ProviderEntry) (domain : String) :
    List String :=
  ((routedProviderTypes rows providers domain).filterMap providerMechanism).eraseDups

/-- The SPF report of `checkDomain`, from the TXT records that were resolved. -/
def spfReport (rows : List RuleRow) (providers : List ProviderEntry) (domain : String)
    (txts : List String) : RecordReport :=
  gradeSpf txts (required rows providers domain)

/-! ## Required mechanisms -/

/-- An enabled provider of one of these ids has this mechanism. -/
def Has (providers : List ProviderEntry) (ids : List String) (m : String) : Prop :=
  ∃ p ∈ providers, p.enabled = true ∧ p.row.id ∈ ids ∧ providerMechanism p.row.type = some m

section

variable {rows : List RuleRow} {providers : List ProviderEntry} {domain m : String}

theorem mem_required_of_own (hown : ownIds rows domain ≠ []) :
    m ∈ required rows providers domain ↔ Has providers (ownIds rows domain) m := by
  unfold required routedProviderTypes Has
  simp only [if_pos hown, List.mem_eraseDups, List.mem_filterMap, List.mem_map, List.mem_filter]
  constructor
  · rintro ⟨type, ⟨p, ⟨hp, hkeep⟩, rfl⟩, hm⟩
    obtain ⟨hid, hon⟩ := Bool.and_eq_true_iff.mp hkeep
    exact ⟨p, hp, hon, of_decide_eq_true hid, hm⟩
  · rintro ⟨p, hp, hon, hid, hm⟩
    exact ⟨p.row.type, ⟨p, ⟨hp, by simp [hid, hon]⟩, rfl⟩, hm⟩

theorem mem_required_of_none (hown : ownIds rows domain = []) :
    m ∈ required rows providers domain ↔
      ∃ p ∈ providers, p.enabled = true ∧ providerMechanism p.row.type = some m := by
  unfold required routedProviderTypes
  simp only [hown, ne_eq, not_true_eq_false, if_false, List.mem_eraseDups, List.mem_filterMap,
    List.mem_map, List.mem_filter]
  constructor
  · rintro ⟨type, ⟨p, ⟨hp, hon⟩, rfl⟩, hm⟩
    exact ⟨p, hp, hon, hm⟩
  · rintro ⟨p, hp, hon, hm⟩
    exact ⟨p.row.type, ⟨p, ⟨hp, hon⟩, rfl⟩, hm⟩

end

/-! ## The verdict and the route -/

/-- The verdict agrees with the router: when the record of the domain is graded ok, every enabled
    provider on the chain of a message from the domain was checked for. -/
def Agrees (rows : List RuleRow) (providers : List ProviderEntry) (domain : String) : Prop :=
  ∀ txts, (spfReport rows providers domain txts).status = .ok →
    ∀ recipientDomain, ∀ p ∈ providers, p.enabled = true →
      p.row.id ∈ (engine rows).resolve recipientDomain domain →
        ∀ m, providerMechanism p.row.type = some m → m ∈ required rows providers domain

/-- The rules for the domain as a sender's are what the check takes them for: spelled as the domain
    is, and for every recipient. -/
structure Plain (rows : List RuleRow) (domain : String) : Prop where
  named : domain ≠ ""
  spelled : ∀ r ∈ rows, r.scan.live = true → lower r.scan.senderDomain = lower domain →
    r.senderDomain = some domain ∧ r.scan.recipientDomain = ""

section

variable {rows : List RuleRow} {providers : List ProviderEntry} {domain recipientDomain : String}

theorem mem_engineRules {q : RoutingRule} :
    q ∈ engineRules rows ↔ ∃ r ∈ rows, r.scan = q ∧ q.enabled = true := by
  unfold engineRules ConfigDb.answer
  simp only [List.mem_mergeSort, List.mem_filter, List.mem_map]
  constructor
  · rintro ⟨⟨r, hr, rfl⟩, hon⟩
    exact ⟨r, hr, rfl, hon⟩
  · rintro ⟨r, hr, rfl, hon⟩
    exact ⟨⟨r, hr, rfl⟩, hon⟩

/-- What is on the chain of an enabled rule that names the domain is among the ids of the check. -/
theorem mem_ownIds {r : RuleRow} (hr : r ∈ rows) (hon : r.enabled = true)
    (hnames : r.senderDomain = some domain) {id : String} (hid : id ∈ r.providerChain) :
    id ∈ ownIds rows domain := by
  refine List.mem_flatMap.mpr ⟨r, List.mem_mergeSort.mpr (List.mem_filter.mpr ⟨hr, ?_⟩), hid⟩
  simp [hnames, hon]

theorem exists_of_ownIds (h : ownIds rows domain ≠ []) :
    ∃ r ∈ rows, r.senderDomain = some domain ∧ r.scan.live = true := by
  obtain ⟨id, hid⟩ := List.exists_mem_of_ne_nil _ h
  obtain ⟨r, hr, hchain⟩ := List.mem_flatMap.mp hid
  obtain ⟨hrow, hkeep⟩ := List.mem_filter.mp (List.mem_mergeSort.mp hr)
  obtain ⟨hnames, hon⟩ := Bool.and_eq_true_iff.mp hkeep
  refine ⟨r, hrow, of_decide_eq_true hnames, Bool.and_eq_true_iff.mpr ⟨hon, ?_⟩⟩
  have hne : r.scan.providerChain ≠ [] := List.ne_nil_of_mem hchain
  simpa using hne

/-- Where the domain has a chain of its own, what the router resolves without a recipient rule is on
    such a chain. -/
theorem mem_ownIds_of_resolve (hplain : Plain rows domain) (hown : ownIds rows domain ≠ [])
    (hno : ∀ q ∈ engineRules rows, q.forRecipient (lower recipientDomain) = false) {id : String}
    (hid : id ∈ (engine rows).resolve recipientDomain domain) : id ∈ ownIds rows domain := by
  unfold engine at hid
  rw [Engine.resolve_build, Engine.ruleFor, List.find?_eq_none.mpr fun q hq => by simp [hno q hq],
    Option.none_or] at hid
  cases hsend : (engineRules rows).find? (·.forSender (lower domain)) with
  | some q =>
    rw [hsend] at hid
    have hkind := List.find?_some hsend
    simp only [RoutingRule.forSender, Bool.and_eq_true, beq_iff_eq] at hkind
    obtain ⟨r, hr, rfl, hon⟩ := mem_engineRules.mp (List.mem_of_find?_eq_some hsend)
    exact mem_ownIds hr hon (hplain.spelled r hr hkind.1.1.1 hkind.2).1 hid
  | none =>
    -- the rule with a chain of its own is one that the router files under the sender
    obtain ⟨r, hr, hnames, hlive⟩ := exists_of_ownIds hown
    have hsender : r.scan.senderDomain = domain := by
      show r.senderDomain.getD "" = domain
      rw [hnames, Option.getD_some]
    have hrecipient := (hplain.spelled r hr hlive (by rw [hsender])).2
    have hfor : r.scan.forSender (lower domain) = true := by
      unfold RoutingRule.forSender
      rw [hlive, hrecipient, hsender]
      simp [hplain.named]
    have hin := mem_engineRules.mpr ⟨r, hr, rfl, (Bool.and_eq_true_iff.mp hlive).1⟩
    exact absurd hfor (List.find?_eq_none.mp hsend r.scan hin)

/-- **An ok verdict covers the routes by the sender's domain.**  When the record of the domain is
    graded ok, a message from it that no recipient-domain rule takes leaves only through providers
    whose mechanism, if it is known, was required and is a term of the record. -/
theorem spf_verdict_agrees {txts : List String} (hplain : Plain rows domain)
    (hok : (spfReport rows providers domain txts).status = .ok)
    (hno : ∀ q ∈ engineRules rows, q.forRecipient (lower recipientDomain) = false)
    {p : ProviderEntry} (hp : p ∈ providers) (hon : p.enabled = true)
    (hroute : p.row.id ∈ (engine rows).resolve recipientDomain domain) {m : String}
    (hm : providerMechanism p.row.type = some m) :
    m ∈ required rows providers domain ∧
      ∃ spf ∈ txts, isSpf spf = true ∧ ∃ t ∈ terms spf, lower t = lower m := by
  have hrequired : m ∈ required rows providers domain := by
    by_cases hown : ownIds rows domain = []
    · exact (mem_required_of_none hown).mpr ⟨p, hp, hon, hm⟩
    · exact (mem_required_of_own hown).mpr
        ⟨p, hp, hon, mem_ownIds_of_resolve hplain hown hno hroute, hm⟩
  obtain ⟨spf, hone, hmissing, -⟩ := gradeSpf_ok.mp hok
  have hspf : spf ∈ txts.filter isSpf := by
    rw [hone]
    exact List.mem_singleton_self spf
  obtain ⟨hin, hversion⟩ := List.mem_filter.mp hspf
  have hterm := List.filter_eq_nil_iff.mp hmissing m hrequired
  simp only [decide_not, Bool.not_eq_true', decide_eq_false_iff_not, not_not] at hterm
  obtain ⟨t, ht, hlow⟩ := List.mem_map.mp hterm
  exact ⟨hrequired, spf, hin, hversion, t, ht, hlow⟩

end

/-! ## Two tables -/

/-- Mail from the domain goes through provider 1, but that for `gmail.com` through provider 2. -/
def splitRules : List RuleRow :=
  [{ id := "a", recipientDomain := none, senderDomain := some "example.com"
     providerChain := ["1"], priority := 100, enabled := true },
   { id := "b", recipientDomain := some "gmail.com", senderDomain := none
     providerChain := ["2"], priority := 100, enabled := true }]

/-- Provider 1 is SES, provider 2 is Gmail. -/
def twoProviders : List ProviderEntry :=
  [{ row := { id := "1", name := "ses", type := .ses, endpoint := "", authMode := "", secretRef := "" }
     enabled := true },
   { row := { id := "2", name := "gmail", type := .gmail, endpoint := "", authMode := ""
              secretRef := "" }
     enabled := true }]

theorem engineRules_split : engineRules splitRules = splitRules.map RuleRow.scan :=
  List.mergeSort_of_pairwise (by decide)

/-- Mail to any other domain goes by the rule of the sender, which is what the record was checked
    for. -/
theorem spf_verdict_agrees_split :
    (spfReport splitRules twoProviders "example.com"
      ["v=spf1 include:amazonses.com -all"]).status = .ok ∧
    (engine splitRules).resolve "web.de" "example.com" = ["1"] ∧
    "include:amazonses.com" ∈ required splitRules twoProviders "example.com" := by
  have hok : (spfReport splitRules twoProviders "example.com"
      ["v=spf1 include:amazonses.com -all"]).status = .ok := by decide +kernel
  have hplain : Plain splitRules "example.com" := ⟨by decide, by decide⟩
  have hno : ∀ q ∈ engineRules splitRules, q.forRecipient (lower "web.de") = false := by
    rw [engineRules_split]
    decide
  have hroute : (engine splitRules).resolve "web.de" "example.com" = ["1"] := by
    unfold engine
    rw [engineRules_split]
    decide
  have hmem := spf_verdict_agrees hplain hok hno (p := twoProviders[0]) (by decide) rfl
    (by rw [hroute]; decide) rfl
  exact ⟨hok, hroute, hmem.1⟩

/-- A record that authorizes SES alone is graded ok, while mail to `gmail.com` leaves through
    Gmail. -/
theorem ok_without_recipient_route : ¬Agrees splitRules twoProviders "example.com" := by
  intro hagrees
  have hok : (spfReport splitRules twoProviders "example.com"
      ["v=spf1 include:amazonses.com -all"]).status = .ok := by decide +kernel
  have hroute : "2" ∈ (engine splitRules).resolve "gmail.com" "example.com" := by
    unfold engine
    rw [engineRules_split]
    decide
  have hmem := hagrees _ hok "gmail.com" twoProviders[1] (by decide) rfl hroute
    "include:_spf.google.com" rfl
  exact absurd hmem (by decide +kernel)

end Novamail.Deliverability

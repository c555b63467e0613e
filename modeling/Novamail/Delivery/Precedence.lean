/-
  `routing.Resolve` against its precedence: recipient-domain rule, sender-domain rule, default.

  What the package promises is a scan of the rules for the first of a kind; what it does is to look
  into three indexes.  The two agree for every list of rules.  What the indexes forget is the second
  domain of a rule that has both: such a rule is filed under its recipient domain alone.
-/
import Novamail.Admin.Deliverability

namespace Novamail.Engine

/-! ## The precedence -/

/-- The rule takes part: it is enabled and has a chain. -/
def Usable (q : RoutingRule) : Prop := q.enabled = true ∧ q.providerChain ≠ []

/-- A rule for this recipient domain. -/
def ByRecipient (recipientDomain : String) (q : RoutingRule) : Prop :=
  Usable q ∧ q.recipientDomain ≠ "" ∧ lower q.recipientDomain = lower recipientDomain

/-- A rule without a recipient domain, for this sender domain. -/
def BySender (senderDomain : String) (q : RoutingRule) : Prop :=
  Usable q ∧ q.recipientDomain = "" ∧ q.senderDomain ≠ "" ∧
    lower q.senderDomain = lower senderDomain

/-- A rule with neither domain. -/
def Neither (q : RoutingRule) : Prop := Usable q ∧ q.recipientDomain = "" ∧ q.senderDomain = ""

/-- The first rule of a kind. -/
def First (kind : RoutingRule → Prop) (rules : List RoutingRule) (q : RoutingRule) : Prop :=
  ∃ before after, rules = before ++ q :: after ∧ kind q ∧ ∀ x ∈ before, ¬kind x

/-- The rule that the precedence picks for a message. -/
inductive Picks (rules : List RoutingRule) (recipientDomain senderDomain : String) :
    RoutingRule → Prop
  | recipient (q) (h : First (ByRecipient recipientDomain) rules q) :
      Picks rules recipientDomain senderDomain q
  | sender (q) (hno : ∀ x ∈ rules, ¬ByRecipient recipientDomain x)
      (h : First (BySender senderDomain) rules q) : Picks rules recipientDomain senderDomain q
  | dflt (q) (hno : ∀ x ∈ rules, ¬ByRecipient recipientDomain x ∧ ¬BySender senderDomain x)
      (h : First Neither rules q) : Picks rules recipientDomain senderDomain q

/-- Two rules that compete for one place of an index. -/
def Competes (q d : RoutingRule) : Prop :=
  (q.recipientDomain ≠ "" ∧ d.recipientDomain ≠ "" ∧
      lower q.recipientDomain = lower d.recipientDomain) ∨
    (q.recipientDomain = "" ∧ d.recipientDomain = "" ∧ q.senderDomain ≠ "" ∧ d.senderDomain ≠ "" ∧
      lower q.senderDomain = lower d.senderDomain) ∨
    (q.recipientDomain = "" ∧ d.recipientDomain = "" ∧ q.senderDomain = "" ∧ d.senderDomain = "")

/-! ### The kinds as the indexes test them -/

theorem live_iff (q : RoutingRule) : q.live = true ↔ Usable q := by
  simp [RoutingRule.live, Usable]

theorem forRecipient_iff (recipientDomain : String) (q : RoutingRule) :
    q.forRecipient (lower recipientDomain) = true ↔ ByRecipient recipientDomain q := by
  simp [RoutingRule.forRecipient, ByRecipient, live_iff, and_assoc]

theorem forSender_iff (senderDomain : String) (q : RoutingRule) :
    q.forSender (lower senderDomain) = true ↔ BySender senderDomain q := by
  simp [RoutingRule.forSender, BySender, live_iff, and_assoc]

theorem isDefault_iff (q : RoutingRule) : q.isDefault = true ↔ Neither q := by
  simp [RoutingRule.isDefault, Neither, live_iff, and_assoc]

section

variable {rules : List RoutingRule} {recipientDomain senderDomain : String} {q : RoutingRule}
variable {test : RoutingRule → Bool} {kind : RoutingRule → Prop}

theorem find_iff_first (htest : ∀ x, test x = true ↔ kind x) :
    rules.find? test = some q ↔ First kind rules q := by
  rw [List.find?_eq_some_iff_append]
  constructor
  · rintro ⟨hq, before, after, hrules, hbefore⟩
    refine ⟨before, after, hrules, (htest q).mp hq, ?_⟩
    intro x hx hkind
    have hno := hbefore x hx
    rw [(htest x).mpr hkind] at hno
    exact absurd hno (by decide)
  · rintro ⟨before, after, hrules, hq, hbefore⟩
    refine ⟨(htest q).mpr hq, before, after, hrules, ?_⟩
    intro x hx
    have hno : ¬test x = true := fun h => hbefore x hx ((htest x).mp h)
    simpa using hno

theorem find_eq_none_iff (htest : ∀ x, test x = true ↔ kind x) :
    rules.find? test = none ↔ ∀ x ∈ rules, ¬kind x := by
  rw [List.find?_eq_none]
  constructor
  · intro hno x hx hkind
    exact hno x hx ((htest x).mpr hkind)
  · intro hno x hx h
    exact hno x hx ((htest x).mp h)

/-- The rule that wins in the indexes is the one the precedence picks. -/
theorem ruleFor_iff_picks :
    ruleFor rules recipientDomain senderDomain = some q ↔
      Picks rules recipientDomain senderDomain q := by
  unfold ruleFor
  constructor
  · intro h
    cases hrec : rules.find? (·.forRecipient (lower recipientDomain)) with
    | some r =>
      rw [hrec, Option.some_or] at h
      cases h
      exact .recipient q ((find_iff_first (forRecipient_iff recipientDomain)).mp hrec)
    | none =>
      have hnorec := (find_eq_none_iff (forRecipient_iff recipientDomain)).mp hrec
      cases hsend : rules.find? (·.forSender (lower senderDomain)) with
      | some r =>
        rw [hrec, hsend, Option.none_or, Option.some_or] at h
        cases h
        exact .sender q hnorec ((find_iff_first (forSender_iff senderDomain)).mp hsend)
      | none =>
        have hnosend := (find_eq_none_iff (forSender_iff senderDomain)).mp hsend
        rw [hrec, hsend, Option.none_or, Option.none_or] at h
        exact .dflt q (fun x hx => ⟨hnorec x hx, hnosend x hx⟩)
          ((find_iff_first isDefault_iff).mp h)
  · intro h
    cases h with
    | recipient hfirst =>
      rw [(find_iff_first (forRecipient_iff recipientDomain)).mpr hfirst, Option.some_or]
    | sender hno hfirst =>
      rw [(find_eq_none_iff (forRecipient_iff recipientDomain)).mpr hno,
        (find_iff_first (forSender_iff senderDomain)).mpr hfirst, Option.none_or, Option.some_or]
    | dflt hno hfirst =>
      rw [(find_eq_none_iff (forRecipient_iff recipientDomain)).mpr fun x hx => (hno x hx).1,
        (find_eq_none_iff (forSender_iff senderDomain)).mpr fun x hx => (hno x hx).2,
        (find_iff_first isDefault_iff).mpr hfirst, Option.none_or, Option.none_or]

/-- The chain resolved is that of the rule picked. -/
theorem resolve_of_picks (h : Picks rules recipientDomain senderDomain q) :
    (build rules).resolve recipientDomain senderDomain = q.providerChain := by
  rw [resolve_build, ruleFor_iff_picks.mpr h]
  rfl

/-- No rule of any kind, no chain. -/
theorem resolve_of_none (hrec : ∀ x ∈ rules, ¬ByRecipient recipientDomain x)
    (hsend : ∀ x ∈ rules, ¬BySender senderDomain x) (hdflt : ∀ x ∈ rules, ¬Neither x) :
    (build rules).resolve recipientDomain senderDomain = [] := by
  rw [resolve_build]
  unfold ruleFor
  rw [(find_eq_none_iff (forRecipient_iff recipientDomain)).mpr hrec,
    (find_eq_none_iff (forSender_iff senderDomain)).mpr hsend,
    (find_eq_none_iff isDefault_iff).mpr hdflt]
  rfl

end

/-! ### Rules without influence -/

/-- A rule that no index would take where it stands can be left out. -/
theorem build_drop {before after : List RoutingRule} {d : RoutingRule}
    (h : (build before).add d = build before) :
    build (before ++ d :: after) = build (before ++ after) := by
  have hsplit : ∀ rest, build (before ++ rest) = rest.foldl add (build before) :=
    fun rest => List.foldl_append
  rw [hsplit, hsplit, List.foldl_cons, h]

/-- A rule that is disabled or has no chain is skipped. -/
theorem add_of_not_usable (e : Engine) {d : RoutingRule} (h : ¬Usable d) : e.add d = e := by
  have hskip : (!d.enabled || d.providerChain.isEmpty) = true := by
    rw [d.skipped_eq, Bool.eq_false_iff.mpr (mt (live_iff d).mp h)]
    rfl
  unfold add
  rw [if_pos hskip]

/-- A place that a rule could fill is filled once a competitor of that rule has been read. -/
theorem find_isSome_of_mem {before : List RoutingRule} {q : RoutingRule}
    (test : RoutingRule → Bool) (hq : q ∈ before) (htest : test q = true) :
    ∃ x, before.find? test = some x :=
  Option.isSome_iff_exists.mp (List.find?_isSome.mpr ⟨q, hq, htest⟩)

/-- A rule behind a usable competitor changes nothing. -/
theorem add_of_competes {before : List RoutingRule} {q d : RoutingRule} (hq : q ∈ before)
    (husable : Usable q) (hcompetes : Competes q d) : (build before).add d = build before := by
  have hlive := (live_iff q).mpr husable
  unfold add
  split
  · rfl
  rcases hcompetes with ⟨hqr, hdr, hsame⟩ | ⟨hqr, hdr, hqs, hds, hsame⟩ | ⟨hqr, hdr, hqs, hds⟩
  · rw [if_pos hdr, build_recipient]
    obtain ⟨x, hx⟩ := find_isSome_of_mem (·.forRecipient (lower d.recipientDomain)) hq
      (by simp [RoutingRule.forRecipient, hlive, hqr, hsame])
    rw [hx]
    rfl
  · rw [if_neg (not_not.mpr hdr), if_pos hds, build_sender]
    obtain ⟨x, hx⟩ := find_isSome_of_mem (·.forSender (lower d.senderDomain)) hq
      (by simp [RoutingRule.forSender, hlive, hqr, hqs, hsame])
    rw [hx]
    rfl
  · rw [if_neg (not_not.mpr hdr), if_neg (not_not.mpr hds), build_dflt]
    obtain ⟨x, hx⟩ := find_isSome_of_mem (·.isDefault) hq
      (by simp [RoutingRule.isDefault, hlive, hqr, hqs])
    rw [hx]
    rfl

/-- **The indexes refine the scan.**  The chain is that of the first rule for the recipient domain,
    else of the first for the sender domain, else of the first with neither, else there is none; a
    rule that is disabled, has no chain or comes behind a competitor leaves the engine as it is. -/
theorem resolve_refines_scan (rules : List RoutingRule) (recipientDomain senderDomain : String) :
    (∀ q, First (ByRecipient recipientDomain) rules q →
      (build rules).resolve recipientDomain senderDomain = q.providerChain) ∧
    ((∀ x ∈ rules, ¬ByRecipient recipientDomain x) →
      (∀ q, First (BySender senderDomain) rules q →
        (build rules).resolve recipientDomain senderDomain = q.providerChain) ∧
      ((∀ x ∈ rules, ¬BySender senderDomain x) →
        (∀ q, First Neither rules q →
          (build rules).resolve recipientDomain senderDomain = q.providerChain) ∧
        ((∀ x ∈ rules, ¬Neither x) →
          (build rules).resolve recipientDomain senderDomain = []))) ∧
    (∀ before d after, rules = before ++ d :: after →
      (¬Usable d ∨ ∃ q ∈ before, Usable q ∧ Competes q d) →
        build (before ++ after) = build rules) := by
  refine ⟨?_, ?_, ?_⟩
  · intro q h
    exact resolve_of_picks (.recipient q h)
  · intro hrec
    refine ⟨fun q h => resolve_of_picks (.sender q hrec h), fun hsend => ⟨?_, ?_⟩⟩
    · intro q h
      exact resolve_of_picks (.dflt q (fun x hx => ⟨hrec x hx, hsend x hx⟩) h)
    · intro hdflt
      exact resolve_of_none hrec hsend hdflt
  · rintro before d after rfl h
    refine (build_drop ?_).symm
    rcases h with hskip | ⟨q, hq, husable, hcompetes⟩
    · exact add_of_not_usable _ hskip
    · exact add_of_competes hq husable hcompetes

/-- The rules of the precedence test, with a disabled rule and a duplicate. -/
def precedenceRules : List RoutingRule :=
  [{ id := "0", recipientDomain := "vip.com", senderDomain := "", providerChain := ["p-off"]
     priority := 20, enabled := false },
   { id := "1", recipientDomain := "vip.com", senderDomain := "", providerChain := ["p-recip"]
     priority := 10, enabled := true },
   { id := "2", recipientDomain := "", senderDomain := "me.com", providerChain := ["p-send"]
     priority := 5, enabled := true },
   { id := "3", recipientDomain := "VIP.com", senderDomain := "", providerChain := ["p-late"]
     priority := 2, enabled := true }]

/-- Rule 1 routes `VIP.COM`, and without the duplicate the engine is the same. -/
theorem precedence_of_test :
    (build precedenceRules).resolve "VIP.COM" "me.com" = ["p-recip"] ∧
      build (precedenceRules.take 3) = build precedenceRules :=
  have htheorem := resolve_refines_scan precedenceRules "VIP.COM" "me.com"
  ⟨htheorem.1 precedenceRules[1] ⟨precedenceRules.take 1, precedenceRules.drop 2, rfl,
      by unfold ByRecipient Usable; decide, by unfold ByRecipient Usable; decide⟩,
    htheorem.2.2 (precedenceRules.take 3) precedenceRules[3] [] rfl (.inr ⟨precedenceRules[1],
      by decide, by unfold Usable; decide, .inl (by decide)⟩)⟩

/-! ## Rules with both domains -/

/-- The message satisfies both conditions of the rule; an empty one asks nothing. -/
def Fits (recipientDomain senderDomain : String) (q : RoutingRule) : Prop :=
  (q.recipientDomain = "" ∨ lower q.recipientDomain = lower recipientDomain) ∧
    (q.senderDomain = "" ∨ lower q.senderDomain = lower senderDomain)

/-- The rule that routes a message is one it satisfies, and none that it satisfies is passed over
    for a rule of higher priority that matched on one domain only. -/
def Conjunctive (rules : List RoutingRule) (recipientDomain senderDomain : String) : Prop :=
  (∀ q, Picks rules recipientDomain senderDomain q → Fits recipientDomain senderDomain q) ∧
    ∀ before q after, rules = before ++ q :: after → Picks rules recipientDomain senderDomain q →
      (∃ x ∈ after, Usable x ∧ Fits recipientDomain senderDomain x) →
        Fits recipientDomain senderDomain q

/-- **When the conditions are a conjunction.**  The rule routed by has the chain resolved, and both
    its conditions hold iff the first rule for the recipient domain, if there is one, has no sender
    domain or that of the message. -/
theorem conjunctive_iff (rules : List RoutingRule) (recipientDomain senderDomain : String) :
    (∀ q, Picks rules recipientDomain senderDomain q →
      (build rules).resolve recipientDomain senderDomain = q.providerChain) ∧
    (Conjunctive rules recipientDomain senderDomain ↔
      ∀ q, First (ByRecipient recipientDomain) rules q →
        q.senderDomain = "" ∨ lower q.senderDomain = lower senderDomain) := by
  refine ⟨fun q => resolve_of_picks, ?_, ?_⟩
  · intro h q hfirst
    exact (h.1 q (.recipient q hfirst)).2
  · intro hcond
    have hfits : ∀ q, Picks rules recipientDomain senderDomain q →
        Fits recipientDomain senderDomain q := by
      intro q hpicks
      cases hpicks with
      | recipient hfirst =>
        obtain ⟨before, after, -, ⟨-, -, hsame⟩, -⟩ := id hfirst
        exact ⟨.inr hsame, hcond q hfirst⟩
      | sender hno hfirst =>
        obtain ⟨before, after, -, ⟨-, hempty, -, hsame⟩, -⟩ := hfirst
        exact ⟨.inl hempty, .inr hsame⟩
      | dflt hno hfirst =>
        obtain ⟨before, after, -, ⟨-, hempty, hempty'⟩, -⟩ := hfirst
        exact ⟨.inl hempty, .inl hempty'⟩
    refine ⟨hfits, ?_⟩
    intro before q after hrules hpicks hpassed
    exact hfits q hpicks

/-- Mail from `a.com` to `x.com` has a provider of its own, all other mail to `x.com` another. -/
def tenantRules : List RoutingRule :=
  [{ id := "1", recipientDomain := "x.com", senderDomain := "a.com", providerChain := ["tenant"]
     priority := 1, enabled := true },
   { id := "2", recipientDomain := "x.com", senderDomain := "", providerChain := ["shared"]
     priority := 2, enabled := true }]

/-- Mail from `a.com` itself is routed by a rule it satisfies. -/
theorem conjunctive_tenant : Conjunctive tenantRules "x.com" "a.com" := by
  refine (conjunctive_iff tenantRules "x.com" "a.com").2.mpr ?_
  rintro q ⟨before, after, hrules, -, hno⟩
  match before, hrules with
  | [], hrules =>
    cases hrules
    exact .inr rfl
  | x :: before, hrules =>
    -- rule 1 is for the recipient domain, so nothing behind it is the first
    have hx : tenantRules[0] = x := (List.cons.inj hrules).1
    refine absurd ?_ (hno x List.mem_cons_self)
    rw [← hx]
    unfold ByRecipient Usable
    decide

/-- Mail from `b.com` leaves through the provider of `a.com`, past the rule that fits. -/
theorem routed_through_tenant :
    (build tenantRules).resolve "x.com" "b.com" = ["tenant"] ∧
      ¬Conjunctive tenantRules "x.com" "b.com" := by
  refine ⟨by decide, ?_⟩
  intro h
  have hpicks : Picks tenantRules "x.com" "b.com" tenantRules[0] := by
    refine .recipient _ ⟨[], tenantRules.drop 1, rfl, ?_, nofun⟩
    unfold ByRecipient Usable
    decide
  have hfits := h.1 _ hpicks
  unfold Fits at hfits
  exact absurd hfits (by decide)

end Novamail.Engine

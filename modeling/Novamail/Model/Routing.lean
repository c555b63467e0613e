/-
  `internal/routing` and `internal/ratelimit`: the two indexes built from configuration rows.

  Both are maps filled by one pass over the rows.  The routing engine keeps the FIRST rule of a
  domain (the rows come sorted by priority), the limiter the LAST spec of a key.
-/
import Mathlib.Data.List.Induction
import Mathlib.Logic.Function.Basic
import Novamail.Model.Message

namespace Novamail

/-! ## Routing -/

/-- `model.RoutingRule`. -/
structure RoutingRule where
  id : String
  recipientDomain : String
  senderDomain : String
  providerChain : List String
  priority : Int
  enabled : Bool
  deriving DecidableEq, Repr

/-- `routing.Engine`: chains by recipient domain, by sender domain, and the default chain. -/
@[ext] structure Engine where
  recipient : String → Option (List String) := fun _ => none
  sender : String → Option (List String) := fun _ => none
  dflt : Option (List String) := none

namespace Engine

/-- Index one rule: the body of the loop of `routing.Build`. -/
def add (e : Engine) (r : RoutingRule) : Engine :=
  if !r.enabled || r.providerChain.isEmpty then e
  else if r.recipientDomain ≠ "" then
    match e.recipient (lower r.recipientDomain) with
    | some _ => e
    | none =>
      { e with recipient :=
          Function.update e.recipient (lower r.recipientDomain) (some r.providerChain) }
  else if r.senderDomain ≠ "" then
    match e.sender (lower r.senderDomain) with
    | some _ => e
    | none =>
      { e with sender := Function.update e.sender (lower r.senderDomain) (some r.providerChain) }
  else
    match e.dflt with
    | some _ => e
    | none => { e with dflt := some r.providerChain }

/-- `routing.Build`. -/
def build (rules : List RoutingRule) : Engine := rules.foldl add {}

/-- `Engine.Resolve`: recipient-domain rule, then sender-domain rule, then the default. -/
def resolve (e : Engine) (recipientDomain senderDomain : String) : List String :=
  match e.recipient (lower recipientDomain) with
  | some c => c
  | none =>
    match e.sender (lower senderDomain) with
    | some c => c
    | none => e.dflt.getD []

end Engine

/-! ### The rule that wins

`add` never replaces a chain, so each of the three maps holds the first rule of its kind. -/

namespace RoutingRule

/-- `Build` does not skip the rule. -/
def live (r : RoutingRule) : Bool := r.enabled && !r.providerChain.isEmpty

/-- A recipient-domain rule, for this domain in lowercase. -/
def forRecipient (d : String) (r : RoutingRule) : Bool :=
  r.live && r.recipientDomain != "" && lower r.recipientDomain == d

/-- A sender-domain rule, for this domain in lowercase. -/
def forSender (d : String) (r : RoutingRule) : Bool :=
  r.live && r.recipientDomain == "" && r.senderDomain != "" && lower r.senderDomain == d

/-- A rule with no domains. -/
def isDefault (r : RoutingRule) : Bool := r.live && r.recipientDomain == "" && r.senderDomain == ""

theorem skipped_eq (r : RoutingRule) : (!r.enabled || r.providerChain.isEmpty) = !r.live := by
  simp [live]

end RoutingRule

namespace Engine

theorem add_recipient (e : Engine) (r : RoutingRule) (d : String) :
    (e.add r).recipient d =
      (e.recipient d).or (if r.forRecipient d then some r.providerChain else none) := by
  unfold add RoutingRule.forRecipient
  rw [r.skipped_eq]
  cases hlive : r.live with
  | false => simp
  | true =>
    rw [if_neg (by decide)]
    by_cases hrec : r.recipientDomain = ""
    · -- a sender rule or a default leaves the recipients alone
      rw [if_neg (not_not.mpr hrec)]
      by_cases hsend : r.senderDomain = ""
      · rw [if_neg (not_not.mpr hsend)]
        cases hd : e.dflt <;> simp [hrec]
      · rw [if_pos hsend]
        cases hd : e.sender (lower r.senderDomain) <;> simp [hrec]
    · rw [if_pos hrec]
      by_cases hsame : lower r.recipientDomain = d
      · subst hsame
        cases hd : e.recipient (lower r.recipientDomain) <;> simp [hrec, hd]
      · cases hd : e.recipient (lower r.recipientDomain) <;>
          simp [hsame, Function.update_of_ne (Ne.symm hsame)]

theorem add_sender (e : Engine) (r : RoutingRule) (d : String) :
    (e.add r).sender d = (e.sender d).or (if r.forSender d then some r.providerChain else none) := by
  unfold add RoutingRule.forSender
  rw [r.skipped_eq]
  cases hlive : r.live with
  | false => simp
  | true =>
    rw [if_neg (by decide)]
    by_cases hrec : r.recipientDomain = ""
    · rw [if_neg (not_not.mpr hrec)]
      by_cases hsend : r.senderDomain = ""
      · rw [if_neg (not_not.mpr hsend)]
        cases hd : e.dflt <;> simp [hsend]
      · rw [if_pos hsend]
        by_cases hsame : lower r.senderDomain = d
        · subst hsame
          cases hd : e.sender (lower r.senderDomain) <;> simp [hrec, hsend, hd]
        · cases hd : e.sender (lower r.senderDomain) <;>
            simp [hsame, Function.update_of_ne (Ne.symm hsame)]
    · rw [if_pos hrec]
      cases hd : e.recipient (lower r.recipientDomain) <;> simp [hrec]

theorem add_dflt (e : Engine) (r : RoutingRule) :
    (e.add r).dflt = e.dflt.or (if r.isDefault then some r.providerChain else none) := by
  unfold add RoutingRule.isDefault
  rw [r.skipped_eq]
  cases hlive : r.live with
  | false => simp
  | true =>
    rw [if_neg (by decide)]
    by_cases hrec : r.recipientDomain = ""
    · rw [if_neg (not_not.mpr hrec)]
      by_cases hsend : r.senderDomain = ""
      · rw [if_neg (not_not.mpr hsend)]
        cases hd : e.dflt <;> simp [hrec, hsend, hd]
      · rw [if_pos hsend]
        cases hd : e.sender (lower r.senderDomain) <;> simp [hsend]
    · rw [if_pos hrec]
      cases hd : e.recipient (lower r.recipientDomain) <;> simp [hrec]

/-- A part of the engine that each rule of a kind fills, if it is still empty, is what the first
    rule of that kind fills it with. -/
theorem build_first {α : Type} (part : Engine → Option α) {kind : RoutingRule → Bool}
    {fill : RoutingRule → α} (hempty : part {} = none)
    (hadd : ∀ e r, part (e.add r) = (part e).or (if kind r then some (fill r) else none))
    (rules : List RoutingRule) : part (build rules) = (rules.find? kind).map fill := by
  induction rules using List.reverseRecOn with
  | nil => exact hempty
  | append_singleton rules r ih =>
    have hstep : build (rules ++ [r]) = (build rules).add r := List.foldl_append
    have hlast : (if kind r then some (fill r) else none) = ([r].find? kind).map fill := by
      by_cases hr : kind r = true
      · rw [if_pos hr, List.find?_cons_of_pos hr, Option.map_some]
      · rw [if_neg hr, List.find?_cons_of_neg hr, List.find?_nil, Option.map_none]
    rw [hstep, hadd, ih, hlast, List.find?_append, Option.map_or]

theorem build_recipient (rules : List RoutingRule) (d : String) :
    (build rules).recipient d = (rules.find? (·.forRecipient d)).map (·.providerChain) :=
  build_first (·.recipient d) rfl (fun e r => add_recipient e r d) rules

theorem build_sender (rules : List RoutingRule) (d : String) :
    (build rules).sender d = (rules.find? (·.forSender d)).map (·.providerChain) :=
  build_first (·.sender d) rfl (fun e r => add_sender e r d) rules

theorem build_dflt (rules : List RoutingRule) :
    (build rules).dflt = (rules.find? (·.isDefault)).map (·.providerChain) :=
  build_first (·.dflt) rfl add_dflt rules

/-- The rule that routes a pair of domains. -/
def ruleFor (rules : List RoutingRule) (recipientDomain senderDomain : String) :
    Option RoutingRule :=
  (rules.find? (·.forRecipient (lower recipientDomain))).or
    ((rules.find? (·.forSender (lower senderDomain))).or (rules.find? (·.isDefault)))

/-- **The chain resolved is that of the rule that wins**, and empty where no rule does. -/
theorem resolve_build (rules : List RoutingRule) (recipientDomain senderDomain : String) :
    (build rules).resolve recipientDomain senderDomain =
      ((ruleFor rules recipientDomain senderDomain).map (·.providerChain)).getD [] := by
  unfold resolve ruleFor
  rw [build_recipient, build_sender, build_dflt]
  cases rules.find? (·.forRecipient (lower recipientDomain)) with
  | some r => rfl
  | none =>
    cases rules.find? (·.forSender (lower senderDomain)) with
    | some r => rfl
    | none => rfl

end Engine

/-! ## Rate limits -/

/-- `ratelimit.Spec`. -/
structure RateSpec where
  key : String
  perSecond : Rat
  burst : Int
  deriving DecidableEq, Repr

/-- The configuration of one token bucket (`rate.NewLimiter`). -/
structure Bucket where
  perSecond : Rat
  burst : Int
  deriving DecidableEq, Repr

/-- `ratelimit.Limiter`: one bucket per key, and the `"*"` bucket for every other key. -/
@[ext] structure Limiter where
  byKey : String → Option Bucket := fun _ => none
  dflt : Option Bucket := none

namespace Limiter

/-- One pass of the loop of `ratelimit.Build`. -/
def add (l : Limiter) (s : RateSpec) : Limiter :=
  if s.key = "*" then { l with dflt := some ⟨s.perSecond, s.burst⟩ }
  else { l with byKey := Function.update l.byKey (lower s.key) (some ⟨s.perSecond, s.burst⟩) }

/-- `ratelimit.Build`. -/
def build (specs : List RateSpec) : Limiter := specs.foldl add {}

/-- `Limiter.bucket`, with the name the bucket is kept under: none means unlimited. -/
def bucket (l : Limiter) (key : String) : Option (String × Bucket) :=
  match l.byKey (lower key) with
  | some b => some (lower key, b)
  | none => l.dflt.map fun b => ("*", b)

/-- The bucket kept under a name. -/
def named (l : Limiter) (name : String) : Option Bucket :=
  if name = "*" then l.dflt else l.byKey name

end Limiter

/-- The bucket a spec asks for. -/
def RateSpec.bucket (s : RateSpec) : Bucket := ⟨s.perSecond, s.burst⟩

/-- The name that bucket is kept under. -/
def RateSpec.name (s : RateSpec) : String := if s.key = "*" then "*" else lower s.key

namespace Limiter

/-- The last spec of a name wins. -/
theorem build_named (specs : List RateSpec) (name : String) :
    (build specs).named name =
      ((specs.filter fun s => s.name = name).getLast?).map RateSpec.bucket := by
  induction specs using List.reverseRecOn with
  | nil =>
    unfold named
    split <;> rfl
  | append_singleton specs s ih =>
    have hstep : build (specs ++ [s]) = (build specs).add s := List.foldl_append
    have hadd : ((build specs).add s).named name =
        if s.name = name then some s.bucket else (build specs).named name := by
      unfold add named RateSpec.name
      by_cases hkey : s.key = "*"
      · rw [if_pos hkey, if_pos hkey]
        by_cases hname : name = "*"
        · rw [if_pos hname, if_pos hname.symm]
          rfl
        · rw [if_neg hname, if_neg (Ne.symm hname), if_neg hname]
      · have hlower := lower_ne_star hkey
        rw [if_neg hkey, if_neg hkey]
        by_cases hname : name = "*"
        · rw [if_pos hname, if_neg (hname ▸ hlower), if_pos hname]
        · rw [if_neg hname, if_neg hname]
          by_cases hsame : lower s.key = name
          · rw [if_pos hsame, hsame]
            exact Function.update_self ..
          · rw [if_neg hsame]
            exact Function.update_of_ne (Ne.symm hsame) ..
    rw [hstep, hadd, List.filter_append]
    by_cases hname : s.name = name
    · rw [if_pos hname, List.filter_cons_of_pos (by simpa using hname), List.filter_nil,
        List.getLast?_concat]
      rfl
    · rw [if_neg hname, List.filter_cons_of_neg (by simpa using hname), List.filter_nil,
        List.append_nil]
      exact ih

/-- No spec is kept by key under the name of the default. -/
theorem build_byKey_star (specs : List RateSpec) : (build specs).byKey "*" = none := by
  induction specs using List.reverseRecOn with
  | nil => rfl
  | append_singleton specs s ih =>
    have hstep : build (specs ++ [s]) = (build specs).add s := List.foldl_append
    rw [hstep]
    unfold add
    by_cases hkey : s.key = "*"
    · rw [if_pos hkey]
      exact ih
    · rw [if_neg hkey]
      exact (Function.update_of_ne (Ne.symm (lower_ne_star hkey)) ..).trans ih

/-- The bucket of a key is the one kept under its name. -/
theorem build_bucket_named {specs : List RateSpec} {key name : String} {b : Bucket}
    (h : (build specs).bucket key = some (name, b)) : (build specs).named name = some b := by
  unfold bucket at h
  cases hkey : (build specs).byKey (lower key) with
  | none =>
    rw [hkey] at h
    obtain ⟨b', hb', hpair⟩ := Option.map_eq_some_iff.mp h
    cases hpair
    unfold named
    rw [if_pos rfl]
    exact hb'
  | some b' =>
    rw [hkey] at h
    cases h
    have hne : lower key ≠ "*" := by
      intro hstar
      rw [hstar, build_byKey_star] at hkey
      cases hkey
    unfold named
    rw [if_neg hne]
    exact hkey

/-- Every bucket is that of a spec. -/
theorem exists_spec_of_named {specs : List RateSpec} {name : String} {b : Bucket}
    (h : (build specs).named name = some b) : ∃ s ∈ specs, s.name = name ∧ s.bucket = b := by
  rw [build_named] at h
  obtain ⟨s, hs, hb⟩ := Option.map_eq_some_iff.mp h
  obtain ⟨hmem, hname⟩ := List.mem_filter.mp (List.mem_of_getLast? hs)
  exact ⟨s, hmem, of_decide_eq_true hname, hb⟩

end Limiter

end Novamail

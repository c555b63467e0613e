/-
  What a reload of the inbound policy lets through when some of its reads fail.

  A failed read leaves fewer rows, and the fields of a snapshot do not agree on what fewer rows
  mean: fewer trusted clients relay less, but without a relay domain there is no gate, without its
  row an address is not suppressed and a key is not limited.  So a reload fails closed exactly when
  the rows it got still say what those three fields need to say.
-/
import Mathlib.Algebra.Order.BigOperators.Group.List
import Mathlib.Algebra.Order.Group.Nat
import Novamail.Config.Limits

namespace Novamail

open Novamail.Core InboundPolicy

/-! ## A MAIL and a RCPT under a snapshot -/

/-- A MAIL as a client makes it: from this address, after AUTH for this account if there is one. -/
structure MailFrom where
  ip : Option IP
  account : Option Ingress.Account
  sender : String

namespace MailFrom

/-- The domain of the sender. -/
def domain (m : MailFrom) : String := addrDomain m.sender

/-- The session in which it is made, when the connection was opened under this snapshot. -/
def session (m : MailFrom) (p : InboundPolicy) : Ingress.Session :=
  { Ingress.newSession (some p) m.ip with auth := m.account }

/-- The key it is charged to. -/
def rateKey (m : MailFrom) (P : Platform) : String :=
  match m.account, m.ip with
  | some a, _ => "acct:" ++ a.id
  | none, some ip => "ip:" ++ P.ipString ip
  | none, none => "*"

/-- The account, or else the first of these clients in whose range the address is, may send for the
    domain. -/
def identified (m : MailFrom) (clients : List TrustedClient) : Bool :=
  match m.account, m.ip with
  | some a, _ => sendersAllow a.allowedSenderDomains m.domain
  | none, some ip => (clients.find? fun c => c.net.contains ip).any fun c =>
      sendersAllow c.senders m.domain
  | none, none => false

end MailFrom

/-- The snapshot accepts the MAIL, with the buckets in this state. -/
def InboundPolicy.accepts (p : InboundPolicy) (P : Platform) (delays : Ingress.Delays)
    (m : MailFrom) : Bool :=
  (Ingress.mailCheck P (some p) delays (m.session p) m.sender).isNone

/-- The snapshot accepts the RCPT. -/
def InboundPolicy.takes (p : InboundPolicy) (addr : String) : Bool :=
  (Ingress.rcpt (some p) {} addr []).1.isNone

section
variable {p : InboundPolicy} {P : Platform} {delays : Ingress.Delays} {m : MailFrom}

/-- The gate and the bucket let the MAIL through. -/
theorem policyCheck_isNone : (Ingress.policyCheck P delays (m.session p) m.domain p).isNone = true ↔
    p.relayDomainOK m.domain = true ∧
      ∀ x, p.limiter.bucket (m.rateKey P) = some x → delays x.1 x.2 = 0 := by
  have hkey : (m.session p).rateKey P = m.rateKey P := rfl
  unfold Ingress.policyCheck
  rw [hkey]
  cases p.relayDomainOK m.domain with
  | false => simp
  | true =>
    cases p.limiter.bucket (m.rateKey P) with
    | none => simp
    | some x =>
      obtain ⟨name, b⟩ := x
      by_cases hd : delays name b = 0
      · simp [hd]
      · simp [hd, Nat.pos_of_ne_zero hd]

/-- The session has an identity that may send for the domain. -/
theorem identified_iff : m.identified p.clients = true ↔
    ((m.session p).auth.isNone && (m.session p).client.isNone) = false ∧
      sendersAllow (m.session p).allowedSenders m.domain = true := by
  unfold MailFrom.identified MailFrom.session Ingress.Session.allowedSenders Ingress.newSession
  cases m.account with
  | some a => simp
  | none =>
    cases m.ip with
    | none => simp [matchClient]
    | some ip =>
      cases hc : p.clients.find? fun c => c.net.contains ip with
      | none => simp [matchClient, hc]
      | some c => simp [matchClient, hc]

/-- **A MAIL is accepted** when its identity may send for the domain, the domain passes the gate,
    and the bucket of its key, if there is one, has a token. -/
theorem InboundPolicy.accepts_iff : p.accepts P delays m = true ↔
    m.identified p.clients = true ∧ p.relayDomainOK m.domain = true ∧
      ∀ x, p.limiter.bucket (m.rateKey P) = some x → delays x.1 x.2 = 0 := by
  rw [identified_iff, and_assoc, ← policyCheck_isNone]
  have hdomain : domainOf [m.sender] = m.domain := rfl
  unfold accepts Ingress.mailCheck
  rw [hdomain]
  cases (m.session p).auth.isNone && (m.session p).client.isNone with
  | true => simp
  | false =>
    cases sendersAllow (m.session p).allowedSenders m.domain with
    | false => simp
    | true => simp

theorem InboundPolicy.takes_iff {addr : String} :
    p.takes addr = true ↔ lower addr ∉ p.suppressed := by
  unfold takes Ingress.rcpt
  by_cases h : lower addr ∈ p.suppressed <;> simp [h]

/-- A MAIL that a part of the clients identifies, the first of them all, all clients identify. -/
theorem MailFrom.identified_of_prefix {rows all : List RelayClient} (hrows : rows <+: all)
    (h : m.identified (trustedClients P rows) = true) :
    m.identified (trustedClients P all) = true := by
  obtain ⟨rest, rfl⟩ := hrows
  unfold identified at h ⊢
  cases hacc : m.account with
  | some a =>
    rw [hacc] at h
    exact h
  | none =>
    cases hip : m.ip with
    | none =>
      rw [hacc, hip] at h
      cases h
    | some ip =>
      rw [hacc, hip] at h
      dsimp only at h ⊢
      unfold trustedClients at h ⊢
      rw [List.filterMap_append, List.find?_append]
      obtain ⟨c, hc, hs⟩ := (Option.any_eq_true _ _).mp h
      rw [hc]
      exact hs

end

/-! ## When a reload fails closed -/

/-- **The property.**  With the reads failing as they do, the snapshot that `buildInbound` makes
    accepts no MAIL and no RCPT that both the previous snapshot, whatever the state of its buckets,
    and the snapshot of an undisturbed reload reject. -/
structure FailsClosed (P : Platform) (prev : InboundPolicy) {db : ConfigDb} (o : Outage db) :
    Prop where
  mail : ∀ (m : MailFrom) (delays before : Ingress.Delays),
    ((buildInbound P).eval o.ans).accepts P delays m = true →
      prev.accepts P before m = true ∨ ((buildInbound P).eval db.answer).accepts P delays m = true
  rcpt : ∀ addr, ((buildInbound P).eval o.ans).takes addr = true →
    prev.takes addr = true ∨ ((buildInbound P).eval db.answer).takes addr = true

/-- These relay domains let the domain pass. -/
def passes (domains : List String) (domain : String) : Prop :=
  domains = [] ∨ lower domain ∈ domains.map lower

/-- The bucket these rate limits give a key. -/
def bucketOf (limits : List RateLimit) (key : String) : Option (String × Bucket) :=
  (Limiter.build (inboundSpecs limits)).bucket key

theorem passes_iff {p : InboundPolicy} {domains : List String} {domain : String}
    (h : p.relayDomains = domains.map lower) :
    p.relayDomainOK domain = true ↔ passes domains domain := by
  unfold InboundPolicy.relayDomainOK passes
  rw [h]
  cases domains with
  | nil => simp
  | cons d ds => simp

/-- What fails closed, in the buckets: a MAIL that gets past what was read either got past the
    previous snapshot without a bucket, or gets past all relay domains and meets the bucket that all
    rate limits give, if they give one. -/
theorem failsClosed_iff {P : Platform} {prev : InboundPolicy} {db : ConfigDb} {o : Outage db} :
    FailsClosed P prev o ↔
      (∀ m : MailFrom, m.identified (trustedClients P (o.ans .getRelayClients).rows) = true →
        passes (o.ans .getRelayDomains).rows m.domain →
          (m.identified prev.clients = true ∧ prev.relayDomainOK m.domain = true ∧
            prev.limiter.bucket (m.rateKey P) = none) ∨
          (passes (db.answer .getRelayDomains).rows m.domain ∧
            (bucketOf (db.answer .getRateLimits).rows (m.rateKey P) = none ∨
              bucketOf (db.answer .getRateLimits).rows (m.rateKey P) =
                bucketOf (o.ans .getRateLimits).rows (m.rateKey P)))) ∧
      ∀ addr, lower addr ∈ prev.suppressed →
        lower addr ∈ (db.answer .getSuppressions).rows.map lower →
          lower addr ∈ (o.ans .getSuppressions).rows.map lower := by
  have hgate : ∀ (ans : (o : ConfigOp) → o.Ret) (d : String),
      ((buildInbound P).eval ans).relayDomainOK d = true ↔ passes (ans .getRelayDomains).rows d :=
    fun ans d => passes_iff rfl
  constructor
  · rintro ⟨hmail, hrcpt⟩
    refine ⟨fun m hid hpass => ?_, fun addr hprev hall => ?_⟩
    · -- the bucket that was read has a token, every other bucket has none
      let delays : Ingress.Delays := fun name b =>
        if bucketOf (o.ans .getRateLimits).rows (m.rateKey P) = some (name, b) then 0 else 1
      have hinstalled : ((buildInbound P).eval o.ans).accepts P delays m = true := by
        refine InboundPolicy.accepts_iff.mpr ⟨hid, (hgate o.ans _).mpr hpass, fun x hx => ?_⟩
        exact if_pos hx
      rcases hmail m delays (fun _ _ => 1) hinstalled with hold | hclean
      · obtain ⟨hid', hgate', hbucket⟩ := InboundPolicy.accepts_iff.mp hold
        refine .inl ⟨hid', hgate', ?_⟩
        cases hb : prev.limiter.bucket (m.rateKey P) with
        | none => rfl
        | some x => exact absurd (hbucket x hb) Nat.one_ne_zero
      · obtain ⟨-, hpass', hbucket⟩ := InboundPolicy.accepts_iff.mp hclean
        refine .inr ⟨(hgate db.answer _).mp hpass', ?_⟩
        cases hb : bucketOf (db.answer .getRateLimits).rows (m.rateKey P) with
        | none => exact .inl rfl
        | some x =>
          refine .inr ?_
          have hzero := hbucket x hb
          by_contra hne
          exact absurd (hzero.symm.trans (if_neg fun he => hne he.symm)) Nat.zero_ne_one
    · by_contra hlost
      rcases hrcpt addr (InboundPolicy.takes_iff.mpr hlost) with hold | hclean
      · exact InboundPolicy.takes_iff.mp hold hprev
      · exact InboundPolicy.takes_iff.mp hclean hall
  · rintro ⟨hmail, hrcpt⟩
    refine ⟨fun m delays before hacc => ?_, fun addr htaken => ?_⟩
    · obtain ⟨hid, hpass, hbucket⟩ := InboundPolicy.accepts_iff.mp hacc
      rcases hmail m hid ((hgate o.ans _).mp hpass) with ⟨hid', hgate', hnone⟩ | ⟨hpass', hlimit⟩
      · refine .inl (InboundPolicy.accepts_iff.mpr ⟨hid', hgate', fun x hx => ?_⟩)
        rw [hnone] at hx
        cases hx
      · refine .inr (InboundPolicy.accepts_iff.mpr ⟨?_, (hgate db.answer _).mpr hpass', ?_⟩)
        · exact MailFrom.identified_of_prefix o.clients_prefix hid
        · intro x hx
          have hx : bucketOf (db.answer .getRateLimits).rows (m.rateKey P) = some x := hx
          rcases hlimit with hnone | hsame
          · rw [hnone] at hx
            cases hx
          · exact hbucket x (hsame.symm.trans hx)
    · by_contra hneither
      obtain ⟨hold, hclean⟩ := not_or.mp hneither
      have hold := not_not.mp fun h => hold (InboundPolicy.takes_iff.mpr h)
      have hclean := not_not.mp fun h => hclean (InboundPolicy.takes_iff.mpr h)
      exact InboundPolicy.takes_iff.mp htaken (hrcpt addr hold hclean)

/-! ## Which rows must have been read -/

/-- The trusted-client rows vouch for the sender domain at this address: it is in the range of the
    first row whose CIDR parses and contains the address. -/
def vouched (P : Platform) (rows : List RelayClient) (ip : IP) (domain : String) : Bool :=
  (rows.find? fun c => (P.parseCIDR c.cidr).any fun n => n.contains ip).any fun c =>
    sendersAllow c.allowedSenderDomains domain

/-- The previous snapshot vouched for the sender domain at this address. -/
def InboundPolicy.vouches (p : InboundPolicy) (ip : IP) (domain : String) : Bool :=
  (p.matchClient (some ip)).any fun c => sendersAllow c.senders domain

/-- The previous snapshot has no bucket for the key. -/
def InboundPolicy.Unlimited (p : InboundPolicy) (key : String) : Prop := p.limiter.bucket key = none

/-- Name, rate and burst of the inbound row that decides a key: the last that names it up to case,
    or, when none does, the last `"*"` row. -/
def decidingLimit (rows : List RateLimit) (key : String) : Option (String × Bucket) :=
  (charged (rows.filter Gate.inbound.reads) key).map fun r => (r.spec.name, r.spec.bucket)

/-- A row decides the key, and not so among the rows that were read. -/
def LimitLost {db : ConfigDb} (o : Outage db) (key : String) : Prop :=
  decidingLimit (db.answer .getRateLimits).rows key ≠ none ∧
    decidingLimit (db.answer .getRateLimits).rows key ≠
      decidingLimit (o.ans .getRateLimits).rows key

/-- There are permitted relay domains, and none was read. -/
def GateLost {db : ConfigDb} (o : Outage db) : Prop :=
  (db.answer .getRelayDomains).rows ≠ [] ∧ (o.ans .getRelayDomains).rows = []

/-- **The condition.**  Rows may be missing where the previous snapshot had no such rows either. -/
structure RowsKeepGates (P : Platform) (prev : InboundPolicy) {db : ConfigDb} (o : Outage db) :
    Prop where
  /-- Without its rows the gate is open: it was open before, and no account was limited. -/
  gate : GateLost o → prev.relayDomains = [] ∧ ∀ id, prev.Unlimited ("acct:" ++ id)
  /-- A source address that now gets past the gate was vouched for, and was not limited. -/
  gateClient : GateLost o → ∀ ip sender,
    lower (addrDomain sender) ∉ (db.answer .getRelayDomains).rows.map lower →
    vouched P (o.ans .getRelayClients).rows ip (addrDomain sender) = true →
      prev.vouches ip (addrDomain sender) = true ∧ prev.Unlimited ("ip:" ++ P.ipString ip)
  /-- An account that loses its limit had none, and its mail got past the gate. -/
  limit : ∀ id, LimitLost o ("acct:" ++ id) → ∀ sender,
    passes (o.ans .getRelayDomains).rows (addrDomain sender) →
      prev.relayDomainOK (addrDomain sender) = true ∧ prev.Unlimited ("acct:" ++ id)
  /-- A source address that loses its limit had none, was vouched for and got past the gate. -/
  limitClient : ∀ ip, LimitLost o ("ip:" ++ P.ipString ip) → ∀ sender,
    passes (o.ans .getRelayDomains).rows (addrDomain sender) →
    vouched P (o.ans .getRelayClients).rows ip (addrDomain sender) = true →
      prev.vouches ip (addrDomain sender) = true ∧
        prev.relayDomainOK (addrDomain sender) = true ∧ prev.Unlimited ("ip:" ++ P.ipString ip)
  /-- An address that was suppressed and still is was read. -/
  suppressed : ∀ addr, lower addr ∈ prev.suppressed →
    lower addr ∈ (db.answer .getSuppressions).rows.map lower →
      lower addr ∈ (o.ans .getSuppressions).rows.map lower

/-- The clients made of the rows vouch for what the rows vouch for. -/
theorem find_trustedClients (P : Platform) (rows : List RelayClient) (ip : IP) (domain : String) :
    (((trustedClients P rows).find? fun c => c.net.contains ip).any fun c =>
      sendersAllow c.senders domain) = vouched P rows ip domain := by
  unfold trustedClients vouched
  induction rows with
  | nil => rfl
  | cons c rows ih =>
    cases hnet : P.parseCIDR c.cidr with
    | none => simpa [hnet] using ih
    | some n =>
      cases hin : n.contains ip with
      | false => simpa [hnet, hin] using ih
      | true => simp [hnet, hin]

/-- The bucket is that of the deciding row. -/
theorem bucketOf_eq (rows : List RateLimit) (key : String) :
    bucketOf rows key = decidingLimit rows key := by
  have hspecs : inboundSpecs rows = (rows.filter Gate.inbound.reads).map RateLimit.spec :=
    Gate.inbound.specs_eq rows
  unfold bucketOf decidingLimit
  rw [hspecs]
  exact Limiter.build_bucket_rows ..

section
variable {P : Platform} {prev : InboundPolicy} {db : ConfigDb} {o : Outage db}

/-- A domain that gets past the rows that were read, and not past all of them. -/
theorem gateLost_of_passes {d : String} (h : passes (o.ans .getRelayDomains).rows d)
    (hall : ¬ passes (db.answer .getRelayDomains).rows d) :
    GateLost o ∧ lower d ∉ (db.answer .getRelayDomains).rows.map lower := by
  obtain ⟨hsome, hout⟩ := not_or.mp hall
  refine ⟨⟨hsome, h.resolve_right fun hin => hout ?_⟩, hout⟩
  obtain ⟨d', hd', heq⟩ := List.mem_map.mp hin
  exact List.mem_map.mpr ⟨d', o.domains_prefix.subset hd', heq⟩

/-- What the rows say of a reload. -/
theorem RowsKeepGates.closed (h : RowsKeepGates P prev o) : FailsClosed P prev o := by
  obtain ⟨hgate, hgateClient, hlimit, hlimitClient, hsuppressed⟩ := h
  refine failsClosed_iff.mpr ⟨fun m hid hpass => ?_, hsuppressed⟩
  by_cases hall : passes (db.answer .getRelayDomains).rows m.domain
  · by_cases hlost : LimitLost o (m.rateKey P)
    · refine .inl ?_
      obtain ⟨ip, account, sender⟩ := m
      cases account with
      | some a => exact ⟨hid, hlimit a.id hlost sender hpass⟩
      | none =>
        cases ip with
        | none => cases hid
        | some ip =>
          exact hlimitClient ip hlost sender hpass ((find_trustedClients ..).symm.trans hid)
    · refine .inr ⟨hall, ?_⟩
      rw [bucketOf_eq, bucketOf_eq]
      exact (not_and_or.mp hlost).imp not_not.mp not_not.mp
  · obtain ⟨hlost, hout⟩ := gateLost_of_passes hpass hall
    obtain ⟨hopen, hfree⟩ := hgate hlost
    have hok : prev.relayDomainOK m.domain = true := by
      unfold InboundPolicy.relayDomainOK
      rw [hopen]
      rfl
    refine .inl ?_
    obtain ⟨ip, account, sender⟩ := m
    cases account with
    | some a => exact ⟨hid, hok, hfree a.id⟩
    | none =>
      cases ip with
      | none => cases hid
      | some ip =>
        obtain ⟨hvouches, hnone⟩ :=
          hgateClient hlost ip sender hout ((find_trustedClients ..).symm.trans hid)
        exact ⟨hvouches, hok, hnone⟩

end

end Novamail

/-
  Authorisation by source address.

  A session without AUTH is as good as the trusted client that its address matches, and `NewSession`
  takes the FIRST client of the snapshot that does.  The rows come from the database in no order
  that the query asks for.
-/
import Novamail.Core.FirstMatch
import Novamail.Ingress.Session

namespace Novamail.Ingress

open Novamail.Core

/-! ## Mail without an account -/

/-- The answer to a MAIL is that of its checks. -/
theorem mail_answer (P : Platform) (policy : Option InboundPolicy) (delays : Delays) (s : Session)
    (sender : String) (ret : Option String) :
    (mail P policy delays s sender ret).1 = mailCheck P policy delays s sender := by
  have hcheck : mailCheck P policy delays { s with dsnReturn := ret.getD s.dsnReturn } sender =
      mailCheck P policy delays s sender := rfl
  unfold mail
  dsimp only
  rw [hcheck]
  cases mailCheck P policy delays s sender with
  | none => rfl
  | some e => rfl

/-- A MAIL without an account is accepted when the client of the session allows the sender, and the
    gate and the limit of the policy let it through. -/
theorem mailCheck_client {P : Platform} {p : InboundPolicy} {delays : Delays} {s : Session}
    {sender : String} (hauth : s.auth = none) :
    (mailCheck P (some p) delays s sender).isNone =
      ((s.client.any fun c => sendersAllow c.senders (domainOf [sender])) &&
        (policyCheck P delays s (domainOf [sender]) p).isNone) := by
  unfold mailCheck Session.allowedSenders
  rw [hauth]
  cases s.client with
  | none => rfl
  | some c =>
    cases hallow : sendersAllow c.senders (domainOf [sender]) with
    | false => simp [hallow]
    | true => simp [hallow]

/-- What a MAIL from an address is answered, in a session that has just been opened. -/
def mailFrom (P : Platform) (p : InboundPolicy) (delays : Delays) (ip : Option IP)
    (sender : String) (ret : Option String) : Option SMTPError :=
  (mail P (some p) delays (newSession (some p) ip) sender ret).1

/-- The gate and the limit do not look at the trusted clients. -/
theorem policyCheck_clients (P : Platform) (delays : Delays) (p p' : InboundPolicy)
    (ip : Option IP) (domain : String) (hd : p'.relayDomains = p.relayDomains)
    (hl : p'.limiter = p.limiter) :
    policyCheck P delays (newSession (some p') ip) domain p' =
      policyCheck P delays (newSession (some p) ip) domain p := by
  unfold policyCheck InboundPolicy.relayDomainOK
  rw [hd, hl]
  rfl

/-! ## The order of the rows -/

/-- The policy that the tables give. -/
def inbound (P : Platform) (db : ConfigDb) : InboundPolicy := (buildInbound P).eval db.answer

/-- The tables with these rows of trusted clients. -/
def withClients (db : ConfigDb) (rows : List RelayClient) : ConfigDb :=
  { db with relayClients := rows }

/-- The entry that a row gives: none when it is disabled or its CIDR does not parse. -/
def entry (P : Platform) (c : RelayClient) : Option TrustedClient :=
  if c.enabled then
    (P.parseCIDR c.cidr).map fun n => { net := n, senders := c.allowedSenderDomains }
  else none

theorem inbound_clients (P : Platform) (db : ConfigDb) (rows : List RelayClient) :
    (inbound P (withClients db rows)).clients = rows.filterMap (entry P) := by
  unfold inbound
  rw [buildInbound_eval]
  show ((rows.filter (·.enabled)).filterMap _) = _
  rw [List.filterMap_filter]
  rfl

/-- A MAIL from an address is accepted when the first client of that address allows the sender, and
    the gate and the limit let it through. -/
theorem mailFrom_isNone (P : Platform) (p : InboundPolicy) (delays : Delays) (a : IP)
    (sender : String) (ret : Option String) :
    (mailFrom P p delays (some a) sender ret).isNone =
      (decideFirst (fun c => c.net.contains a) (fun c => sendersAllow c.senders (domainOf [sender]))
        p.clients &&
        (policyCheck P delays (newSession (some p) (some a)) (domainOf [sender]) p).isNone) := by
  unfold mailFrom
  rw [mail_answer, mailCheck_client rfl]
  rfl

/-- The gate does not let the domain through, or the bucket of the address is empty. -/
def Barred (P : Platform) (p : InboundPolicy) (delays : Delays) (ip : Option IP)
    (domain : String) : Prop :=
  p.relayDomainOK domain = false ∨
    ∃ b, p.limiter.bucket (Session.rateKey P { ip := ip }) = some b ∧ 0 < delays b.1 b.2

theorem barred_iff {P : Platform} {p : InboundPolicy} {delays : Delays} {ip : Option IP}
    {domain : String} :
    (policyCheck P delays (newSession (some p) ip) domain p).isNone = false ↔
      Barred P p delays ip domain := by
  unfold policyCheck Barred
  have hkey : (newSession (some p) ip).rateKey P = Session.rateKey P { ip := ip } := rfl
  rw [hkey]
  cases p.relayDomainOK domain with
  | false => exact iff_of_true rfl (.inl rfl)
  | true =>
    cases p.limiter.bucket (Session.rateKey P { ip := ip }) with
    | none => simp
    | some b => by_cases hd : 0 < delays b.1 b.2 <;> simp [hd]

/-- **Order-independent authorisation.**  For an address, a sender and the state of the buckets:
    every order of the rows of trusted clients gives the same answer to the MAIL if and only if the
    gate or the limit refuses it anyway, or any two clients in range of the address agree on the
    domain of the sender. -/
theorem source_order (P : Platform) (db : ConfigDb) (delays : Delays) (ip : Option IP)
    (sender : String) (ret : Option String) :
    (∀ rows rows', rows.Perm db.relayClients → rows'.Perm db.relayClients →
      ((mailFrom P (inbound P (withClients db rows)) delays ip sender ret).isNone ↔
        (mailFrom P (inbound P (withClients db rows')) delays ip sender ret).isNone)) ↔
      Barred P (inbound P db) delays ip (domainOf [sender]) ∨
        ∀ a, ip = some a → ∀ c ∈ (inbound P db).clients, ∀ c' ∈ (inbound P db).clients,
          c.net.contains a = true → c'.net.contains a = true →
          sendersAllow c.senders (domainOf [sender]) =
            sendersAllow c'.senders (domainOf [sender]) := by
  have hself : inbound P (withClients db db.relayClients) = inbound P db := rfl
  cases ip with
  | none =>
    -- no client is in range of an address that is not known
    exact iff_of_true (fun rows rows' _ _ => Iff.rfl) (.inr nofun)
  | some a =>
    have hcheck : ∀ rows, (mailFrom P (inbound P (withClients db rows)) delays (some a) sender
        ret).isNone = (decideFirst (fun c => c.net.contains a)
          (fun c => sendersAllow c.senders (domainOf [sender])) (rows.filterMap (entry P)) &&
          (policyCheck P delays (newSession (some (inbound P db)) (some a)) (domainOf [sender])
            (inbound P db)).isNone) := by
      intro rows
      rw [mailFrom_isNone, inbound_clients,
        policyCheck_clients P delays (inbound P db) (inbound P (withClients db rows)) (some a)
          (domainOf [sender]) rfl rfl]
    cases hbar : (policyCheck P delays (newSession (some (inbound P db)) (some a))
        (domainOf [sender]) (inbound P db)).isNone with
    | false =>
      refine iff_of_true (fun rows rows' _ _ => ?_) (.inl (barred_iff.mp hbar))
      rw [hcheck, hcheck, hbar, Bool.and_false, Bool.and_false]
    | true =>
      have hopen : ¬ Barred P (inbound P db) delays (some a) (domainOf [sender]) := by
        rw [← barred_iff, hbar]
        exact Bool.noConfusion
      have hclients : (inbound P db).clients = db.relayClients.filterMap (entry P) := by
        rw [← hself, inbound_clients]
      -- past the gate, the first client in range decides
      have horder := @decideFirst_order _ _ _ (entry P) db.relayClients
        (fun c => c.net.contains a) (fun c => sendersAllow c.senders (domainOf [sender]))
      rw [or_iff_right hopen, hclients]
      constructor
      · intro hsame b hb
        cases hb
        refine horder.mp fun rows hperm => ?_
        have hrow := hsame rows db.relayClients hperm (List.Perm.refl _)
        rw [hcheck, hcheck, hbar, Bool.and_true, Bool.and_true] at hrow
        exact Bool.eq_iff_iff.mpr hrow
      · intro hagree rows rows' hperm hperm'
        have hrow := horder.mpr (hagree a rfl)
        rw [hcheck, hcheck, hrow rows hperm, hrow rows' hperm']

/-! ## Nested ranges -/

/-- A parser that knows two ranges, one inside the other. -/
def twoRanges : Platform :=
  { Platform.plain with
    parseCIDR := fun s =>
      if s = "10.0.0.0/8" then some ⟨[10, 0, 0, 0], [255, 0, 0, 0]⟩
      else if s = "10.1.0.0/16" then some ⟨[10, 1, 0, 0], [255, 255, 0, 0]⟩
      else none }

/-- The client of the outer range. -/
def outerClient : RelayClient := ⟨"1", "10.0.0.0/8", ["a.test"], true⟩

/-- The client of the inner range. -/
def innerClient : RelayClient := ⟨"2", "10.1.0.0/16", ["b.test"], true⟩

/-- The order of two nested ranges decides whether the inner client may send. -/
theorem nested_ranges_disagree :
    ¬ ∀ (P : Platform) (db : ConfigDb) (delays : Delays) (ip : Option IP) (sender : String)
      (ret : Option String) (rows rows' : List RelayClient),
      (∀ c ∈ db.relayClients, c.enabled = true) → (db.relayClients.map (·.cidr)).Nodup →
      rows.Perm db.relayClients → rows'.Perm db.relayClients →
        ((mailFrom P (inbound P (withClients db rows)) delays ip sender ret).isNone ↔
          (mailFrom P (inbound P (withClients db rows')) delays ip sender ret).isNone) := by
  intro hclaim
  have hsame := hclaim twoRanges (withClients {} [outerClient, innerClient]) (fun _ _ => 0)
    (some [10, 1, 2, 3]) "x@b.test" none [outerClient, innerClient] [innerClient, outerClient]
    (by decide) (by decide) (List.Perm.refl _) (List.Perm.swap _ _ _)
  -- the outer client, read first, does not allow b.test; the inner one does
  exact absurd (hsame.mpr (by decide)) (by decide)

end Novamail.Ingress

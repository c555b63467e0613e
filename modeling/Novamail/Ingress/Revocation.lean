/-
  Trusted sources that are revoked while a session is open.

  `NewSession` matches the address of a connection once, against the snapshot of that moment, and
  `Mail` goes by the client it found then; the gate, the limits and the suppressions it reads from
  the snapshot of its own moment.  Here a swap of the snapshot is a step of its own, between any two
  commands.
-/
import Novamail.Ingress.Dialogue
import Novamail.Ingress.Sources

namespace Novamail.Ingress

open Novamail.Core

/-! ## A session among policy swaps -/

/-- The snapshot of the ingress, and one open session. -/
structure Live where
  policy : InboundPolicy
  dialogue : Dialogue

/-- The session without its past. -/
abbrev Live.session (s : Live) : Session := s.dialogue.session

/-- A swap of the snapshot, or a command. -/
inductive LiveAct where
  | swap (p : InboundPolicy)
  | command (c : Command)

/-- The snapshot that a command loads is this one. -/
def Command.Loads (p : InboundPolicy) : Command → Prop
  | .mail policy _ _ _ | .rcpt policy _ _ => policy = some p
  | .auth _ | .data _ _ | .reset => True

inductive Live.Step (P : Platform) : Live → LiveAct → Live → Prop where
  | swap {s : Live} (p : InboundPolicy) : Step P s (.swap p) { s with policy := p }
  | command {s : Live} {c : Command} {d : Dialogue} (h : Command.Step P s.dialogue c d)
      (hp : c.Loads s.policy) : Step P s (.command c) { s with dialogue := d }

/-- The sessions, each connected under the snapshot of its moment. -/
def live (P : Platform) : LTS Live LiveAct where
  init s := ∃ ip, s.dialogue = { session := newSession (some s.policy) ip }
  step := Live.Step P

/-- Some trusted client of the snapshot contains the address and allows the domain. -/
def Vouches (p : InboundPolicy) (ip : Option IP) (domain : String) : Prop :=
  ∃ c ∈ p.clients, InRange c ip ∧ sendersAllow c.senders domain = true

/-- The snapshot leaves a session without an account what it has: it vouches for every domain that
    the client of the session allows and its own gate lets through. -/
def Keeps (p : InboundPolicy) (s : Session) : Prop :=
  s.auth = none → ∀ c, s.client = some c → ∀ sender,
    sendersAllow c.senders (domainOf [sender]) = true →
    p.relayDomainOK (domainOf [sender]) = true → Vouches p s.ip (domainOf [sender])

/-- The swaps that take nothing from the open session. -/
def keeping (s : Live) : LiveAct → Prop
  | .swap p => Keeps p s.session
  | .command _ => True

/-! ## Commands do not change what the session may do -/

section
variable {P : Platform} {p : InboundPolicy}

/-- A command leaves the address and the client of a session alone, and never takes its account. -/
theorem Command.Step.source {d d' : Dialogue} {c : Command} (h : Command.Step P d c d') :
    d'.session.ip = d.session.ip ∧ d'.session.client = d.session.client ∧
      (d'.session.auth = none → d.session.auth = none) := by
  cases h with
  | auth acc =>
    cases acc with
    | none => exact ⟨rfl, rfl, id⟩
    | some acc =>
      unfold Ingress.auth
      dsimp only
      split
      · exact ⟨rfl, rfl, id⟩
      · exact ⟨rfl, rfl, nofun⟩
  | mail policy delays sender ret =>
    unfold Dialogue.mail Ingress.mail
    dsimp only
    cases mailCheck P policy delays
      { d.session with dsnReturn := ret.getD d.session.dsnReturn } sender with
    | none => exact ⟨rfl, rfl, id⟩
    | some e => exact ⟨rfl, rfl, id⟩
  | rcpt policy addr notify =>
    unfold Dialogue.rcpt Ingress.rcpt
    split
    · rename_i e s hs
      split at hs
      · cases hs
        exact ⟨rfl, rfl, id⟩
      · cases hs
    · rename_i s hs
      split at hs
      · cases hs
      · cases hs
        exact ⟨rfl, rfl, id⟩
  | data | reset => exact ⟨rfl, rfl, id⟩

/-- The client that a new session matches is vouched for by the same snapshot. -/
theorem keeps_newSession (ip : Option IP) : Keeps p (newSession (some p) ip) := by
  intro _ c hc sender hallow _
  refine ⟨c, ?_, newSession_client hc, hallow⟩
  cases ip with
  | none => cases hc
  | some a => exact List.mem_of_find?_eq_some hc

/-- **The exact condition.**  A snapshot keeps a session iff it vouches for every sender that the
    session may send under it. -/
theorem keeps_iff {s : Session} :
    (∀ delays sender ret, s.auth = none → (mail P (some p) delays s sender ret).1 = none →
      Vouches p s.ip (domainOf [sender])) ↔ Keeps p s := by
  constructor
  · intro hmail hauth c hc sender hallow hgate
    refine hmail (fun _ _ => 0) sender none hauth ?_
    rw [mail_answer, ← Option.isNone_iff_eq_none, mailCheck_client hauth, hc]
    refine Bool.and_eq_true_iff.mpr ⟨hallow, ?_⟩
    unfold policyCheck
    rw [hgate]
    cases p.limiter.bucket (s.rateKey P) with
    | none => rfl
    | some b => rfl
  · intro hkeeps delays sender ret hauth haccept
    rw [mail_answer, ← Option.isNone_iff_eq_none, mailCheck_client hauth] at haccept
    obtain ⟨hclient, hpolicy⟩ := Bool.and_eq_true_iff.mp haccept
    obtain ⟨c, hc, hallow⟩ := (Option.any_eq_true _ _).mp hclient
    refine hkeeps hauth c hc sender hallow ?_
    unfold policyCheck at hpolicy
    cases hgate : p.relayDomainOK (domainOf [sender]) with
    | true => rfl
    | false =>
      rw [hgate] at hpolicy
      cases hpolicy

/-! ## Runs -/

/-- In a run whose swaps take nothing from the session, its snapshot keeps it. -/
theorem live_keeps {s : Live} (h : Reach (live P) keeping s) : Keeps s.policy s.session := by
  refine h.invariant (I := fun s => Keeps s.policy s.session) ?_ ?_
  · rintro s ⟨ip, hs⟩
    rw [Live.session, hs]
    exact keeps_newSession ip
  · intro s l s' _ ih hok hst
    cases hst with
    | swap p => exact hok
    | @command c d hcmd hp =>
      obtain ⟨hip, hclient, hauth⟩ := hcmd.source
      intro hnone c hc sender hallow hgate
      have hvouch := ih (hauth hnone) c (hclient ▸ hc) sender hallow hgate
      exact hip ▸ hvouch

/-- **Revocation reaches open sessions.**  In every run whose policy swaps keep the open session,
    each MAIL that it has accepted without an account is vouched for by the snapshot loaded at that
    MAIL.  And after a swap every such MAIL is vouched for if and only if the swap keeps it. -/
theorem revocation_reaches_session {s : Live} (h : Reach (live P) keeping s) :
    (∀ delays sender ret, s.session.auth = none →
      (mail P (some s.policy) delays s.session sender ret).1 = none →
        Vouches s.policy s.session.ip (domainOf [sender])) ∧
      ∀ p, (∀ delays sender ret, s.session.auth = none →
        (mail P (some p) delays s.session sender ret).1 = none →
          Vouches p s.session.ip (domainOf [sender])) ↔ Keeps p s.session :=
  ⟨keeps_iff.mpr (live_keeps h), fun _ => keeps_iff⟩

end

/-- The same policy, with the gate closed to other domains. -/
def gatedPolicy : InboundPolicy := { relayPolicy with relayDomains := ["s.test"] }

/-- A relay client keeps its session when the gate is closed to other domains. -/
theorem revocation_reaches_gated :
    Vouches gatedPolicy (some [10, 0, 0, 1]) "s.test" := by
  have h0 : Reach (live .plain) keeping
      ⟨relayPolicy, { session := newSession (some relayPolicy) (some [10, 0, 0, 1]) }⟩ :=
    .init ⟨_, rfl⟩
  have hkeeps : Keeps gatedPolicy (newSession (some relayPolicy) (some [10, 0, 0, 1])) := by
    intro _ c hc sender hallow _
    cases hc
    exact ⟨relayClient, List.mem_singleton_self _, ⟨_, rfl, by decide⟩, hallow⟩
  have h1 := h0.step (l := LiveAct.swap gatedPolicy) hkeeps (.swap gatedPolicy)
  exact (revocation_reaches_session h1).1 (fun _ _ => 0) "a@s.test" none rfl (by decide)

/-- A client whose row is deleted goes on sending in the session it has open. -/
theorem revoked_client_sends :
    ¬ ∀ (P : Platform) (s : Live), Reach (live P) anyStep s → ∀ delays sender ret,
      s.session.auth = none → (mail P (some s.policy) delays s.session sender ret).1 = none →
        Vouches s.policy s.session.ip (domainOf [sender]) := by
  intro hclaim
  have h0 : Reach (live .plain) anyStep
      ⟨relayPolicy, { session := newSession (some relayPolicy) (some [10, 0, 0, 1]) }⟩ :=
    .init ⟨_, rfl⟩
  have h1 := h0.step trivial (.swap {})
  obtain ⟨c, hc, -⟩ := hclaim .plain _ h1 (fun _ _ => 0) "a@s.test" none rfl (by decide)
  cases hc

end Novamail.Ingress

/-
  A whole SMTP session: the commands a client may send, in any order, and the jobs that come of it.

  The identity of a session, its sender and the policy are changed by different commands and by
  policy swaps between them.  `Grant` records what `Mail` saw each time it accepted a sender, so
  that the sender of a published job can be tied to the authorisation it had.  A policy swap is not
  a step of its own: every command brings the policy it finds.
-/
import Novamail.Core.System
import Novamail.System.Obeys

namespace Novamail.Ingress

open Novamail.Core

/-! ## The job of a submission -/

/-- The only job `Data` publishes is that of its session. -/
theorem data_publishes {P : Platform} {s : Session} {body : Bytes} {q : Queue} {j : RelayJob}
    (h : (data P s body).Makes (.write (.publish q j))) : q = .work ∧ ∃ id, j = relayJob s id := by
  obtain ⟨ph, hmay⟩ := (data_obeys P s body).allows h
  cases hmay with
  | successor ht | dsn ht => cases ht
  | submission ht _ _ hj =>
    cases ht
    exact ⟨rfl, _, hj⟩

/-! ## The session as a transition system -/

/-- What `Mail` saw when it accepted a sender: the session before the command, and the policy. -/
structure Grant where
  sender : String
  session : Session
  policy : Option InboundPolicy

/-- A session with its past.  `mailed` and `rcpted`: a MAIL, a RCPT was accepted since the last
    reset. -/
structure Dialogue where
  session : Session
  mailed : Bool := false
  rcpted : Bool := false
  grants : List Grant := []
  jobs : List RelayJob := []

/-- A command, with what it finds: the account `Authenticate` returned, the policy then loaded, the
    state of the buckets. -/
inductive Command where
  | auth (acc : Option Account)
  | mail (policy : Option InboundPolicy) (delays : Delays) (sender : String) (ret : Option String)
  | rcpt (policy : Option InboundPolicy) (addr : String) (notify : List Notify)
  /-- A DATA in the course of which a job is published. -/
  | data (body : Bytes) (job : RelayJob)
  | reset

/-- The session after a `Mail`. -/
def Dialogue.mail (P : Platform) (d : Dialogue) (policy : Option InboundPolicy) (delays : Delays)
    (sender : String) (ret : Option String) : Dialogue :=
  match Ingress.mail P policy delays d.session sender ret with
  | (some _, s) => { d with session := s }
  | (none, s) => { d with session := s, mailed := true, grants := ⟨sender, d.session, policy⟩ :: d.grants }

/-- The session after a `Rcpt`. -/
def Dialogue.rcpt (d : Dialogue) (policy : Option InboundPolicy) (addr : String)
    (notify : List Notify) : Dialogue :=
  match Ingress.rcpt policy d.session addr notify with
  | (some _, s) => { d with session := s }
  | (none, s) => { d with session := s, rcpted := true }

/-- The commands of a session.  The server lets DATA through only after an accepted MAIL and an
    accepted RCPT. -/
inductive Command.Step (P : Platform) : Dialogue → Command → Dialogue → Prop where
  | auth {d : Dialogue} (acc : Option Account) :
      Step P d (.auth acc) { d with session := (Ingress.auth P d.session acc).2 }
  | mail {d : Dialogue} (policy : Option InboundPolicy) (delays : Delays) (sender : String)
      (ret : Option String) :
      Step P d (.mail policy delays sender ret) (d.mail P policy delays sender ret)
  | rcpt {d : Dialogue} (policy : Option InboundPolicy) (addr : String) (notify : List Notify) :
      Step P d (.rcpt policy addr notify) (d.rcpt policy addr notify)
  | data {d : Dialogue} {body : Bytes} {j : RelayJob} (hm : d.mailed = true)
      (hr : d.rcpted = true) (hj : (Ingress.data P d.session body).Makes (.write (.publish .work j))) :
      Step P d (.data body j) { d with jobs := j :: d.jobs }
  | reset {d : Dialogue} :
      Step P d .reset { d with session := d.session.reset, mailed := false, rcpted := false }

/-- All sessions: a connection from any address, under any policy. -/
def dialogue (P : Platform) : LTS Dialogue Command where
  init d := ∃ policy ip, d = { session := newSession policy ip }
  step := Command.Step P

/-! ## Authorisation -/

/-- The set permits the domain: it is empty, or has `"*"`, or has the domain in some letter case. -/
def Permits (allowed : List String) (domain : String) : Prop :=
  allowed = [] ∨ "*" ∈ allowed ∨ ∃ a ∈ allowed, lower a = lower domain

theorem permits_of_sendersAllow {allowed : List String} {domain : String}
    (h : sendersAllow allowed domain = true) : Permits allowed domain := by
  unfold sendersAllow at h
  split at h
  · rename_i hempty
    exact .inl (List.isEmpty_iff.mp hempty)
  · obtain ⟨a, ha, hcase⟩ := List.any_eq_true.mp h
    rcases Bool.or_eq_true_iff.mp hcase with hstar | hdom
    · exact .inr (.inl (of_decide_eq_true hstar ▸ ha))
    · exact .inr (.inr ⟨a, ha, of_decide_eq_true hdom⟩)

/-- The account may be used from the address. -/
def Account.UsableFrom (P : Platform) (acc : Account) (ip : Option IP) : Prop :=
  acc.ipAllowlist = [] ∨ ipInAny P ip acc.ipAllowlist = true

/-- The address is in the range of the client. -/
def InRange (c : TrustedClient) (ip : Option IP) : Prop :=
  ∃ a, ip = some a ∧ c.net.contains a = true

/-- **The sender was authorised.**  The session held an account usable from its address, or else a
    trusted client of its address; this identity permits the domain of the sender; and so does the
    relay-domain gate of the policy, if there is one. -/
structure Grant.Authorized (P : Platform) (g : Grant) : Prop where
  identity :
    (∃ acc, g.session.auth = some acc ∧ acc.UsableFrom P g.session.ip ∧
      Permits acc.allowedSenderDomains (addrDomain g.sender)) ∨
    (g.session.auth = none ∧ ∃ c, g.session.client = some c ∧
      InRange c g.session.ip ∧ Permits c.senders (addrDomain g.sender))
  gate : ∀ p, g.policy = some p →
    p.relayDomains = [] ∨ lower (addrDomain g.sender) ∈ p.relayDomains

/-! ## The invariant -/

/-- What holds of a session: its identity belongs to its address, its sender was authorised since
    the last reset, and so was the sender of every job it published. -/
structure Dialogue.Ok (P : Platform) (d : Dialogue) : Prop where
  auth : ∀ acc, d.session.auth = some acc → acc.UsableFrom P d.session.ip
  client : ∀ c, d.session.client = some c → InRange c d.session.ip
  sender : d.mailed = true → ∃ g ∈ d.grants, g.sender = d.session.sender ∧ g.Authorized P
  jobs : ∀ j ∈ d.jobs, ∃ g ∈ d.grants, g.sender = j.envelope.mailFrom ∧ g.Authorized P

section
variable {P : Platform} {d : Dialogue}

theorem newSession_client {policy : Option InboundPolicy} {ip : Option IP} {c : TrustedClient}
    (h : (newSession policy ip).client = some c) : InRange c ip := by
  obtain ⟨p, -, hmatch⟩ := Option.bind_eq_some_iff.mp h
  cases ip with
  | none => cases hmatch
  | some a =>
    have hcontains := List.find?_some hmatch
    exact ⟨a, rfl, hcontains⟩

/-- `Auth` binds an account that is usable from the address, or none. -/
theorem Dialogue.Ok.auth_step (h : d.Ok P) (acc : Option Account) :
    Dialogue.Ok P { d with session := (Ingress.auth P d.session acc).2 } := by
  cases acc with
  | none => exact ⟨h.auth, h.client, h.sender, h.jobs⟩
  | some acc =>
    unfold Ingress.auth
    dsimp only
    split
    · exact ⟨h.auth, h.client, h.sender, h.jobs⟩
    · rename_i hlist
      refine ⟨fun acc' hacc => ?_, h.client, h.sender, h.jobs⟩
      cases hacc
      cases hip : ipInAny P d.session.ip acc.ipAllowlist with
      | true => exact .inr hip
      | false =>
        rw [hip] at hlist
        refine .inl (List.isEmpty_iff.mp ?_)
        simpa using hlist

/-- What `Mail` accepts was authorised. -/
theorem authorized_of_mailCheck {policy : Option InboundPolicy} {delays : Delays}
    {sender : String} (h : d.Ok P)
    (hcheck : mailCheck P policy delays d.session sender = none) :
    Grant.Authorized P ⟨sender, d.session, policy⟩ := by
  unfold mailCheck at hcheck
  split at hcheck
  · cases hcheck
  rename_i hsome
  split at hcheck
  · cases hcheck
  rename_i hallow
  have hallow : sendersAllow d.session.allowedSenders (domainOf [sender]) = true := by
    simpa using hallow
  have hpermits : Permits d.session.allowedSenders (addrDomain sender) :=
    permits_of_sendersAllow hallow
  refine ⟨?_, fun p hp => ?_⟩
  · unfold Session.allowedSenders at hpermits
    cases hauth : d.session.auth with
    | some acc =>
      rw [hauth] at hpermits
      exact .inl ⟨acc, rfl, h.auth acc hauth, hpermits⟩
    | none =>
      cases hclient : d.session.client with
      | some c =>
        rw [hauth, hclient] at hpermits
        exact .inr ⟨rfl, c, rfl, h.client c hclient, hpermits⟩
      | none =>
        rw [hauth, hclient] at hsome
        exact absurd rfl hsome
  · dsimp only at hp
    subst hp
    dsimp only at hcheck
    unfold policyCheck at hcheck
    split at hcheck
    · cases hcheck
    rename_i hgate
    have hgate : p.relayDomainOK (domainOf [sender]) = true := by simpa using hgate
    unfold InboundPolicy.relayDomainOK at hgate
    split at hgate
    · rename_i hempty
      exact .inl (List.isEmpty_iff.mp hempty)
    · exact .inr (List.contains_iff_mem.mp hgate)

/-- A `Mail` that is accepted sets its sender, and one that is not leaves the sender alone. -/
theorem Dialogue.Ok.mail_step (h : d.Ok P) (policy : Option InboundPolicy) (delays : Delays)
    (sender : String) (ret : Option String) :
    Dialogue.Ok P (d.mail P policy delays sender ret) := by
  unfold Dialogue.mail Ingress.mail
  dsimp only
  have hsession : mailCheck P policy delays
      { d.session with dsnReturn := ret.getD d.session.dsnReturn } sender =
        mailCheck P policy delays d.session sender := rfl
  rw [hsession]
  cases hcheck : mailCheck P policy delays d.session sender with
  | some e => exact ⟨h.auth, h.client, h.sender, h.jobs⟩
  | none =>
    have hgrant := authorized_of_mailCheck h hcheck
    refine ⟨h.auth, h.client, fun _ => ⟨_, List.mem_cons_self, rfl, hgrant⟩, fun j hj => ?_⟩
    obtain ⟨g, hg, hrest⟩ := h.jobs j hj
    exact ⟨g, List.mem_cons_of_mem _ hg, hrest⟩

theorem Dialogue.Ok.rcpt_step (h : d.Ok P) (policy : Option InboundPolicy) (addr : String)
    (notify : List Notify) : Dialogue.Ok P (d.rcpt policy addr notify) := by
  unfold Dialogue.rcpt Ingress.rcpt
  by_cases hsupp : (policy.any fun p => p.suppressed.contains (lower addr)) = true
  · rw [if_pos hsupp]
    exact ⟨h.auth, h.client, h.sender, h.jobs⟩
  · rw [if_neg hsupp]
    exact ⟨h.auth, h.client, h.sender, h.jobs⟩

/-- The job of a DATA has the sender of the session. -/
theorem Dialogue.Ok.data_step (h : d.Ok P) {body : Bytes} {j : RelayJob} (hm : d.mailed = true)
    (hj : (Ingress.data P d.session body).Makes (.write (.publish .work j))) :
    Dialogue.Ok P { d with jobs := j :: d.jobs } := by
  refine ⟨h.auth, h.client, h.sender, fun j' hj' => ?_⟩
  rcases List.mem_cons.mp hj' with rfl | hj'
  · obtain ⟨-, id, rfl⟩ := data_publishes hj
    exact h.sender hm
  · exact h.jobs j' hj'

theorem dialogue_ok (h : Reach (dialogue P) anyStep d) : d.Ok P := by
  refine h.invariant (I := fun d => d.Ok P) ?_ ?_
  · rintro d ⟨policy, ip, rfl⟩
    exact ⟨nofun, fun c hc => newSession_client hc, nofun, nofun⟩
  · intro d l d' _ ih _ hst
    cases hst with
    | auth acc => exact ih.auth_step acc
    | mail policy delays sender ret => exact ih.mail_step policy delays sender ret
    | rcpt policy addr notify => exact ih.rcpt_step policy addr notify
    | data hm hr hj => exact ih.data_step hm hj
    | reset => exact ⟨ih.auth, ih.client, nofun, ih.jobs⟩

/-- **No open relay.**  Whatever a client sends and however the policy changes in between, the
    sender of every job that comes of the session was accepted by a MAIL of the same session, and
    was authorised at that time. -/
theorem no_open_relay (h : Reach (dialogue P) anyStep d) {j : RelayJob} (hj : j ∈ d.jobs) :
    ∃ g ∈ d.grants, g.sender = j.envelope.mailFrom ∧ g.Authorized P := (dialogue_ok h).jobs j hj

end

/-- A DATA command whose calls all succeed publishes the job of its session. -/
theorem data_makes_publish (P : Platform) (s : Session) (body : Bytes) (id : MsgId) :
    (data P s body).Makes (.write (.publish .work (relayJob s id))) :=
  .later id (.later true (.later none (.later true .here)))

/-- A relay client at 10.0.0.1 that may send for `s.test`. -/
def relayClient : TrustedClient := { net := ⟨[10, 0, 0, 1], [255, 255, 255, 255]⟩, senders := ["s.test"] }

/-- The policy that trusts it. -/
def relayPolicy : InboundPolicy := { clients := [relayClient] }

/-- A message from a trusted client is published, under its sender. -/
theorem no_open_relay_client : ∃ d : Dialogue, ∃ j ∈ d.jobs, j.envelope.mailFrom = "a@s.test" ∧
    ∃ g ∈ d.grants, g.sender = j.envelope.mailFrom ∧ g.Authorized .plain := by
  have h0 : Reach (dialogue .plain) anyStep
      { session := newSession (some relayPolicy) (some [10, 0, 0, 1]) } := .init ⟨_, _, rfl⟩
  have h1 := h0.step trivial (.mail (some relayPolicy) (fun _ _ => 0) "a@s.test" none)
  have h2 := h1.step trivial (.rcpt (some relayPolicy) "b@r.test" [])
  have h3 := h2.step trivial (.data (by decide) (by decide)
    (data_makes_publish .plain _ [] "m1"))
  exact ⟨_, _, List.mem_cons_self, by decide, no_open_relay h3 List.mem_cons_self⟩

end Novamail.Ingress

/-
  The TLS policy of a provider, on every connection of it.

  `New` threads a policy into the configuration of an instance, type by type; the methods turn the
  configuration into dials, handshakes and commands.  Here both are put together, for the calls of
  any run of the worker.

  A direct provider takes no `STARTTLSRequired`: its STARTTLS is opportunistic, and a host that does
  not offer it gets the message in the clear.
-/
import Novamail.Providers.Sockets

namespace Novamail

open Novamail.Core Novamail.Wire

/-- The least version a policy allows: 0 is TLS 1.2. -/
def TLSPolicy.minimum (pol : TLSPolicy) : Nat := if pol.minVersion = 0 then tls12 else pol.minVersion

namespace Wire

/-! ## What a policy says about a call -/

/-- A handshake allows no version below this one. -/
def WireOp.AtLeast (version : Nat) : WireOp → Prop
  | ⟨_, .dial _ (some cfg)⟩ | ⟨_, .run _ (.startTLS cfg)⟩ => ∀ v, cfg.Allows v → version ≤ v
  | _ => True

/-- A part of a message goes only over such a connection. -/
def WireOp.Messages (safe : Nat → Prop) : WireOp → Prop
  | ⟨_, .run c v⟩ => v.carries = true → safe c
  | _ => True

/-- Credentials go only over TLS: to the peer of the connection, or to an HTTPS URL. -/
def WireOp.Confides (s : Net) : WireOp → Prop
  | ⟨_, .run c (.auth _)⟩ => s.TLS c
  | ⟨_, .refresh url _ _ _⟩ => "https://".toList <+: url.toList
  | _ => True

/-! ## What the factory makes of a policy -/

section
variable {P : Platform} {helo : String} {row : ProviderRow} {creds : Creds} {pol : TLSPolicy}
  {q : Provider}

/-- The minimum version reaches every handshake, but for Gmail. -/
theorem newProvider_floor (hq : newProvider P helo row creds pol = some q)
    (hrow : row.type ≠ .gmail) : q.floor = pol.minimum := by
  unfold newProvider at hq
  split at hq
  · cases hq
    rfl
  · cases hq
    rfl
  · cases hq
    rfl
  · rename_i htype
    exact absurd htype hrow
  · cases hq
    rfl
  · cases hq

/-- Where STARTTLS is required every provider goes over TLS, but for direct delivery. -/
theorem newProvider_cover (hq : newProvider P helo row creds pol = some q)
    (hreq : pol.starttlsRequired = true) :
    q.cover = .always ∨ row.type = .direct ∧ q.cover = .offered := by
  unfold newProvider at hq
  split at hq
  · left
    cases hq
    -- the mode "none" is upgraded
    refine if_neg ?_
    show (if pol.starttlsRequired = true ∧ tlsModeFor row.authMode = .none then TLSMode.starttls
      else tlsModeFor row.authMode) ≠ .none
    split
    · decide
    · rename_i hmode
      exact fun h => hmode ⟨hreq, h⟩
  · cases hq
    exact .inl rfl
  · cases hq
    exact .inl rfl
  · cases hq
    exact .inl rfl
  · rename_i htype
    cases hq
    exact .inr ⟨htype, rfl⟩
  · cases hq

/-- Gmail's tokens come over HTTPS. -/
theorem newProvider_tokenURL {cfg : GmailConfig}
    (hq : newProvider P helo row creds pol = some (.gmail cfg)) :
    "https://".toList <+: cfg.tokenURL.toList := by
  unfold newProvider at hq
  split at hq
  · cases hq
  · cases hq
  · cases hq
  · cases hq
    show "https://".toList <+: "https://oauth2.googleapis.com/token".toList
    decide
  · cases hq
  · cases hq

/-! ## What the methods make of the configuration -/

variable {E : Env} {s : Net} {h : List Held} {o : WireOp}

theorem Permits.atLeast (hp : Permits E h o) : o.AtLeast o.ref.provider.floor := by
  obtain ⟨p, cmd⟩ := o
  cases cmd with
  | dial addr tls =>
    cases tls with
    | none => trivial
    | some cfg =>
      intro v hv
      have hcfg := hp.2 cfg rfl
      show p.provider.floor ≤ v
      rw [← hcfg]
      exact hv
  | run c v =>
    obtain ⟨tls, bare, _, hfits⟩ := hp
    cases v with
    | startTLS cfg =>
      intro v hv
      show p.provider.floor ≤ v
      rw [← show cfg.minVersion = p.provider.floor from hfits]
      exact hv
    | _ => trivial
  | _ => trivial

theorem Permits.messages (hp : Permits E h o) (hh : ∀ x ∈ h, s.Knows x) :
    (o.ref.provider.cover = .always → o.Messages s.TLS) ∧
      (o.ref.provider.cover = .offered → o.Messages fun c => s.TLS c ∨ s.Bare c) := by
  obtain ⟨p, cmd⟩ := o
  cases cmd with
  | run c v =>
    obtain ⟨tls, bare, rfl, hfits⟩ := hp
    have hknows := hh _ (List.mem_singleton_self _)
    have hmet : v.carries = true → p.provider.cover.Met tls bare := by
      intro hcarries
      cases v with
      | mail | rcpt | data => exact hfits
      | greeting | hello | startTLS | auth | noop | reset | quit => cases hcarries
    constructor
    · intro hcover hcarries
      have h := hmet hcarries
      rw [show p.provider.cover = .always from hcover] at h
      exact hknows.secure h
    · intro hcover hcarries
      have h := hmet hcarries
      rw [show p.provider.cover = .offered from hcover] at h
      rcases h with h | h
      · exact .inl (hknows.secure h)
      · exact .inr (hknows.unoffered h)
  | _ => exact ⟨fun _ => trivial, fun _ => trivial⟩

theorem Permits.confides (hp : Permits E h o) (hh : ∀ x ∈ h, s.Knows x)
    (hq : newProvider P helo row creds pol = some o.ref.provider) : o.Confides s := by
  obtain ⟨p, cmd⟩ := o
  cases cmd with
  | run c v =>
    cases v with
    | auth a =>
      obtain ⟨tls, bare, rfl, hfits⟩ := hp
      exact (hh _ (List.mem_singleton_self _)).secure hfits
    | _ => trivial
  | refresh url =>
    obtain ⟨_, cfg, hprov, rfl⟩ := hp
    rw [show p.provider = .gmail cfg from hprov] at hq
    exact newProvider_tokenURL hq
  | _ => trivial

end

/-! ## Runs -/

/-- A call keeps to a policy. -/
structure TLSPolicy.Kept (pol : TLSPolicy) (s : Net) (o : WireOp) : Prop where
  version : o.AtLeast pol.minimum
  message : pol.starttlsRequired = true → o.Messages s.TLS
  credentials : o.Confides s

/-- **The TLS policy on every connection.**  In every run of the worker, a call of an instance that
    `New` built allows no version below the minimum of its policy, unless it is Gmail's; it sends no
    part of a message in the clear where STARTTLS is required, unless it is a direct provider's and
    the host does not offer STARTTLS; and it sends credentials only over TLS. -/
theorem tls_policy_enforced {P : Platform} {helo : String} {row : ProviderRow} {creds : Creds}
    {pol : TLSPolicy} {q : Provider} (hq : newProvider P helo row creds pol = some q) {E : Env}
    {w w' : WirePool} (h : Reach (worker E).lts anyStep w) {r : WireRun} {o : WireOp} {a : o.Ret}
    {f : Unit} (hst : (worker E).Step w (.call r o a f) w') (ho : o.ref.provider = q) :
    (row.type ≠ .gmail → o.AtLeast pol.minimum) ∧
      (pol.starttlsRequired = true →
        o.Messages fun c => w.shared.TLS c ∨ row.type = .direct ∧ w.shared.Bare c) ∧
      o.Confides w.shared := by
  obtain ⟨hr, hk⟩ : r ∈ w.running ∧ ∃ k, r.rest = .call o k := by
    cases hst with
    | call hr hk _ => exact ⟨hr ▸ Multiset.mem_cons_self _ _, _, hk⟩
  obtain ⟨k, hk⟩ := hk
  have hpermit := WireRun.permits h hr hk
  have hknows := (known h).held r hr
  subst ho
  refine ⟨fun hrow => ?_, fun hreq => ?_, hpermit.confides hknows hq⟩
  · rw [← newProvider_floor hq hrow]
    exact hpermit.atLeast
  · obtain ⟨halways, hoffered⟩ := hpermit.messages hknows
    obtain ⟨p, cmd⟩ := o
    cases cmd with
    | run c v =>
      intro hcarries
      rcases newProvider_cover hq hreq with hcover | ⟨hrow, hcover⟩
      · exact .inl (halways hcover hcarries)
      · exact (hoffered hcover hcarries).imp id fun h => ⟨hrow, h⟩
    | _ => trivial

/-- STARTTLS is required. -/
def strict : TLSPolicy := ⟨tls12, true⟩

/-- A direct provider. -/
def mxRow : ProviderRow := ⟨"1", "mx", .direct, "", "", ""⟩

/-- What `New` makes of the two. -/
def mxProvider : Provider := .direct { name := "mx", helo := "relay", minTLSVersion := tls12 }

/-- A message to one recipient. -/
def note : Message := ⟨⟨"a@b", ["d@e"]⟩, []⟩

/-- The direct provider at work on it: a host that does not offer STARTTLS has taken MAIL and RCPT
    and is about to get DATA. -/
theorem note_underway {E : Env} : ∃ (s : Net) (h : List Held) (k : Option NetErr → Wired Unit),
    s.conns 0 = some { tls := false, bare := true } ∧
    Reach (worker E).lts anyStep
      ⟨s, {⟨.relay [⟨0, mxProvider⟩] note 1, h, .call ⟨⟨0, mxProvider⟩, .run 0 (.data [])⟩ k⟩}⟩ := by
  have hany : ∀ w l, anyStep (S := WirePool) (L := WireAct) w l := fun _ _ => trivial
  have h := alone_relay E ⟨0, mxProvider⟩ note 1 (hany _ _) (hany _ _)
  have h := alone_call h Pace.go trivial trivial
  have h := alone_call h none trivial trivial
  have h := alone_call h (.ok 0) trivial rfl
  have h := alone_call h none trivial trivial
  have h := alone_call h none trivial trivial
  have h := alone_call h false trivial trivial
  have h := alone_call h none trivial trivial
  have h := alone_call h none trivial trivial
  exact ⟨_, _, _, rfl, h⟩

theorem tls_policy_enforced_direct :
    ∃ s : Net, s.Bare 0 ∧
      (ProviderType.direct ≠ .gmail →
        (WireOp.mk ⟨0, mxProvider⟩ (.run 0 (.data []))).AtLeast strict.minimum) ∧
      (strict.starttlsRequired = true →
        (WireOp.mk ⟨0, mxProvider⟩ (.run 0 (.data []))).Messages fun c =>
          s.TLS c ∨ ProviderType.direct = .direct ∧ s.Bare c) ∧
      (WireOp.mk ⟨0, mxProvider⟩ (.run 0 (.data []))).Confides s := by
  obtain ⟨s, h, k, hconn, hreach⟩ := note_underway (E := ⟨4, "relay"⟩)
  have hnew : newProvider .plain "relay" mxRow {} strict = some mxProvider := rfl
  exact ⟨s, ⟨_, hconn, rfl⟩, tls_policy_enforced hnew hreach (alone_step none trivial) rfl⟩

/-- A host that offers no STARTTLS gets the message in the clear, though STARTTLS is required. -/
theorem plaintext_despite_policy :
    ¬ ∀ (P : Platform) (helo : String) (row : ProviderRow) (creds : Creds) (pol : TLSPolicy)
      (q : Provider), newProvider P helo row creds pol = some q →
        ∀ (E : Env) (w w' : WirePool) (r : WireRun) (o : WireOp) (a : o.Ret) (f : Unit),
          Reach (worker E).lts anyStep w → (worker E).Step w (.call r o a f) w' →
            o.ref.provider = q → TLSPolicy.Kept pol w.shared o := by
  intro hclaim
  obtain ⟨s, h, k, hconn, hreach⟩ := note_underway (E := ⟨4, "relay"⟩)
  have hnew : newProvider .plain "relay" mxRow {} strict = some mxProvider := rfl
  have hst := alone_step (E := ⟨4, "relay"⟩) (s := s) (t := .relay [⟨0, mxProvider⟩] note 1)
    (h := h) (o := ⟨⟨0, mxProvider⟩, .run 0 (.data [])⟩) (k := k) none trivial
  have hkept := hclaim _ _ _ _ _ _ hnew _ _ _ _ _ _ _ hreach hst rfl
  obtain ⟨conn, hc, htls⟩ := hkept.message rfl rfl
  rw [hconn] at hc
  cases hc
  cases htls

end Wire

end Novamail

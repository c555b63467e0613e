/-
  The recipients of a job and the domain it is routed by.

  `Data` takes the recipient domain of a job from its first recipient; the routing engine, the
  domain limiter and the direct provider use it, or the first domain they find, for all of them.
  That is right for a session all of whose recipients share a domain, and for no other.
-/
import Novamail.Delivery.State
import Novamail.Ingress.Dialogue

namespace Novamail

open Novamail.Core Ingress

/-- All recipients of the job have the domain of its hint; a direct provider dials only MX hosts of
    the domain of each recipient; and each recipient gets the chain and the bucket of its own
    domain. -/
structure RelayJob.Homogeneous (j : RelayJob) : Prop where
  hint : ∀ a ∈ j.envelope.rcptTo, addrDomain a = j.routingHints.recipientDomain
  hosts : ∀ (mx : String → Option (List MX)) (host : String → SendReply) (body : Bytes),
    ∀ h ∈ (directSend mx host { envelope := j.envelope, body := body }).2,
      ∀ a ∈ j.envelope.rcptTo, h ∈ lookupMX (mx (addrDomain a)) (addrDomain a)
  chain : ∀ (st : RouteState), ∀ a ∈ j.envelope.rcptTo, st.chain j.routingHints =
    st.chain { j.routingHints with recipientDomain := addrDomain a }
  limit : ∀ (l : Limiter), ∀ a ∈ j.envelope.rcptTo,
    l.bucket j.routingHints.recipientDomain = l.bucket (addrDomain a)

/-- The direct provider dials only hosts of the list it goes through. -/
theorem directLoop_dialled {host : String → SendReply} {hs : List String} :
    ∀ {last : SendReply} {h : String}, h ∈ (directLoop host hs last).2 → h ∈ hs := by
  induction hs with
  | nil =>
    intro last h hm
    cases hm
  | cons x xs ih =>
    intro last h hm
    unfold directLoop at hm
    split at hm
    · exact List.mem_singleton.mp hm ▸ List.mem_cons_self
    · exact List.mem_singleton.mp hm ▸ List.mem_cons_self
    · rcases List.mem_cons.mp hm with rfl | hm
      · exact List.mem_cons_self
      · exact List.mem_cons_of_mem _ (ih hm)

/-- The domain of an address is empty exactly when nothing follows an `@`. -/
theorem addrDomain_eq (a : String) : addrDomain a =
    match afterLast '@' a.toList with
    | some (c :: t) => lower (String.ofList (c :: t))
    | _ => "" := by
  unfold addrDomain
  split
  · rename_i t ht
    rw [ht]
    cases t with
    | nil => rfl
    | cons c t => rfl
  · rename_i hnone
    rw [hnone]

/-- The direct provider's domain is that of all recipients, when they share one. -/
theorem recipientDomain_eq {rcpts : List String} {d : String} (hne : rcpts ≠ [])
    (h : ∀ a ∈ rcpts, addrDomain a = d) : recipientDomain rcpts = d := by
  induction rcpts with
  | nil => exact absurd rfl hne
  | cons r rs ih =>
    have hr := h r List.mem_cons_self
    rw [addrDomain_eq] at hr
    unfold recipientDomain
    split
    · rename_i c t hat
      rw [hat] at hr
      exact hr
    · rename_i hno
      have hd : d = "" := by
        rw [← hr]
        split
        · rename_i c t hat
          exact absurd hat (hno c t)
        · rfl
      cases rs with
      | nil => exact hd.symm
      | cons r' rs => exact ih (by simp) fun a ha => h a (List.mem_cons_of_mem _ ha)

/-- A job all of whose recipients have one domain is homogeneous, when its hint is that of the
    first of them. -/
theorem RelayJob.homogeneous_of_shared {j : RelayJob}
    (hhint : j.routingHints.recipientDomain = domainOf j.envelope.rcptTo)
    (h : ∀ a ∈ j.envelope.rcptTo, ∀ b ∈ j.envelope.rcptTo, addrDomain a = addrDomain b) :
    j.Homogeneous := by
  have hone : ∀ a ∈ j.envelope.rcptTo, addrDomain a = j.routingHints.recipientDomain := by
    intro a ha
    rw [hhint]
    cases hr : j.envelope.rcptTo with
    | nil =>
      rw [hr] at ha
      cases ha
    | cons r rs => exact h a ha r (hr ▸ List.mem_cons_self)
  refine ⟨hone, fun mx host body x hx a ha => ?_, fun st a ha => ?_, fun l a ha => ?_⟩
  · have hne : j.envelope.rcptTo ≠ [] := List.ne_nil_of_mem ha
    unfold directSend at hx
    dsimp only at hx
    rw [recipientDomain_eq hne hone] at hx
    split at hx
    · cases hx
    · rw [hone a ha]
      exact directLoop_dialled hx
  · rw [hone a ha]
  · rw [hone a ha]

/-- **One domain per job.**  A job that comes of a session, whatever was said in it before, is
    homogeneous exactly when all recipients accepted since the last reset have the same domain. -/
theorem job_homogeneous_iff {P : Platform} {d d' : Dialogue} {body : Bytes} {j : RelayJob}
    (hst : (dialogue P).step d (.data body j) d') :
    j.Homogeneous ↔
      ∀ a ∈ d.session.rcpts, ∀ b ∈ d.session.rcpts, addrDomain a = addrDomain b := by
  cases hst with
  | data hm hr hj =>
    obtain ⟨-, id, rfl⟩ := data_publishes hj
    constructor
    · intro hhom a ha b hb
      exact (hhom.hint a ha).trans (hhom.hint b hb).symm
    · exact RelayJob.homogeneous_of_shared (j := relayJob d.session id) rfl

/-! ## Two sessions -/

/-- A client that may send for `s.test` has given two recipients. -/
theorem two_recipients (a b : String) : ∃ d : Dialogue, Reach (dialogue .plain) anyStep d ∧
    d.session.rcpts = [a, b] ∧ ∃ d', (dialogue .plain).step d (.data [] (relayJob d.session "m1")) d' := by
  have h0 : Reach (dialogue .plain) anyStep
      { session := newSession (some relayPolicy) (some [10, 0, 0, 1]) } := .init ⟨_, _, rfl⟩
  have h1 := h0.step trivial (.mail (some relayPolicy) (fun _ _ => 0) "a@s.test" none)
  have h2 := h1.step trivial (.rcpt none a [])
  have h3 := h2.step trivial (.rcpt none b [])
  exact ⟨_, h3, rfl, _, .data (by rfl) (by rfl) (data_makes_publish _ _ _ _)⟩

/-- Two recipients of one domain. -/
theorem job_homogeneous_iff_same : ∃ j : RelayJob, j.Homogeneous ↔
    ∀ a ∈ ["b@r.test", "c@R.test"], ∀ b ∈ ["b@r.test", "c@R.test"], addrDomain a = addrDomain b := by
  obtain ⟨d, -, hrcpts, d', hst⟩ := two_recipients "b@r.test" "c@R.test"
  have hiff := job_homogeneous_iff hst
  rw [hrcpts] at hiff
  exact ⟨_, hiff⟩

/-- Two recipients of different domains share one job, and its hint is the domain of the first. -/
theorem mixed_recipients_one_job :
    ¬ ∀ (P : Platform) (d d' : Dialogue) (body : Bytes) (j : RelayJob),
      Reach (dialogue P) anyStep d → (dialogue P).step d (.data body j) d' → j.Homogeneous := by
  intro hclaim
  obtain ⟨d, hr, hrcpts, d', hst⟩ := two_recipients "b@r.test" "c@other.test"
  have hhint := (hclaim _ _ _ _ _ hr hst).hint "c@other.test" (by
    show "c@other.test" ∈ d.session.rcpts
    rw [hrcpts]
    decide)
  have hdomain : addrDomain "c@other.test" = domainOf d.session.rcpts := hhint
  rw [hrcpts] at hdomain
  exact absurd hdomain (by decide)

end Novamail

/-
  What an attempt asks the limiters for.

  `Mail` asks for one token.  `handle` asks for one of the recipient domain before it tries the
  chain, and for one of each provider that it comes to; what it is not to use it gives back at once.
  A `Meter` is what an observer notes of these calls, and `metering` says where they may stand: at a
  `Send` the delivery has the token of the provider and, if it has not sent before, that of the
  domain, and neither is still to be waited for (`handle_metered`).
-/
import Novamail.Delivery.Handle
import Novamail.Ingress.Session

namespace Novamail

open Novamail.Core

/-! ## The meter -/

/-- A token that is asked for. -/
structure Charge where
  gate : Gate
  limiter : Limiter
  key : String

/-- What is noted of the calls of an attempt. -/
structure Meter where
  /-- The limiters of the snapshots that were loaded last. -/
  loaded : Gate → Option Limiter := fun _ => none
  /-- There was no policy to load. -/
  unpoliced : Bool := false
  /-- The tokens asked for since the last `Send` and not given back. -/
  asked : List Charge := []
  /-- The last of them is still to be waited for. -/
  waiting : Bool := false
  /-- The calls of `Send`. -/
  sends : Nat := 0

namespace Meter

/-- One more call. -/
def note (m : Meter) : (o : Op) → o.Ret → Meter
  | .ask .loadPolicy, p =>
    { m with
      loaded := Function.update m.loaded .inbound (p.map (·.limiter))
      unpoliced := m.unpoliced || p.isNone }
  | .ask .loadState, st =>
    { m with
      loaded := Function.update (Function.update m.loaded .domain (some st.limiter)) .provider
        (some st.provLimiter) }
  | .ask (.reserve g l key), delay =>
    { m with asked := m.asked ++ [⟨g, l, key⟩], waiting := delay.any (0 < ·) }
  | .ask (.sleep _), ok => { m with waiting := m.waiting && !ok }
  | .ask .cancel, _ => { m with asked := m.asked.dropLast, waiting := false }
  | .ask (.send _ _), _ => { m with asked := [], sends := m.sends + 1 }
  | _, _ => m

/-- The meter after these calls. -/
def of (es : List (Σ o : Op, o.Ret)) : Meter := es.foldl (fun m e => m.note e.1 e.2) {}

/-- What a `Send` has behind it: the token of the provider and, if it is the first one, that of the
    domain. -/
structure Paid (m : Meter) (domain provider : String) : Prop where
  due : m.waiting = false
  tokens : ∃ l l', m.loaded .domain = some l ∧ m.loaded .provider = some l' ∧ m.asked =
    (if m.sends = 0 then [⟨.domain, l, domain⟩] else []) ++ [⟨.provider, l', provider⟩]

/-- What a MAIL that was let in has behind it: its token, unless there is no policy. -/
structure Admitted (m : Meter) (key : String) : Prop where
  due : m.waiting = false
  token : m.unpoliced = true ∨ ∃ l, m.loaded .inbound = some l ∧ m.asked = [⟨.inbound, l, key⟩]

/-- The calls that may come next: a token is asked for at the limiter of the snapshot that was
    loaded, and only a token that is still to be waited for is waited for or given back. -/
def Allows (domain : String) (m : Meter) : Op → Prop
  | .ask (.reserve g l _) => m.loaded g = some l ∧ m.waiting = false
  | .ask (.sleep _) | .ask .cancel => m.waiting = true
  | .ask (.send p _) => m.Paid domain p.name
  | _ => True

end Meter

/-- How the attempts of a domain go about their tokens. -/
def metering (domain : String) : Discipline Op.Ret Meter where
  allow := Meter.Allows domain
  next := Meter.note

section
variable {domain : String} {m : Meter} {β : Type}

theorem metering_write {w : Write} {f : Bool → Handler β} {fin : Meter → β → Prop}
    (h : ∀ ok, (f ok).Obeys (metering domain) fin m) :
    (write w >>= f).Obeys (metering domain) fin m := ⟨trivial, h⟩

theorem metering_ask {q : Query} {f : q.Ret → Handler β} {fin : Meter → β → Prop}
    (ha : m.Allows domain (.ask q))
    (h : ∀ r, (f r).Obeys (metering domain) fin (m.note (.ask q) r)) :
    (ask q >>= f).Obeys (metering domain) fin m := ⟨ha, h⟩

theorem metering_settle {v : Verdict} {fin : Meter → Unit → Prop} (h : fin m ()) :
    (settle v).Obeys (metering domain) fin m := ⟨trivial, fun _ => h⟩

end

/-! ## MAIL -/

namespace Ingress

/-- The part of `Mail` that depends on the policy, once it was loaded. -/
theorem policyCalls_metered {P : Platform} {s : Session} {p : InboundPolicy} {domain : String}
    {m : Meter} (hl : m.loaded .inbound = some p.limiter) (hw : m.waiting = false)
    (hasked : m.asked = []) (sender : String) :
    (policyCalls P s sender p).Obeys (metering domain)
      (fun m e => e = none → m.Admitted (s.rateKey P)) m := by
  have htoken : m.asked ++ [(⟨.inbound, p.limiter, s.rateKey P⟩ : Charge)] =
      [⟨.inbound, p.limiter, s.rateKey P⟩] := by rw [hasked, List.nil_append]
  unfold policyCalls
  by_cases hdomain : (!p.relayDomainOK sender) = true
  · rw [if_pos hdomain]
    exact nofun
  rw [if_neg hdomain]
  refine metering_ask ⟨hl, hw⟩ fun delay => ?_
  cases delay with
  | none => exact fun _ => ⟨rfl, .inr ⟨p.limiter, hl, htoken⟩⟩
  | some delay =>
    dsimp only
    by_cases hdelay : 0 < delay
    · rw [if_pos hdelay]
      exact metering_ask (decide_eq_true hdelay) fun _ => nofun
    · rw [if_neg hdelay]
      exact fun _ => ⟨decide_eq_false hdelay, .inr ⟨p.limiter, hl, htoken⟩⟩

/-- **`Mail` asks for the token of its key**, and has it when it lets the MAIL in. -/
theorem mail_metered (P : Platform) (s : Session) (sender domain : String) :
    (mailCalls P s sender).Obeys (metering domain)
      (fun m e => e = none → m.Admitted (s.rateKey P)) {} := by
  unfold mailCalls
  by_cases hauth : (s.auth.isNone && s.client.isNone) = true
  · rw [if_pos hauth]
    exact nofun
  rw [if_neg hauth]
  by_cases hsender : (!sendersAllow s.allowedSenders (domainOf [sender])) = true
  · rw [if_pos hsender]
    exact nofun
  rw [if_neg hsender]
  refine metering_ask trivial fun policy => ?_
  cases policy with
  | none => exact fun _ => ⟨rfl, .inl rfl⟩
  | some p =>
    have hloaded : (Meter.note {} (.ask .loadPolicy) (some p)).loaded .inbound = some p.limiter := rfl
    exact policyCalls_metered hloaded rfl rfl _

end Ingress

/-! ## Delivery -/

namespace Delivery

/-- What pacing leaves: the token is there if the delivery goes on. -/
def paid (m : Meter) (c : Charge) : Pace → Meter
  | .go => { m with asked := m.asked ++ [c] }
  | .over | .expired => m

theorem pace_metered {domain : String} {m : Meter} {g : Gate} {l : Limiter}
    (hl : m.loaded g = some l) (hw : m.waiting = false) (key : String) :
    (pace g l key).Obeys (metering domain) (fun m' step => m' = paid m ⟨g, l, key⟩ step) m := by
  obtain ⟨loaded, unpoliced, asked, waiting, sends⟩ := m
  obtain rfl : waiting = false := hw
  refine metering_ask ⟨hl, rfl⟩ fun delay => ?_
  cases delay with
  | none => rfl
  | some delay =>
    have hback : (asked ++ [(⟨g, l, key⟩ : Charge)]).dropLast = asked := List.dropLast_concat
    dsimp only
    by_cases hover : maxRateBlock < delay
    · rw [if_pos hover]
      refine metering_ask (decide_eq_true (Nat.zero_lt_of_lt hover)) fun _ => ?_
      show (⟨loaded, unpoliced, (asked ++ [(⟨g, l, key⟩ : Charge)]).dropLast, false, sends⟩ : Meter) =
        ⟨loaded, unpoliced, asked, false, sends⟩
      rw [hback]
    rw [if_neg hover]
    by_cases hpos : 0 < delay
    · rw [if_pos hpos]
      refine metering_ask (decide_eq_true hpos) fun ok => ?_
      cases ok with
      | true =>
        show (⟨loaded, unpoliced, asked ++ [⟨g, l, key⟩], decide (0 < delay) && false, sends⟩ : Meter) =
          ⟨loaded, unpoliced, asked ++ [⟨g, l, key⟩], false, sends⟩
        rw [Bool.and_false]
      | false =>
        refine metering_ask ?_ fun _ => ?_
        · show (decide (0 < delay) && true) = true
          rw [Bool.and_true, decide_eq_true hpos]
        · show (⟨loaded, unpoliced, (asked ++ [(⟨g, l, key⟩ : Charge)]).dropLast, false, sends⟩ : Meter) =
            ⟨loaded, unpoliced, asked, false, sends⟩
          rw [hback]
    · rw [if_neg hpos]
      show (⟨loaded, unpoliced, asked ++ [⟨g, l, key⟩], decide (0 < delay), sends⟩ : Meter) =
        ⟨loaded, unpoliced, asked ++ [⟨g, l, key⟩], false, sends⟩
      rw [decide_eq_false hpos]

/-- Where the chain loop stands between two providers: the delivery has the token of its domain as
    long as it has sent nothing, and no other. -/
structure Ready (st : RouteState) (domain : String) (m : Meter) : Prop where
  domainLimiter : m.loaded .domain = some st.limiter
  provLimiter : m.loaded .provider = some st.provLimiter
  due : m.waiting = false
  asked : m.asked = if m.sends = 0 then [⟨.domain, st.limiter, domain⟩] else []

/-- The program ends, wherever the meter stands. -/
abbrev Ends {α : Type} : Meter → α → Prop := fun _ _ => True

variable {domain : String} {m : Meter} {job : RelayJob}

theorem publish_metered {q : Queue} {j : RelayJob} :
    (do if ← write (.publish q j) then settle .ack else settle (.nack true) : Handler Unit).Obeys
      (metering domain) Ends m := by
  refine metering_write fun ok => ?_
  cases ok with
  | true => exact metering_settle trivial
  | false => exact metering_settle trivial

theorem defer_metered (detail : String) :
    (defer_ job detail).Obeys (metering domain) Ends m := by
  refine metering_ask trivial fun _ => metering_write fun _ => ?_
  dsimp only
  cases tierForAttempt (job.attempt + 1) with
  | none => exact publish_metered
  | some tier => exact publish_metered

theorem tryChain_metered (st : RouteState) (raw : Bytes) (ps : List Provider) :
    ∀ (sawDefer : Bool) (lastProvider lastDetail : String) (m : Meter), Ready st domain m →
      (tryChain st job raw ps sawDefer lastProvider lastDetail).Obeys (metering domain) Ends m := by
  induction ps with
  | nil =>
    intro sawDefer lastProvider lastDetail m _
    unfold tryChain
    cases sawDefer with
    | true => exact defer_metered _
    | false => exact metering_ask trivial fun _ => metering_write fun _ => publish_metered
  | cons p ps ih =>
    intro sawDefer lastProvider lastDetail m hready
    unfold tryChain
    refine (pace_metered hready.provLimiter hready.due p.name).bind ?_
    rintro m' step rfl
    cases step with
    | «over» => exact ih true p.name _ m hready
    | expired => exact metering_settle trivial
    | go =>
      have hpaid : (paid m ⟨.provider, st.provLimiter, p.name⟩ .go).Paid domain p.name := by
        refine ⟨hready.due, st.limiter, st.provLimiter, hready.domainLimiter, hready.provLimiter, ?_⟩
        show m.asked ++ [_] = _
        rw [hready.asked]
        rfl
      refine metering_ask hpaid fun res => ?_
      have hsent : Ready st domain
          ((paid m ⟨.provider, st.provLimiter, p.name⟩ .go).note (.ask (.send p ⟨job.envelope, raw⟩)) res) :=
        ⟨hready.domainLimiter, hready.provLimiter, hready.due, rfl⟩
      cases settledOutcome res with
      | delivered =>
        exact metering_ask trivial fun _ => metering_write fun _ => metering_write fun _ =>
          metering_settle trivial
      | defer => exact ih true p.name _ _ hsent
      | fail => exact ih sawDefer p.name _ _ hsent

/-- No token has been asked for. -/
structure Untouched (m : Meter) : Prop where
  asked : m.asked = []
  due : m.waiting = false
  sends : m.sends = 0

theorem materialize_metered (job : RelayJob) :
    (materialize job).Obeys (metering domain) (fun m _ => Untouched m) {} := by
  refine metering_ask trivial fun body => ?_
  cases body with
  | none => exact ⟨rfl, rfl, rfl⟩
  | some body =>
    refine metering_ask trivial fun st => ?_
    cases st.signerFor job.routingHints.senderDomain with
    | none => exact ⟨rfl, rfl, rfl⟩
    | some sgn => exact ⟨trivial, fun _ => ⟨rfl, rfl, rfl⟩⟩

/-- **At every `Send` of a delivery its tokens are there.** -/
theorem handleJob_metered (job : RelayJob) :
    (handleJob job).Obeys (metering job.routingHints.recipientDomain) Ends {} := by
  refine (materialize_metered job).bind fun m raw hm => ?_
  cases raw with
  | none => exact metering_settle trivial
  | some raw =>
    refine metering_ask trivial fun st => ?_
    by_cases hempty : (st.chain job.routingHints).isEmpty = true
    · rw [if_pos hempty]
      exact defer_metered _
    rw [if_neg hempty]
    have hdomain : (m.note (.ask .loadState) st).loaded .domain = some st.limiter := rfl
    refine (pace_metered hdomain hm.due job.routingHints.recipientDomain).bind ?_
    rintro m' step rfl
    cases step with
    | «over» => exact defer_metered _
    | expired => exact metering_settle trivial
    | go =>
      refine tryChain_metered st raw _ _ _ _ _ ⟨hdomain, rfl, hm.due, ?_⟩
      show m.asked ++ [_] = if m.sends = 0 then _ else _
      rw [hm.asked, hm.sends, if_pos rfl]
      rfl

/-- The domain a delivery is charged to. -/
def domainOfWire : Wire → String
  | .garbage => ""
  | .job job => job.routingHints.recipientDomain

theorem handle_metered (w : Wire) : (handle w).Obeys (metering (domainOfWire w)) Ends {} := by
  cases w with
  | garbage => exact metering_settle trivial
  | job job => exact handleJob_metered job

end Delivery

end Novamail

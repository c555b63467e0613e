/-
  How one delivery is settled.

  A `Sheet` is what an observer notes of the calls of one `handle`, whoever answers them and
  however: the chain of the snapshot it went by, whose turn it was and what came of it, what it
  recorded and published, and how it settled.  `Settles` is the contract of `handle`, stated over
  the sheet alone.

  The chain loop is by induction on the providers still to try.  `Trying` is its invariant: nothing
  is published or settled yet, each provider behind had its turn, none delivered, and `sawDefer`
  says whether there is a reason to try again later.
-/
import Novamail.System.Obeys

namespace Novamail.Delivery

open Novamail.Core

/-! ## The sheet of a delivery -/

/-- What came of a provider's turn. -/
inductive Turn where
  /-- It was given the message and returned this. -/
  | sent (p : Provider) (r : SendReply)
  /-- Its limiter asked for more than `maxRateBlock`, under this key. -/
  | skipped (key : String)

namespace Turn

/-- The turn was this provider's. -/
def Of : Turn → Provider → Prop
  | .sent p _, q => p = q
  | .skipped key, q => key = q.name

/-- It returned Delivered with a nil error. -/
def Delivers : Turn → Prop
  | .sent _ r => r.isDelivered = true
  | .skipped _ => False

/-- A reason to try again: a limit, a deferral, or an error with Delivered. -/
def Again : Turn → Prop
  | .sent _ r => r.outcome = .defer ∨ r.outcome = .delivered ∧ r.err.isSome
  | .skipped _ => True

/-- It failed permanently. -/
def Fails : Turn → Prop
  | .sent _ r => r.outcome = .fail
  | .skipped _ => False

end Turn

/-- What the calls of a delivery were. -/
structure Sheet where
  /-- The chain of the snapshot it has loaded last. -/
  chain : List Provider := []
  /-- A limiter was asked: the first is that of the domain, the others are those of providers. -/
  asked : Bool := false
  /-- The limiter of the domain asked for more than `maxRateBlock`. -/
  limited : Bool := false
  /-- The turns of the providers, in order. -/
  turns : List Turn := []
  /-- The fetch or the signature of the body failed. -/
  unread : Bool := false
  /-- The deadline came while waiting for a limiter. -/
  expired : Bool := false
  /-- The attempts recorded. -/
  attempts : List Status := []
  /-- The publishes that succeeded. -/
  published : List (Queue × RelayJob) := []
  /-- A publish failed. -/
  unpublished : Bool := false
  /-- The settlements. -/
  verdicts : List Verdict := []

namespace Sheet

/-- A limiter was asked, and its backlog was too large or not. -/
def reserve (s : Sheet) (key : String) (large : Bool) : Sheet :=
  if s.asked then if large then { s with turns := s.turns ++ [.skipped key] } else s
  else { s with asked := true, limited := large }

/-- One more call. -/
def note (job : RelayJob) (s : Sheet) : (o : Op) → o.Ret → Sheet
  | .ask (.get _), body => if body.isNone then { s with unread := true } else s
  | .ask (.sign _ _), body => if body.isNone then { s with unread := true } else s
  | .ask .loadState, st => { s with chain := st.chain job.routingHints }
  | .ask (.reserve _ _ key), delay => s.reserve key (delay.any (maxRateBlock < ·))
  | .ask (.sleep _), ok => if ok then s else { s with expired := true }
  | .ask (.send p _), res => { s with turns := s.turns ++ [.sent p res] }
  | .write (.recordAttempt _ status _ _ _), _ => { s with attempts := s.attempts ++ [status] }
  | .write (.publish q j), ok =>
    if ok then { s with published := s.published ++ [(q, j)] } else { s with unpublished := true }
  | .settle v, _ => { s with verdicts := s.verdicts ++ [v] }
  | _, _ => s

/-- The sheet of a transcript. -/
def of (job : RelayJob) (es : List (Σ o : Op, o.Ret)) : Sheet :=
  es.foldl (fun s e => s.note job e.1 e.2) {}

/-- Some provider returned Delivered with a nil error. -/
def Delivered (s : Sheet) : Prop := ∃ t ∈ s.turns, t.Delivers

/-- There is a reason to try again: no route, a limit, a deferral, or an error with Delivered. -/
def Again (s : Sheet) : Prop := s.chain = [] ∨ s.limited = true ∨ ∃ t ∈ s.turns, t.Again

/-- Every provider of the chain was tried and failed permanently. -/
def AllFailed (s : Sheet) : Prop :=
  s.chain ≠ [] ∧ List.Forall₂ Turn.Of s.turns s.chain ∧ ∀ t ∈ s.turns, t.Fails

/-- The body could not be read, the deadline came, or a publish failed. -/
def Broken (s : Sheet) : Prop := s.unread = true ∨ s.expired = true ∨ s.unpublished = true

end Sheet

/-- The queue a deferred job is published to. -/
def retryQueue (job : RelayJob) : Queue :=
  match tierForAttempt (job.attempt + 1) with
  | some tier => tier.queue
  | none => .dlq

/-- The contract of `handle`. -/
structure Settles (job : RelayJob) (s : Sheet) : Prop where
  /-- It settles once, by an ack or by a nack with requeue. -/
  once : s.verdicts = [.ack] ∨ s.verdicts = [.nack true]
  /-- The providers have their turns in the order of the chain, without a gap. -/
  order : ∃ taken rest, s.chain = taken ++ rest ∧ List.Forall₂ Turn.Of s.turns taken
  /-- Nobody has a turn after one that delivered, -/
  first : ∀ pre t post, s.turns = pre ++ t :: post → t.Delivers → post = []
  /-- or without a body, or above the limit of the domain; -/
  none : s.unread = true ∨ s.limited = true → s.turns = []
  /-- otherwise everybody has one, until one delivers. -/
  all : ¬ s.Broken → s.limited = false → ¬ s.Delivered → List.Forall₂ Turn.Of s.turns s.chain
  relayed : (.relayed ∈ s.attempts ∧ s.verdicts = [.ack]) ↔ s.Delivered
  /-- It is put back if something broke, and only then. -/
  nacked : s.Broken ↔ s.verdicts = [.nack true]
  deferred : ¬ s.Broken → ¬ s.Delivered → s.Again → s.attempts = [.deferred] ∧
    s.published = [(retryQueue job, { job with attempt := job.attempt + 1 })] ∧ s.verdicts = [.ack]
  failed : ¬ s.Broken → s.AllFailed →
    s.attempts = [.failed] ∧ s.published = [(.dlq, job)] ∧ s.verdicts = [.ack]
  /-- An ack stands for a delivery or for one successor. -/
  ack : s.verdicts = [.ack] →
    s.Delivered ∧ s.published = [] ∨ ¬ s.Delivered ∧ ∃ d, s.published = [d]
  /-- A nack stands for neither. -/
  nack : s.verdicts = [.nack true] → ¬ s.Delivered ∧ s.published = []

/-! ## The walks -/

section
variable {job : RelayJob} {s : Sheet} {α β : Type}

/-- Nothing is broken, recorded, published or settled yet. -/
structure Sheet.Open (s : Sheet) : Prop where
  unread : s.unread = false
  expired : s.expired = false
  unpublished : s.unpublished = false
  attempts : s.attempts = []
  published : s.published = []
  verdicts : s.verdicts = []

theorem Sheet.Open.not_broken (h : s.Open) : ¬ s.Broken := by
  rintro (hb | hb | hb)
  · exact Bool.noConfusion (h.unread.symm.trans hb)
  · exact Bool.noConfusion (h.expired.symm.trans hb)
  · exact Bool.noConfusion (h.unpublished.symm.trans hb)

/-- The turns so far were taken in order, and nothing was delivered. -/
structure Sheet.Undelivered (s : Sheet) : Prop where
  order : ∃ taken rest, s.chain = taken ++ rest ∧ List.Forall₂ Turn.Of s.turns taken
  undelivered : ¬ s.Delivered
  none : s.limited = true → s.turns = []

theorem Sheet.Undelivered.first (h : s.Undelivered) :
    ∀ pre t post, s.turns = pre ++ t :: post → t.Delivers → post = [] := by
  intro pre t post hturns hdel
  exact absurd ⟨t, by rw [hturns]; simp, hdel⟩ h.undelivered

/-- The sheet of a delivery that was moved: one attempt recorded, one successor published. -/
def Sheet.moved (s : Sheet) (status : Status) (d : Queue × RelayJob) : Sheet :=
  { s with attempts := [status], published := [d], verdicts := [.ack] }

/-- A delivery that is put back before anything was published. -/
theorem Settles.back (hu : s.Undelivered) {t : Sheet} (hturns : t.turns = s.turns)
    (hc : t.chain = s.chain) (hl : t.limited = s.limited) (hread : t.unread = true → s.turns = [])
    (hp : t.published = []) (hb : t.Broken) (hv : t.verdicts = [.nack true]) :
    Settles job t := by
  have hnot : ¬ t.Delivered := by
    unfold Sheet.Delivered
    rw [hturns]
    exact hu.undelivered
  have hno : ¬ t.verdicts = [.ack] := by
    rw [hv]
    nofun
  refine ⟨.inr hv, ?_, ?_, ?_, fun h => absurd hb h, iff_of_false (fun h => hno h.2) hnot,
    iff_of_true hb hv, fun h => absurd hb h, fun h => absurd hb h, fun h => absurd h hno,
    fun _ => ⟨hnot, hp⟩⟩
  · rw [hturns, hc]
    exact hu.order
  · rw [hturns]
    exact hu.first
  · rw [hturns, hl]
    rintro (hun | hlim)
    · exact hread hun
    · exact hu.none hlim

/-- A delivery that is moved on, for the reason its status gives. -/
theorem Settles.move {status : Status} {d : Queue × RelayJob} (ho : s.Open) (hu : s.Undelivered)
    (hall : s.limited = false → List.Forall₂ Turn.Of s.turns s.chain) (hne : status ≠ .relayed)
    (hdefer : s.Again → status = .deferred ∧
      d = (retryQueue job, { job with attempt := job.attempt + 1 }))
    (hfail : s.AllFailed → status = .failed ∧ d = (.dlq, job)) :
    Settles job (s.moved status d) where
  once := .inl rfl
  order := hu.order
  first := hu.first
  none h := hu.none (h.resolve_left fun hun => Bool.noConfusion (ho.unread.symm.trans hun))
  all _ hl _ := hall hl
  relayed := iff_of_false (fun h => hne (List.mem_singleton.mp h.1).symm) hu.undelivered
  nacked := iff_of_false ho.not_broken nofun
  deferred _ _ h := by
    obtain ⟨rfl, rfl⟩ := hdefer h
    exact ⟨rfl, rfl, rfl⟩
  failed _ h := by
    obtain ⟨rfl, rfl⟩ := hfail h
    exact ⟨rfl, rfl, rfl⟩
  ack _ := .inr ⟨hu.undelivered, _, rfl⟩
  nack h := by cases h

/-- What pacing notes. -/
def Sheet.paced (s : Sheet) (key : String) : Pace → Sheet
  | .go => s.reserve key false
  | .over => s.reserve key true
  | .expired => { s.reserve key false with expired := true }

/-- The invariant of the chain loop, with the providers still to try. -/
structure Trying (ps : List Provider) (sawDefer : Bool) (s : Sheet) : Prop where
  isOpen : s.Open
  asked : s.asked = true
  unlimited : s.limited = false
  undelivered : ¬ s.Delivered
  /-- Everybody behind had a turn. -/
  behind : ∃ taken, s.chain = taken ++ ps ∧ List.Forall₂ Turn.Of s.turns taken
  nonempty : s.chain ≠ []
  saw : sawDefer = true ↔ ∃ t ∈ s.turns, t.Again

section
variable {ps : List Provider} {sawDefer : Bool}

theorem Trying.sound (h : Trying ps sawDefer s) : s.Undelivered where
  order := by
    obtain ⟨taken, hchain, hturns⟩ := h.behind
    exact ⟨taken, ps, hchain, hturns⟩
  undelivered := h.undelivered
  none hlim := Bool.noConfusion (h.unlimited.symm.trans hlim)

/-- A turn that did not deliver. -/
theorem Trying.next {p : Provider} {t : Turn} {again : Bool} (h : Trying (p :: ps) sawDefer s)
    (hof : t.Of p) (hno : ¬ t.Delivers) (hagain : again = true ↔ t.Again) :
    Trying ps (sawDefer || again) { s with turns := s.turns ++ [t] } := by
  obtain ⟨taken, hchain, hturns⟩ := h.behind
  refine ⟨⟨h.isOpen.unread, h.isOpen.expired, h.isOpen.unpublished, h.isOpen.attempts,
    h.isOpen.published, h.isOpen.verdicts⟩, h.asked, h.unlimited, ?_, ⟨taken ++ [p], ?_, ?_⟩,
    h.nonempty, ?_⟩
  · rintro ⟨t', ht', hdel⟩
    rcases List.mem_append.mp ht' with hold | hnew
    · exact h.undelivered ⟨t', hold, hdel⟩
    · exact hno (List.mem_singleton.mp hnew ▸ hdel)
  · rw [List.append_assoc]
    exact hchain
  · exact List.rel_append hturns (.cons hof .nil)
  · rw [Bool.or_eq_true, h.saw, hagain]
    constructor
    · rintro (⟨t', ht', hag⟩ | hag)
      · exact ⟨t', List.mem_append_left _ ht', hag⟩
      · exact ⟨t, List.mem_append_right _ (List.mem_singleton_self _), hag⟩
    · rintro ⟨t', ht', hag⟩
      rcases List.mem_append.mp ht' with hold | hnew
      · exact .inl ⟨t', hold, hag⟩
      · exact .inr (List.mem_singleton.mp hnew ▸ hag)

/-- At the end of the chain everybody had a turn. -/
theorem Trying.all (h : Trying [] sawDefer s) : List.Forall₂ Turn.Of s.turns s.chain := by
  obtain ⟨taken, hchain, hturns⟩ := h.behind
  rw [hchain, List.append_nil]
  exact hturns

/-- A provider that delivers ends the chain. -/
theorem Trying.deliver {p : Provider} {r : SendReply} (h : Trying (p :: ps) sawDefer s)
    (hr : r.isDelivered = true) : Settles job
      { s with turns := s.turns ++ [.sent p r], attempts := [.relayed], verdicts := [.ack] } := by
  obtain ⟨taken, hchain, hturns⟩ := h.behind
  have hdel : Sheet.Delivered
      { s with turns := s.turns ++ [.sent p r], attempts := [.relayed], verdicts := [.ack] } :=
    ⟨.sent p r, List.mem_append_right _ (List.mem_singleton_self _), hr⟩
  refine ⟨.inl rfl, ⟨taken ++ [p], ps, ?_, List.rel_append hturns (.cons rfl .nil)⟩, ?_, ?_,
    fun _ _ hn => absurd hdel hn, iff_of_true ⟨List.mem_singleton_self _, rfl⟩ hdel,
    iff_of_false h.isOpen.not_broken nofun, fun _ hn => absurd hdel hn, ?_,
    fun _ => .inl ⟨hdel, h.isOpen.published⟩, nofun⟩
  · rw [List.append_assoc]
    exact hchain
  · -- only the last one has delivered
    intro pre t post hsplit ht
    rcases List.eq_nil_or_concat post with hpost | ⟨post', y, hpost⟩
    · exact hpost
    · rw [hpost, List.concat_eq_append, ← List.cons_append, ← List.append_assoc] at hsplit
      have hfront := (List.append_inj' hsplit rfl).1
      have hmem : t ∈ s.turns := by
        rw [hfront]
        simp
      exact absurd ⟨t, hmem, ht⟩ h.undelivered
  · rintro (hun | hlim)
    · exact Bool.noConfusion (h.isOpen.unread.symm.trans hun)
    · exact Bool.noConfusion (h.unlimited.symm.trans hlim)
  · -- a provider that delivered has not failed
    rintro - ⟨-, -, hfail⟩
    have hout : r.outcome = .fail :=
      hfail (.sent p r) (List.mem_append_right _ (List.mem_singleton_self _))
    rw [← settledOutcome_delivered] at hr
    unfold settledOutcome at hr
    rw [if_neg (fun hc => by rw [hout] at hc; cases hc.2), hout] at hr
    cases hr

end

/-- The sheet before anything was tried. -/
def Sheet.fresh (chain : List Provider) : Sheet := { chain := chain }

end

end Novamail.Delivery

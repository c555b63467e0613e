/-
  The rate tokens of one delivery: reserved, used by a send, or given back.

  `handle` reserves on the limiter of the recipient domain and then on that of every provider it
  comes to.  A `Tab` is what an observer notes of these calls: the reservations that were made and
  not cancelled, whether anything was sent, and what the limiters had to say.  Each cancel of the
  source is of the reservation made last.
-/
import Novamail.Delivery.Handle

namespace Novamail.Delivery

open Novamail.Core

/-! ## The tab of a delivery -/

/-- What the rate limits of a delivery were, in the order of the calls. -/
structure Tab where
  /-- What each limiter came to; none where the key has no bucket. -/
  answers : List (Option Pace) := []
  /-- The keys of the earlier reservations that were not cancelled. -/
  kept : List String := []
  /-- That of the last one, unless it was cancelled. -/
  last : Option String := none
  /-- `Send` was called on some provider. -/
  sent : Bool := false

namespace Tab

/-- The reservations that stand. -/
def outstanding (t : Tab) : List String := t.kept ++ t.last.toList

/-- One more call.  A delay within bounds is waited for, so its answer is that of the wait. -/
def note (t : Tab) : (o : Op) → o.Ret → Tab
  | .ask (.reserve _ _ _), none =>
    { t with answers := t.answers ++ [none], kept := t.outstanding, last := none }
  | .ask (.reserve _ _ key), some delay =>
    { t with
      answers :=
        if maxRateBlock < delay then t.answers ++ [some .over]
        else if 0 < delay then t.answers else t.answers ++ [some .go]
      kept := t.outstanding
      last := some key }
  | .ask (.sleep _), ok => { t with answers := t.answers ++ [some (if ok then .go else .expired)] }
  | .ask .cancel, _ => { t with last := none }
  | .ask (.send _ _), _ => { t with sent := true }
  | _, _ => t

/-- The tab of a transcript. -/
def of (es : List (Σ o : Op, o.Ret)) : Tab := es.foldl (fun t e => t.note e.1 e.2) {}

end Tab

/-- The limiter, or the lack of one, lets the delivery go on. -/
def passes (answer : Option Pace) : Prop := answer = none ∨ answer = some .go

/-- A delivery that sent nothing has given back all it had reserved. -/
def Returned (t : Tab) : Prop := t.sent = false → t.outstanding = []

/-- The limiter of the domain has no bucket for it or stops the delivery, or that of some provider
    lets it go on.  The first answer is that of the domain. -/
def Unspent : List (Option Pace) → Prop
  | [] => True
  | domain :: provs => domain ≠ some .go ∨ ∃ a ∈ provs, passes a

/-! ## The walk -/

/-- The discipline that permits every call and notes it. -/
def tabbing : Discipline Op.Ret Tab where
  allow _ _ := True
  next := Tab.note

section

variable {t : Tab} {job : RelayJob} {β : Type}

theorem tabbing_write {w : Write} {f : Bool → Handler β} {fin : Tab → β → Prop}
    (h : ∀ ok, (f ok).Obeys tabbing fin t) : (write w >>= f).Obeys tabbing fin t := ⟨trivial, h⟩

theorem tabbing_ask {q : Query} {f : q.Ret → Handler β} {fin : Tab → β → Prop}
    (h : ∀ r, (f r).Obeys tabbing fin (t.note (.ask q) r)) :
    (ask q >>= f).Obeys tabbing fin t := ⟨trivial, h⟩

theorem tabbing_settle {v : Verdict} {fin : Tab → Unit → Prop} (h : fin t ()) :
    (settle v).Obeys tabbing fin t := ⟨trivial, fun _ => h⟩

/-- Publish, then settle: no token is touched. -/
theorem publish_tabbing {q : Queue} {j : RelayJob} {fin : Tab → Unit → Prop} (h : fin t ()) :
    (do if ← write (.publish q j) then settle .ack else settle (.nack true) : Handler Unit).Obeys
      tabbing fin t := by
  refine tabbing_write fun ok => ?_
  cases ok with
  | true => exact tabbing_settle h
  | false => exact tabbing_settle h

theorem defer_tabbing (detail : String) {fin : Tab → Unit → Prop} (h : fin t ()) :
    (defer_ job detail).Obeys tabbing fin t := by
  refine tabbing_ask fun _ => tabbing_write fun _ => ?_
  dsimp only
  cases tierForAttempt (job.attempt + 1) with
  | none => exact publish_tabbing h
  | some tier => exact publish_tabbing h

/-- What pacing does to the tab: the answer is noted, and a reservation stands iff its limiter let
    the delivery go on. -/
structure Tab.Paced (t : Tab) (key : String) (step : Pace) (t' : Tab) : Prop where
  answers : ∃ answer, t'.answers = t.answers ++ [answer] ∧ (passes answer ↔ step = .go) ∧
    (answer = some .go → t'.outstanding = t.outstanding ++ [key]) ∧
    (answer ≠ some .go → t'.outstanding = t.outstanding)
  sent : t'.sent = t.sent

theorem pace_tabbing (g : Gate) (l : Limiter) (key : String) :
    (pace g l key).Obeys tabbing (fun t' step => t.Paced key step t') t := by
  refine tabbing_ask fun r => ?_
  cases r with
  | none =>
    -- no bucket, no reservation
    show t.Paced key .go _
    refine ⟨⟨none, rfl, by simp [passes], nofun, fun _ => ?_⟩, rfl⟩
    simp [Tab.note, Tab.outstanding]
  | some delay =>
    dsimp only
    by_cases hover : maxRateBlock < delay
    · rw [if_pos hover]
      refine tabbing_ask fun _ => ?_
      show t.Paced key .over _
      refine ⟨⟨some .over, by simp [Tab.note, hover], by simp [passes], nofun, fun _ => ?_⟩, rfl⟩
      simp [Tab.note, Tab.outstanding]
    rw [if_neg hover]
    by_cases hpos : 0 < delay
    · rw [if_pos hpos]
      refine tabbing_ask fun ok => ?_
      cases ok with
      | true =>
        show t.Paced key .go _
        refine ⟨⟨some .go, by simp [Tab.note, hover, hpos], by simp [passes], fun _ => ?_, ?_⟩, rfl⟩
        · simp [Tab.note, Tab.outstanding]
        · exact fun h => absurd rfl h
      | false =>
        refine tabbing_ask fun _ => ?_
        show t.Paced key .expired _
        refine ⟨⟨some .expired, by simp [Tab.note, hover, hpos], by simp [passes], nofun,
          fun _ => ?_⟩, rfl⟩
        simp [Tab.note, Tab.outstanding]
    · rw [if_neg hpos]
      show t.Paced key .go _
      refine ⟨⟨some .go, by simp [Tab.note, hover, hpos], by simp [passes], fun _ => ?_, ?_⟩, rfl⟩
      · simp [Tab.note, Tab.outstanding]
      · exact fun h => absurd rfl h

/-- The invariant of the chain loop: the domain let the delivery go on, something was sent iff some
    provider's limiter let it go on, and as long as nothing was sent only the reservation on the
    domain stands. -/
structure Spending (key : String) (t : Tab) : Prop where
  answers : ∃ domain provs, t.answers = domain :: provs ∧ passes domain ∧
    (t.sent = true ↔ ∃ a ∈ provs, passes a) ∧
    (t.sent = false → t.outstanding = if domain = some .go then [key] else [])

/-- However the loop ends, the reservation on the domain decides. -/
theorem Spending.returned_iff {key : String} (h : Spending key t) :
    Returned t ↔ Unspent t.answers := by
  obtain ⟨domain, provs, hanswers, -, hsent, hout⟩ := h.answers
  rw [hanswers]
  unfold Returned Unspent
  constructor
  · intro hreturned
    by_cases hgo : domain = some .go
    · refine .inr (hsent.mp ?_)
      by_contra hno
      have hfalse := Bool.eq_false_iff.mpr hno
      have hempty := hreturned hfalse
      rw [hout hfalse, if_pos hgo] at hempty
      simp at hempty
    · exact .inl hgo
  · intro hunspent hfalse
    rcases hunspent with hno | hgo
    · rw [hout hfalse, if_neg hno]
    · rw [hsent.mpr hgo] at hfalse
      exact absurd hfalse (by decide)

/-- A provider that its limiter stops. -/
theorem Spending.stopped {key name : String} {step : Pace} {t' : Tab} (h : Spending key t)
    (hpaced : t.Paced name step t') (hstep : step ≠ .go) : Spending key t' := by
  obtain ⟨domain, provs, hanswers, hdomain, hsent, hout⟩ := h.answers
  obtain ⟨answer, happend, hpasses, -, hsame⟩ := hpaced.answers
  have hno : ¬passes answer := fun hp => hstep (hpasses.mp hp)
  refine ⟨domain, provs ++ [answer], by rw [happend, hanswers, List.cons_append], hdomain, ?_, ?_⟩
  · rw [hpaced.sent, hsent]
    constructor
    · rintro ⟨a, ha, hp⟩
      exact ⟨a, List.mem_append_left _ ha, hp⟩
    · rintro ⟨a, ha, hp⟩
      rcases List.mem_append.mp ha with ha | ha
      · exact ⟨a, ha, hp⟩
      · rw [List.mem_singleton.mp ha] at hp
        exact absurd hp hno
  · intro hfalse
    rw [hsame fun heq => hno (.inr heq)]
    exact hout (hpaced.sent ▸ hfalse)

/-- A provider that is sent to. -/
theorem Spending.sending {key name : String} {t' : Tab} (h : Spending key t)
    (hpaced : t.Paced name .go t') : Spending key { t' with sent := true } := by
  obtain ⟨domain, provs, hanswers, hdomain, -, -⟩ := h.answers
  obtain ⟨answer, happend, hpasses, -, -⟩ := hpaced.answers
  refine ⟨domain, provs ++ [answer], by rw [happend, hanswers, List.cons_append], hdomain, ?_, nofun⟩
  exact iff_of_true rfl ⟨answer, by simp, hpasses.mpr rfl⟩

/-- The chain loop, by induction on the providers still to try. -/
theorem tryChain_tabbing (st : RouteState) (raw : Bytes) (ps : List Provider) {key : String} :
    ∀ (sawDefer : Bool) (lastProvider lastDetail : String) (t : Tab), Spending key t →
      (tryChain st job raw ps sawDefer lastProvider lastDetail).Obeys tabbing
        (fun t' _ => Spending key t') t := by
  induction ps with
  | nil =>
    intro sawDefer lastProvider lastDetail t h
    cases sawDefer with
    | true => exact defer_tabbing _ h
    | false => exact tabbing_ask fun _ => tabbing_write fun _ => publish_tabbing h
  | cons p ps ih =>
    intro sawDefer lastProvider lastDetail t h
    refine (pace_tabbing .provider st.provLimiter p.name).bind fun t' step hpaced => ?_
    cases step with
    | «over» => exact ih _ _ _ t' (h.stopped hpaced (by decide))
    | expired => exact tabbing_settle (h.stopped hpaced (by decide))
    | go =>
      refine tabbing_ask fun res => ?_
      have hsent : Spending key (t'.note (.ask (.send p ⟨job.envelope, raw⟩)) res) :=
        h.sending hpaced
      cases settledOutcome res with
      | delivered =>
          exact tabbing_ask fun _ => tabbing_write fun _ => tabbing_write fun _ =>
          tabbing_settle hsent
      | defer =>
          exact ih _ _ _ _ hsent
      | fail =>
          exact ih _ _ _ _ hsent

/-- The tab of a delivery that has not come to a limiter. -/
theorem returned_iff_nil : Returned {} ↔ Unspent ({} : Tab).answers :=
  iff_of_true (fun _ => rfl) trivial

/-- Materializing reserves nothing. -/
theorem materialize_tabbing : (materialize job).Obeys tabbing (fun t _ => t = {}) {} := by
  refine tabbing_ask fun body => ?_
  cases body with
  | none => exact rfl
  | some body =>
    refine tabbing_ask fun st => ?_
    cases st.signerFor job.routingHints.senderDomain with
    | none =>
      exact rfl
    | some sgn =>
      exact ⟨trivial, fun _ => rfl⟩

theorem handleJob_tabbing :
    (handleJob job).Obeys tabbing (fun t _ => Returned t ↔ Unspent t.answers) {} := by
  refine materialize_tabbing.bind ?_
  rintro _ raw rfl
  cases raw with
  | none => exact tabbing_settle returned_iff_nil
  | some raw =>
    refine tabbing_ask fun st => ?_
    by_cases hempty : (st.chain job.routingHints).isEmpty
    · simp only [hempty, if_true]
      exact defer_tabbing _ returned_iff_nil
    simp only [hempty]
    refine (pace_tabbing .domain st.limiter job.routingHints.recipientDomain).bind fun t step hpaced => ?_
    obtain ⟨answer, happend, hpasses, hkept, hsame⟩ := hpaced.answers
    have hone : t.answers = [answer] := happend
    -- a delivery stopped by the domain has nothing left
    have hstop : step ≠ .go → (Returned t ↔ Unspent t.answers) := by
      intro hstep
      have hno : answer ≠ some .go := fun heq => hstep (hpasses.mp (.inr heq))
      rw [hone]
      exact iff_of_true (fun _ => hsame hno) (.inl hno)
    cases step with
    | «over» => exact defer_tabbing _ (hstop (by decide))
    | expired => exact tabbing_settle (hstop (by decide))
    | go =>
      have hspending : Spending job.routingHints.recipientDomain t := by
        have hfalse : t.sent = false := hpaced.sent
        refine ⟨answer, [], hone, hpasses.mpr rfl, by simp [hfalse], fun _ => ?_⟩
        by_cases hgo : answer = some .go
        · rw [if_pos hgo]
          exact hkept hgo
        · rw [if_neg hgo]
          exact hsame hgo
      exact (tryChain_tabbing st raw _ false "" "" t hspending).mono fun _ _ h => h.returned_iff

end

/-- **When unused tokens come back.**  A delivery that sends nothing gives back every token iff its
    domain had no bucket or was stopped by it, or the limiter of some provider let it go on (and
    then it does send). -/
theorem tokens_returned_iff {wire : Wire} {es : List (Σ o : Op, o.Ret)}
    (h : (handle wire).Transcript es ()) : Returned (Tab.of es) ↔ Unspent (Tab.of es).answers := by
  cases wire with
  | garbage =>
    have hgarbage : (handle .garbage).Obeys tabbing (fun t _ => Returned t ↔ Unspent t.answers) {} :=
      tabbing_settle returned_iff_nil
    exact Prog.Obeys.transcript h hgarbage
  | job job => exact Prog.Obeys.transcript h handleJob_tabbing

/-! ## A token that is lost -/

/-- A message to `b.org`. -/
def pacedJob : RelayJob :=
  { messageID := "m1", bodyRef := ⟨.fs, "m1"⟩, envelope := ⟨"s@a.org", ["r@b.org"]⟩
    routingHints := ⟨"b.org", "a.org"⟩ }

/-- Direct delivery by default, with a limit of one message a second on the domain and on the
    provider. -/
def pacedState : RouteState :=
  { engine := .build [{ id := "1", recipientDomain := "", senderDomain := ""
                        providerChain := ["p1"], priority := 1, enabled := true }]
    instances := fun id => if id = "p1" then some (.direct ⟨"direct", "", tls12⟩) else none
    limiter := .build [⟨"b.org", 1, 1⟩]
    provLimiter := .build [⟨"direct", 1, 1⟩] }

/-- What a delivery does before it comes to the limiter of its domain. -/
def beforePacing : List (Σ o : Op, o.Ret) :=
  [⟨.ask (.get "m1"), some []⟩, ⟨.ask .loadState, pacedState⟩, ⟨.ask .loadState, pacedState⟩]

/-- What it does to defer. -/
def deferring (detail : String) : List (Σ o : Op, o.Ret) :=
  [⟨.ask (.inc .deferred), ()⟩,
    ⟨.write (.recordAttempt "m1" .deferred .deferred "" detail), true⟩,
    ⟨.write (.publish .wait30s { pacedJob with attempt := 1 }), true⟩, ⟨.settle .ack, ()⟩]

theorem deferring_run (detail : String) :
    (defer_ pacedJob detail).Transcript (deferring detail) () := by
  unfold defer_ deferring
  refine .lift_bind (.lift_bind ?_)
  have htier : tierForAttempt (pacedJob.attempt + 1) = some ⟨.wait30s, 30⟩ := by decide
  simp only [htier]
  refine .lift_bind ?_
  rw [if_pos rfl]
  exact .call _ (.pure ())

/-- A limiter whose backlog is 10 s. -/
def busy (g : Gate) (l : Limiter) (key : String) : List (Σ o : Op, o.Ret) :=
  [⟨.ask (.reserve g l key), some 10000000000⟩, ⟨.ask .cancel, ()⟩]

theorem busy_run (g : Gate) (l : Limiter) (key : String) :
    (pace g l key).Transcript (busy g l key) .over := by
  unfold pace busy
  refine .lift_bind ?_
  show Prog.Transcript (if maxRateBlock < 10000000000 then _ else _) _ _
  rw [if_pos (by decide)]
  exact .lift_bind (.pure _)

theorem idle_run (g : Gate) (l : Limiter) (key : String) :
    (pace g l key).Transcript [⟨.ask (.reserve g l key), some 0⟩] .go := by
  unfold pace
  refine .lift_bind ?_
  show Prog.Transcript (if maxRateBlock < 0 then _ else _) _ _
  rw [if_neg (by decide), if_neg (by decide)]
  exact .pure _

/-- A delivery up to the limiter of its domain, and how it goes on. -/
theorem paced_run {es es' : List (Σ o : Op, o.Ret)} {step : Pace}
    (hpace : (pace .domain pacedState.limiter "b.org").Transcript es step)
    (hrest : (match step with
      | .over => defer_ pacedJob ("rate limited: " ++ "b.org")
      | .expired => settle (.nack true)
      | .go =>
        tryChain pacedState pacedJob [] [.direct ⟨"direct", "", tls12⟩] false "" "").Transcript
          es' ()) :
    (handle (.job pacedJob)).Transcript (beforePacing ++ (es ++ es')) () := by
  have hbody : (materialize pacedJob).Transcript
      [⟨.ask (.get "m1"), some []⟩, ⟨.ask .loadState, pacedState⟩] (some []) := by
    unfold materialize
    exact .lift_bind (.lift_bind (.pure _))
  have hchain : pacedState.chain pacedJob.routingHints = [.direct ⟨"direct", "", tls12⟩] := by
    decide
  refine hbody.bind (.lift_bind ?_)
  simp only [hchain]
  exact hpace.bind hrest

/-- The limiter of the domain is busy: its token is given back. -/
theorem tokens_returned_busy : Returned (Tab.of
    (beforePacing ++ (busy .domain pacedState.limiter "b.org" ++ deferring "rate limited: b.org"))) := by
  refine (tokens_returned_iff (paced_run (busy_run _ _ _) (deferring_run _))).mpr (.inl ?_)
  decide

/-- The limiter of the domain lets the delivery go on, that of the only provider is busy: the
    message is deferred, and the token of the domain is gone. -/
theorem domain_token_lost :
    ∃ es, (handle (.job pacedJob)).Transcript es () ∧ ¬Returned (Tab.of es) := by
  have hrun := paced_run (idle_run .domain pacedState.limiter "b.org")
    ((busy_run .provider pacedState.provLimiter "direct").bind
      (deferring_run ("direct" ++ ": " ++ "provider rate limit exceeded")))
  refine ⟨_, hrun, ?_⟩
  intro h
  exact absurd (h rfl) (by decide)

end Novamail.Delivery

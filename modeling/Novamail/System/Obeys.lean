/-
  The text of every handler follows its discipline.

  Each proof walks one handler from top to bottom, call by call.  The calls that only read or pace
  leave the phase alone, so the walk has the same few turns as the text: which branch discharges
  the job, and which puts it back.  The loops (the chain, the suppressions, the sweep) are by
  induction on their list, with the phase as the invariant.
-/
import Novamail.System.Task

namespace Novamail

open Novamail.Core

/-- The program ends in this phase. -/
abbrev EndsIn {α : Type} (ph : Phase) : Phase → α → Prop := fun ph' _ => ph' = ph

section
variable {t : Task} {ph : Phase} {α β : Type}

/-! ## One call -/

theorem obeys_write {w : Write} {fin : Phase → Bool → Prop} :
    (write w).Obeys t.discipline fin ph ↔
      t.allowWrite ph w ∧ ∀ ok, fin (ph.nextWrite ok w) ok := Iff.rfl

theorem obeys_write_bind {w : Write} {f : Bool → Handler β} {fin : Phase → β → Prop} :
    (write w >>= f).Obeys t.discipline fin ph ↔
      t.allowWrite ph w ∧ ∀ ok, (f ok).Obeys t.discipline fin (ph.nextWrite ok w) := Iff.rfl

theorem obeys_ask_bind {q : Query} {f : q.Ret → Handler β} {fin : Phase → β → Prop} :
    (ask q >>= f).Obeys t.discipline fin ph ↔
      t.allowQuery ph q ∧ ∀ r, (f r).Obeys t.discipline fin (ph.nextQuery q r) := Iff.rfl

theorem obeys_settle {v : Verdict} {fin : Phase → Unit → Prop} :
    (settle v).Obeys t.discipline fin ph ↔ t.MaySettle ph v ∧ fin .done () :=
  and_congr Iff.rfl ⟨fun h => h (), fun h _ => h⟩

/-- A consumer that may settle its delivery this way ends with it settled. -/
theorem obeys_settle_done {v : Verdict} (h : t.MaySettle ph v) :
    (settle v).Obeys t.discipline (EndsIn .done) ph := obeys_settle.mpr ⟨h, rfl⟩

end

/-! ## Delivery -/

namespace Delivery

variable {j : RelayJob}

/-- Moving a job to the DLQ, whatever its attempt now is. -/
theorem toDLQ_obeys {a : Int} (hm : j.Moves .dlq a) :
    (toDLQ { j with attempt := a }).Obeys (Task.deliver (.job j)).discipline (EndsIn .done) .start := by
  refine obeys_write_bind.mpr ⟨.successor rfl (.inr rfl) a hm, fun ok => ?_⟩
  cases ok with
  | true => exact obeys_settle_done (.moved rfl)
  | false => exact obeys_settle_done (.retry rfl)

theorem defer_obeys (detail : String) :
    (defer_ j detail).Obeys (Task.deliver (.job j)).discipline (EndsIn .done) .start := by
  refine obeys_ask_bind.mpr ⟨trivial, fun _ => ?_⟩
  refine obeys_write_bind.mpr ⟨.deferred rfl, fun _ => ?_⟩
  show Prog.Obeys _ _ Phase.start _
  cases htier : tierForAttempt (j.attempt + 1) with
  | none =>
    simp only [htier]
    exact toDLQ_obeys (.exhausted htier)
  | some tier =>
    simp only [htier]
    have hwait := tierForAttempt_isWait htier
    refine obeys_write_bind.mpr
      ⟨.successor rfl (.inl hwait) (j.attempt + 1) (.tier htier), fun ok => ?_⟩
    cases ok with
    | true => exact obeys_settle_done (.moved rfl)
    | false => exact obeys_settle_done (.retry rfl)

/-- Pacing leaves the phase alone. -/
theorem pace_obeys {t : Task} {ph : Phase} (g : Gate) (l : Limiter) (key : String) :
    (pace g l key).Obeys t.discipline (EndsIn ph) ph := by
  refine obeys_ask_bind.mpr ⟨trivial, fun r => ?_⟩
  show Prog.Obeys _ _ ph _
  cases r with
  | none => exact rfl
  | some delay =>
    dsimp only
    by_cases hover : maxRateBlock < delay
    · rw [if_pos hover]
      exact obeys_ask_bind.mpr ⟨trivial, fun _ => rfl⟩
    rw [if_neg hover]
    by_cases hpos : 0 < delay
    · rw [if_pos hpos]
      refine obeys_ask_bind.mpr ⟨trivial, fun ok => ?_⟩
      cases ok with
      | true => exact rfl
      | false => exact obeys_ask_bind.mpr ⟨trivial, fun _ => rfl⟩
    · rw [if_neg hpos]
      exact rfl

theorem materialize_obeys :
    (materialize j).Obeys (Task.deliver (.job j)).discipline (EndsIn .start) .start := by
  refine obeys_ask_bind.mpr ⟨⟨rfl, j, rfl, rfl⟩, fun body => ?_⟩
  show Prog.Obeys _ _ Phase.start _
  cases body with
  | none => exact rfl
  | some body =>
    refine obeys_ask_bind.mpr ⟨trivial, fun st => ?_⟩
    show Prog.Obeys _ _ Phase.start _
    cases hs : st.signerFor j.routingHints.senderDomain with
    | none => exact rfl
    | some sgn => exact ⟨trivial, fun _ => rfl⟩

/-- What `handle` reads as a delivery is what the provider reported as one. -/
theorem settledOutcome_delivered (r : SendReply) :
    settledOutcome r = .delivered ↔ r.isDelivered = true := by
  unfold settledOutcome SendReply.isDelivered
  cases r.err with
  | none =>
    rw [if_neg (fun h => Bool.noConfusion h.1)]
    simp
  | some e =>
    by_cases h : r.outcome = .delivered
    · rw [if_pos ⟨rfl, h⟩]
      simp
    · rw [if_neg (fun hc => h hc.2)]
      simp [h]

/-- The chain loop, by induction on the providers still to try. -/
theorem tryChain_obeys (st : RouteState) (raw : Bytes) (ps : List Provider) :
    ∀ sawDefer lastProvider lastDetail,
      (tryChain st j raw ps sawDefer lastProvider lastDetail).Obeys
        (Task.deliver (.job j)).discipline (EndsIn .done) .start := by
  induction ps with
  | nil =>
    intro sawDefer lastProvider lastDetail
    unfold tryChain
    cases sawDefer with
    | true => exact defer_obeys _
    | false =>
      refine obeys_ask_bind.mpr ⟨trivial, fun _ => ?_⟩
      exact obeys_write_bind.mpr ⟨.failed rfl, fun _ => toDLQ_obeys .failed⟩
  | cons p ps ih =>
    intro sawDefer lastProvider lastDetail
    unfold tryChain
    refine (pace_obeys .provider st.provLimiter p.name).bind ?_
    rintro ph step rfl
    cases step with
    | «over» => exact ih _ _ _
    | expired => exact obeys_settle_done (.retry rfl)
    | go =>
      refine obeys_ask_bind.mpr ⟨⟨rfl, j, rfl, rfl⟩, fun res => ?_⟩
      by_cases hdel : res.isDelivered = true
      · -- relayed: record, drop the body, ack
        have hout := (settledOutcome_delivered res).mpr hdel
        have hph : Phase.start.nextQuery (.send p ⟨j.envelope, raw⟩) res = .sent := if_pos hdel
        rw [hph]
        simp only [hout]
        refine obeys_ask_bind.mpr ⟨trivial, fun _ => ?_⟩
        refine obeys_write_bind.mpr ⟨.relayed rfl, fun _ => ?_⟩
        refine obeys_write_bind.mpr ⟨.relayed rfl, fun _ => ?_⟩
        exact obeys_settle_done (.relayed rfl)
      · have hph : Phase.start.nextQuery (.send p ⟨j.envelope, raw⟩) res = .start := if_neg hdel
        rw [hph]
        cases hout : settledOutcome res with
        | delivered => exact absurd ((settledOutcome_delivered res).mp hout) hdel
        | defer => exact ih _ _ _
        | fail => exact ih _ _ _

theorem handleJob_obeys :
    (handleJob j).Obeys (Task.deliver (.job j)).discipline (EndsIn .done) .start := by
  refine materialize_obeys.bind ?_
  rintro ph raw rfl
  cases raw with
  | none => exact obeys_settle_done (.retry rfl)
  | some raw =>
    refine obeys_ask_bind.mpr ⟨trivial, fun st => ?_⟩
    show Prog.Obeys _ _ Phase.start _
    dsimp only
    by_cases hchain : (st.chain j.routingHints).isEmpty = true
    · rw [if_pos hchain]
      exact defer_obeys _
    rw [if_neg hchain]
    refine (pace_obeys .domain st.limiter j.routingHints.recipientDomain).bind ?_
    rintro ph step rfl
    cases step with
    | «over» => exact defer_obeys _
    | expired => exact obeys_settle_done (.retry rfl)
    | go => exact tryChain_obeys st raw _ _ _ _

theorem handle_obeys (w : Wire) :
    (handle w).Obeys (Task.deliver w).discipline (EndsIn .done) .start := by
  cases w with
  | garbage => exact obeys_settle_done (.garbage (.inl rfl))
  | job j => exact handleJob_obeys

end Delivery

/-! ## Bounces -/

namespace Dsn

variable {j : RelayJob}

theorem suppressAll_obeys (hf : j.envelope.mailFrom ≠ "") (detail : String)
    (rs : List String) (hrs : ∀ r ∈ rs, r ∈ j.envelope.rcptTo) :
    (suppressAll detail rs).Obeys (Task.bounce (.job j)).discipline (EndsIn .noted) .noted := by
  induction rs with
  | nil => exact rfl
  | cons r rs ih =>
    unfold suppressAll
    refine obeys_write_bind.mpr ⟨.bounced rfl hf (hrs r List.mem_cons_self), fun _ => ?_⟩
    exact ih fun r' h' => hrs r' (List.mem_cons_of_mem _ h')

theorem bounce_obeys (host detail : String) :
    (bounce host j detail).Obeys (Task.bounce (.job j)).discipline (EndsIn .done) .noted := by
  refine ⟨⟨rfl, .inr ⟨rfl, j, rfl⟩⟩, fun dsnID => ?_⟩
  refine obeys_ask_bind.mpr ⟨trivial, fun date => ?_⟩
  refine obeys_write_bind.mpr ⟨⟨rfl, rfl⟩, fun ok => ?_⟩
  cases ok with
  | false => exact obeys_settle_done (.regenerate rfl)
  | true =>
    refine obeys_write_bind.mpr ⟨⟨rfl, rfl, rfl⟩, fun ok => ?_⟩
    cases ok with
    | false => exact obeys_settle_done (.regenerate rfl)
    | true =>
      show Prog.Obeys _ _ (Phase.inserted dsnID) _
      refine obeys_write_bind.mpr ⟨.dsn rfl rfl rfl rfl rfl, fun ok => ?_⟩
      cases ok with
      | false => exact obeys_settle_done (.regenerate rfl)
      | true =>
        refine obeys_write_bind.mpr ⟨.bounced rfl, fun _ => ?_⟩
        refine obeys_ask_bind.mpr ⟨trivial, fun _ => ?_⟩
        exact obeys_settle_done (.bounced rfl)

/-- The second half of `handle`, once the message is marked and its recipients are suppressed. -/
theorem notify_obeys (host detail : String) :
    (if j.envelope.mailFrom = "" ∨ j.dsnSuppress = true then do
      ask (.inc .suppressed)
      let _ ← write (.delete j.bodyRef.key)
      settle .ack
    else bounce host j detail : Handler Unit).Obeys
      (Task.bounce (.job j)).discipline (EndsIn .done) .noted := by
  by_cases hsup : j.envelope.mailFrom = "" ∨ j.dsnSuppress = true
  · rw [if_pos hsup]
    refine obeys_ask_bind.mpr ⟨⟨rfl, j, rfl, hsup⟩, fun _ => ?_⟩
    refine obeys_write_bind.mpr ⟨.suppressed rfl, fun _ => ?_⟩
    exact obeys_settle_done (.suppressed rfl)
  · rw [if_neg hsup]
    exact bounce_obeys host detail

theorem handle_obeys (host : String) (w : Wire) :
    (handle host w).Obeys (Task.bounce w).discipline (EndsIn .done) .start := by
  cases w with
  | garbage => exact obeys_settle_done (.garbage (.inr rfl))
  | job j =>
    unfold handle handleJob
    refine obeys_ask_bind.mpr ⟨trivial, fun detail => ?_⟩
    refine obeys_write_bind.mpr ⟨.bounced rfl, fun _ => ?_⟩
    show Prog.Obeys _ _ Phase.noted _
    by_cases hf : j.envelope.mailFrom ≠ ""
    · simp only [if_pos hf]
      refine (suppressAll_obeys hf detail _ fun r h => h).bind ?_
      rintro ph _ rfl
      exact obeys_write_bind.mpr ⟨trivial, fun _ => notify_obeys host detail⟩
    · simp only [if_neg hf]
      exact notify_obeys host detail

end Dsn

/-! ## Submissions -/

namespace Ingress

theorem data_obeys (P : Platform) (s : Session) (body : Bytes) :
    (data P s body).Obeys (Task.submit s body).discipline
      (fun ph e => (e = none → ∃ id, ph = .published id) ∧ ∀ id, ph ≠ .inserted id) .start := by
  have hrejected : ∀ e : DataError, ∀ ph : Phase, (∀ id, ph ≠ .inserted id) →
      (some e = none → ∃ id, ph = .published id) ∧ ∀ id, ph ≠ .inserted id :=
    fun e ph h => ⟨nofun, h⟩
  refine ⟨⟨rfl, .inl ⟨rfl, rfl⟩⟩, fun id => ?_⟩
  refine obeys_write_bind.mpr ⟨⟨rfl, rfl⟩, fun ok => ?_⟩
  cases ok with
  | false => exact obeys_ask_bind.mpr ⟨trivial, fun _ => hrejected _ _ nofun⟩
  | true =>
    refine obeys_ask_bind.mpr ⟨trivial, fun policy => ?_⟩
    show Prog.Obeys _ _ (Phase.stored id) _
    by_cases hlarge : tooLarge policy body = true
    · rw [if_pos hlarge]
      refine obeys_write_bind.mpr ⟨.oversized id rfl, fun _ => ?_⟩
      exact obeys_ask_bind.mpr ⟨trivial, fun _ => hrejected _ _ nofun⟩
    rw [if_neg hlarge]
    refine obeys_write_bind.mpr ⟨⟨rfl, rfl, rfl⟩, fun ok => ?_⟩
    cases ok with
    | false => exact obeys_ask_bind.mpr ⟨trivial, fun _ => hrejected _ _ nofun⟩
    | true =>
      show Prog.Obeys _ _ (Phase.inserted id) _
      refine obeys_write_bind.mpr ⟨.submission rfl rfl rfl rfl, fun ok => ?_⟩
      cases ok with
      | false => exact obeys_ask_bind.mpr ⟨trivial, fun _ => hrejected _ _ nofun⟩
      | true => exact obeys_ask_bind.mpr ⟨trivial, fun _ => ⟨fun _ => ⟨id, rfl⟩, nofun⟩⟩

end Ingress

/-! ## The Admin API and the sweep -/

namespace Admin

theorem requeue_obeys (id : MsgId) :
    (requeue id).Obeys (Task.requeue id).discipline (fun _ _ => True) .start := by
  refine obeys_ask_bind.mpr ⟨⟨rfl, rfl⟩, fun r => ?_⟩
  cases r with
  | none => trivial
  | some row =>
    cases row with
    | none => trivial
    | some m =>
      show Prog.Obeys _ _ (Phase.selected m) _
      dsimp only
      by_cases hterm : terminal m.status = true
      · rw [if_pos hterm]
        trivial
      rw [if_neg hterm]
      have hlive : m.status.live = true := by
        rw [terminal_eq] at hterm
        simpa using hterm
      refine obeys_write_bind.mpr ⟨.requeue rfl hlive rfl rfl rfl, fun ok => ?_⟩
      cases ok with
      | true => trivial
      | false => trivial

theorem injectEmail_obeys (rs : List String) (subject text : String) :
    (injectEmail rs subject text).Obeys (Task.alert rs subject text).discipline
      (fun ph _ => ∀ id, ph ≠ .inserted id) .start := by
  unfold injectEmail
  by_cases hempty : rs.isEmpty = true
  · rw [if_pos hempty]
    exact nofun
  rw [if_neg hempty]
  refine ⟨⟨rfl, .inl ⟨rfl, rfl⟩⟩, fun id => ?_⟩
  refine obeys_ask_bind.mpr ⟨trivial, fun sender => ?_⟩
  show Prog.Obeys _ _ (Phase.drawn id) _
  cases sender with
  | none => exact nofun
  | some sender =>
    dsimp only
    by_cases hs : sender = ""
    · rw [if_pos hs]
      exact nofun
    rw [if_neg hs]
    by_cases hnl : (hasNewline sender || rs.any hasNewline) = true
    · rw [if_pos hnl]
      exact nofun
    rw [if_neg hnl]
    refine obeys_ask_bind.mpr ⟨trivial, fun date => ?_⟩
    refine obeys_write_bind.mpr ⟨⟨rfl, rfl⟩, fun ok => ?_⟩
    cases ok with
    | false => exact nofun
    | true =>
      refine obeys_write_bind.mpr ⟨⟨rfl, rfl, rfl⟩, fun ok => ?_⟩
      cases ok with
      | false => exact nofun
      | true =>
        show Prog.Obeys _ _ (Phase.inserted id) _
        refine obeys_write.mpr ⟨.alert rfl rfl rfl ⟨_, rfl⟩, fun ok => ?_⟩
        cases ok with
        | true => exact nofun
        | false => exact nofun

theorem suppressEach_obeys {provider : String} {body : Feedback} {addrs : List String}
    {reason : String} (hp : body.parse = some (addrs, reason)) (rest : List String)
    (hrest : ∀ a ∈ rest, a ∈ addrs) :
    (suppressEach provider reason rest).Obeys (Task.feedback provider body).discipline
      (EndsIn .start) .start := by
  induction rest with
  | nil => exact rfl
  | cons a rest ih =>
    unfold suppressEach
    refine obeys_write_bind.mpr ⟨.feedback rfl hp (hrest a List.mem_cons_self), fun ok => ?_⟩
    cases ok with
    | true => exact ih fun a' h' => hrest a' (List.mem_cons_of_mem _ h')
    | false => exact rfl

theorem feedback_obeys (provider : String) (body : Feedback) :
    (feedback provider body).Obeys (Task.feedback provider body).discipline (fun _ _ => True)
      .start := by
  unfold feedback
  cases hp : body.parse with
  | none => trivial
  | some p =>
    obtain ⟨addrs, reason⟩ := p
    refine (suppressEach_obeys hp addrs fun a h => h).bind ?_
    rintro ph ok rfl
    cases ok with
    | false => trivial
    | true =>
      by_cases hempty : addrs.isEmpty = true
      · simp only [hempty]
        trivial
      · simp only [hempty]
        refine obeys_write_bind.mpr ⟨trivial, fun ok => ?_⟩
        cases ok with
        | true => trivial
        | false => trivial

end Admin

namespace Maintenance

theorem sweepBodies_obeys {active listing : List String} (rest : List String)
    (hrest : ∀ k ∈ rest, k ∈ listing) :
    ∀ n, (sweepBodies active rest n).Obeys Task.sweep.discipline (fun _ _ => True)
      (.swept active listing) := by
  induction rest with
  | nil => intro n; trivial
  | cons k rest ih =>
    intro n
    have hrest' := fun k' h' => hrest k' (List.mem_cons_of_mem _ h')
    unfold sweepBodies
    by_cases hact : active.contains k = true
    · rw [if_pos hact]
      exact ih hrest' n
    rw [if_neg hact]
    have hnot : k ∉ active := fun h => hact (List.contains_iff_mem.mpr h)
    refine obeys_write_bind.mpr ⟨.orphan rfl (hrest k List.mem_cons_self) hnot, fun ok => ?_⟩
    cases ok with
    | true => exact ih hrest' (n + 1)
    | false => exact ih hrest' n

theorem main_obeys : main.Obeys Task.sweep.discipline (fun _ _ => True) .start := by
  refine obeys_ask_bind.mpr ⟨trivial, fun days => ?_⟩
  refine obeys_write_bind.mpr ⟨rfl, fun _ => ?_⟩
  refine obeys_ask_bind.mpr ⟨⟨rfl, rfl⟩, fun active => ?_⟩
  cases active with
  | none => trivial
  | some active =>
    refine obeys_ask_bind.mpr ⟨⟨rfl, active, rfl⟩, fun listing => ?_⟩
    exact (sweepBodies_obeys listing.1 (fun k h => h) 0).bind fun _ _ _ => trivial

end Maintenance

/-! ## Every task -/

/-- **Every program of the deployment obeys the discipline of its task.** -/
theorem Task.program_obeys (site : Site) (t : Task) :
    (t.program site).Obeys t.discipline t.Fin .start := by
  cases t with
  | submit s body =>
    refine (Ingress.data_obeys site.platform s body).bind fun ph e he => ?_
    exact ⟨nofun, fun _ _ _ hok => he.1 (Option.isNone_iff_eq_none.mp hok), fun _ => he.2⟩
  | deliver w =>
    refine (Delivery.handle_obeys w).bind fun ph _ hph => ?_
    exact ⟨fun _ => hph, nofun, nofun⟩
  | bounce w =>
    refine (Dsn.handle_obeys site.host w).bind fun ph _ hph => ?_
    cases hph
    exact ⟨fun _ => rfl, nofun, fun _ => nofun⟩
  | requeue id =>
    refine (Admin.requeue_obeys id).bind fun ph _ _ => ?_
    exact ⟨nofun, nofun, nofun⟩
  | alert rs subject text =>
    refine (Admin.injectEmail_obeys rs subject text).mono fun ph _ hph => ?_
    exact ⟨nofun, nofun, fun _ => hph⟩
  | sweep =>
    refine Maintenance.main_obeys.bind fun ph _ _ => ?_
    exact ⟨nofun, nofun, nofun⟩
  | feedback provider body =>
    refine (Admin.feedback_obeys provider body).bind fun ph _ _ => ?_
    exact ⟨nofun, nofun, nofun⟩

end Novamail

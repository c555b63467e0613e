/-
  What the dashboard counts as bounced.

  `getMetrics` adds the `failed` events to the `bounced` ones.  A message reaches the bounce
  generator because its tiers are exhausted or because its whole chain failed, and the generator
  records `bounced` either way; so a message of the second kind is counted twice, once by delivery
  and once by the generator.  Generating a bounce again records again.
-/
import Novamail.Admin.Telemetry
import Novamail.Mail.Bounces
import Novamail.Mail.Retries

namespace Novamail

open Novamail.Core

/-! ## The kind of an attempt -/

/-- The kind of event a status is recorded with. -/
def Status.event : Status → EventKind
  | .queued => .queued
  | .relayed => .relayed
  | .deferred => .deferred
  | .bounced => .bounced
  | .failed => .failed

/-- A call that records an attempt records the status and its own kind. -/
def Op.Paired : Op → Prop
  | .write (.recordAttempt _ st kind _ _) => kind = st.event
  | _ => True

def kindPaired : Discipline Op.Ret Unit where
  allow _ o := o.Paired
  next _ _ _ := ()

/-- Every call of the program is paired. -/
abbrev Pairs {α : Type} (m : Handler α) : Prop := m.Obeys kindPaired (fun _ _ => True) ()

theorem Pairs.bind {α β : Type} {m : Handler α} {f : α → Handler β} (hm : Pairs m)
    (hf : ∀ a, Pairs (f a)) : Pairs (m >>= f) := Prog.Obeys.bind hm fun _ a _ => hf a

theorem pairs_ask {β : Type} {q : Query} {f : q.Ret → Handler β} (h : ∀ r, Pairs (f r)) :
    Pairs (ask q >>= f) := ⟨trivial, h⟩

theorem pairs_settle (v : Verdict) : Pairs (settle v) := ⟨trivial, fun _ => trivial⟩

namespace Delivery

variable {j : RelayJob}

theorem toDLQ_pairs : Pairs (toDLQ j) := by
  refine ⟨trivial, fun ok => ?_⟩
  cases ok with
  | true | false => exact pairs_settle _

theorem defer_pairs (detail : String) : Pairs (defer_ j detail) := by
  refine pairs_ask fun _ => ⟨rfl, fun _ => ?_⟩
  show Pairs _
  dsimp only
  cases tierForAttempt (j.attempt + 1) with
  | none => exact toDLQ_pairs
  | some tier =>
    refine ⟨trivial, fun ok => ?_⟩
    cases ok with
    | true | false => exact pairs_settle _

theorem pace_pairs (g : Gate) (l : Limiter) (key : String) : Pairs (pace g l key) := by
  refine pairs_ask fun r => ?_
  cases r with
  | none => trivial
  | some delay =>
    dsimp only
    by_cases hover : maxRateBlock < delay
    · rw [if_pos hover]
      exact pairs_ask fun _ => trivial
    rw [if_neg hover]
    by_cases hpos : 0 < delay
    · rw [if_pos hpos]
      refine pairs_ask fun ok => ?_
      cases ok with
      | true => trivial
      | false => exact pairs_ask fun _ => trivial
    · rw [if_neg hpos]
      trivial

/-- The chain loop, by induction on the providers still to try. -/
theorem tryChain_pairs (st : RouteState) (raw : Bytes) (ps : List Provider) :
    ∀ sawDefer lastProvider lastDetail,
      Pairs (tryChain st j raw ps sawDefer lastProvider lastDetail) := by
  induction ps with
  | nil =>
    intro sawDefer lastProvider lastDetail
    unfold tryChain
    cases sawDefer with
    | true => exact defer_pairs _
    | false => exact pairs_ask fun _ => ⟨rfl, fun _ => toDLQ_pairs⟩
  | cons p ps ih =>
    intro sawDefer lastProvider lastDetail
    unfold tryChain
    refine (pace_pairs .provider st.provLimiter p.name).bind fun step => ?_
    cases step with
    | «over» => exact ih _ _ _
    | expired => exact pairs_settle _
    | go =>
      refine pairs_ask fun res => ?_
      cases settledOutcome res with
      | delivered =>
        exact pairs_ask fun _ => ⟨rfl, fun _ => ⟨trivial, fun _ => pairs_settle _⟩⟩
      | defer | fail => exact ih _ _ _

theorem handle_pairs (w : Wire) : Pairs (handle w) := by
  cases w with
  | garbage => exact pairs_settle _
  | job j =>
    have hraw : Pairs (materialize j) := by
      refine pairs_ask fun body => ?_
      cases body with
      | none => trivial
      | some body =>
        refine pairs_ask fun st => ?_
        cases st.signerFor j.routingHints.senderDomain with
        | none => trivial
        | some sgn => exact ⟨trivial, fun _ => trivial⟩
    refine hraw.bind fun raw => ?_
    cases raw with
    | none => exact pairs_settle _
    | some raw =>
      refine pairs_ask fun st => ?_
      dsimp only
      by_cases hchain : (st.chain j.routingHints).isEmpty = true
      · rw [if_pos hchain]
        exact defer_pairs _
      rw [if_neg hchain]
      refine (pace_pairs .domain st.limiter j.routingHints.recipientDomain).bind fun step => ?_
      cases step with
      | «over» => exact defer_pairs _
      | expired => exact pairs_settle _
      | go => exact tryChain_pairs st raw _ _ _ _

end Delivery

namespace Dsn

variable {j : RelayJob}

theorem suppressAll_pairs (detail : String) (rs : List String) : Pairs (suppressAll detail rs) := by
  induction rs with
  | nil => trivial
  | cons r rs ih => exact ⟨trivial, fun _ => ih⟩

theorem bounce_pairs (host detail : String) : Pairs (bounce host j detail) := by
  refine ⟨trivial, fun dsnID => pairs_ask fun date => ⟨trivial, fun ok => ?_⟩⟩
  cases ok with
  | false => exact pairs_settle _
  | true =>
    refine ⟨trivial, fun ok => ?_⟩
    cases ok with
    | false => exact pairs_settle _
    | true =>
      refine ⟨trivial, fun ok => ?_⟩
      cases ok with
      | false => exact pairs_settle _
      | true => exact ⟨trivial, fun _ => pairs_ask fun _ => pairs_settle _⟩

theorem handle_pairs (host : String) (w : Wire) : Pairs (handle host w) := by
  cases w with
  | garbage => exact pairs_settle _
  | job j =>
    have hend : ∀ detail, Pairs (if j.envelope.mailFrom = "" ∨ j.dsnSuppress = true then do
        ask (.inc .suppressed)
        let _ ← write (.delete j.bodyRef.key)
        settle .ack
      else bounce host j detail : Handler Unit) := by
      intro detail
      by_cases hsup : j.envelope.mailFrom = "" ∨ j.dsnSuppress = true
      · rw [if_pos hsup]
        exact pairs_ask fun _ => ⟨trivial, fun _ => pairs_settle _⟩
      · rw [if_neg hsup]
        exact bounce_pairs host detail
    unfold handle handleJob
    refine pairs_ask fun detail => ⟨rfl, fun _ => ?_⟩
    show Pairs _
    by_cases hf : j.envelope.mailFrom ≠ ""
    · simp only [if_pos hf]
      refine (suppressAll_pairs detail _).bind fun _ => ⟨trivial, fun _ => hend detail⟩
    · simp only [if_neg hf]
      exact hend detail

end Dsn

/-! ## Where an event comes from -/

/-- A write adds the event of an insert or of an attempt, or only drops events. -/
theorem Write.events_cases (w : World) (wr : Write) :
    (wr.apply w).events.Sublist w.events ∨
      (∃ id, (wr.apply w).events = w.events ++ [{ messageID := id, kind := .queued }]) ∨
      ∃ id st kind provider detail, wr = .recordAttempt id st kind provider detail ∧
        (wr.apply w).events = w.events ++ [⟨id, kind, provider, detail⟩] := by
  cases wr with
  | insertMessage id env ref info logged =>
    cases logged with
    | true => exact .inr (.inl ⟨id, rfl⟩)
    | false => exact .inl (List.Sublist.refl _)
  | recordAttempt id st kind provider detail =>
    exact .inr (.inr ⟨id, st, kind, provider, detail, rfl, rfl⟩)
  | pruneOld days => exact .inl List.filter_sublist
  | _ => exact .inl (List.Sublist.refl _)

section
variable {site : Site} {ok : Cluster → Label → Prop} {c c' : Cluster} {l : Label} {ls : List Label}

theorem Step.events_cases (hst : Step site c l c') :
    c'.world.events.Sublist c.world.events ∨
      (∃ id, c'.world.events = c.world.events ++ [{ messageID := id, kind := .queued }]) ∨
      ∃ p id st kind provider detail r f,
        l = .op p (.write (.recordAttempt id st kind provider detail)) r f ∧ f.applied = true ∧
          c'.world.events = c.world.events ++ [⟨id, kind, provider, detail⟩] := by
  have hsame : ∀ {w : World}, w.events = c.world.events → w.events.Sublist c.world.events :=
    fun h => h ▸ List.Sublist.refl _
  cases hst with
  | @op p ps o k r f n hp hk hx =>
    cases hx with
    | @write wr f hposs =>
      by_cases hf : f.applied = true
      · have hnew : (c.world.after p.task wr f).events = (wr.apply c.world).events := by
          unfold World.after
          rw [if_pos hf]
          rfl
        rcases Write.events_cases c.world wr with
          h | ⟨id, h⟩ | ⟨id, st, kind, provider, detail, rfl, h⟩
        · exact .inl (hnew ▸ h)
        · exact .inr (.inl ⟨id, hnew.trans h⟩)
        · exact .inr (.inr ⟨p, id, st, kind, provider, detail, _, f, rfl, hf, hnew.trans h⟩)
      · have hold : (c.world.after p.task wr f).events = c.world.events := by
          unfold World.after
          rw [if_neg hf]
          rfl
        exact .inl (hsame hold)
    | settle => exact .inl (hsame (by dsimp only; split <;> rfl))
    | ask | newID => exact .inl (hsame rfl)
  | start | finish | expire | lose | crash | tick => exact .inl (hsame rfl)

/-- The programs that record attempts pair them. -/
theorem recorders_pair (h : Reach (cluster site) ok c) : ∀ p ∈ c.procs, ∀ w,
    p.task = .deliver w ∨ p.task = .bounce w → Pairs p.prog := by
  refine procs_invariant (Q := fun _ p => ∀ w, p.task = .deliver w ∨ p.task = .bounce w →
    Pairs p.prog) (fun _ _ _ _ hq => hq) ?_ ?_ (fun _ _ _ hq => hq) h
  · intro c t _ _ _ w ht
    have hlaunch : t = .deliver w ∨ t = .bounce w := ht
    rcases hlaunch with rfl | rfl
    · exact (Delivery.handle_pairs w).bind fun _ => trivial
    · exact (Dsn.handle_pairs _ w).bind fun _ => trivial
  · intro c p o k r f n _ _ _ hk _ hq w ht
    have hpairs := hq w ht
    rw [hk] at hpairs
    exact hpairs.2 r

theorem Step.recorded_kind (hr : Reach (cluster site) ok c) {p : Proc} {id : MsgId} {st : Status}
    {kind : EventKind} {provider detail : String} {r : Bool} {f : Fate}
    (hst : Step site c (.op p (.write (.recordAttempt id st kind provider detail)) r f) c') :
    kind = st.event := by
  obtain ⟨hin, hrec⟩ := hst.recorder hr
  have htask : ∃ w, p.task = .deliver w ∨ p.task = .bounce w := by
    cases hrec with
    | attempt ht | close ht =>
      obtain ⟨j, ht, -⟩ := Task.of_delivers ht
      exact ⟨_, .inl ht⟩
    | note ht =>
      obtain ⟨j, ht, -⟩ := Task.of_bounces ht
      exact ⟨_, .inr ht⟩
  obtain ⟨w, ht⟩ := htask
  have hpairs := recorders_pair hr p hin w ht
  cases hst with
  | op hp hk hx =>
    rw [hk] at hpairs
    exact hpairs.1

/-- Delivery gave the message up: it put a job of it into the DLQ. -/
def GaveUp (ls : List Label) (id : MsgId) : Prop :=
  ∃ p j r f, Label.op p (.write (.publish .dlq j)) r f ∈ ls ∧ f.applied = true ∧
    p.task.delivers id = true ∧ j.messageID = id

theorem GaveUp.later {id : MsgId} (h : GaveUp ls id) (l : Label) : GaveUp (ls ++ [l]) id := by
  obtain ⟨p, j, r, f, hl, hrest⟩ := h
  exact ⟨p, j, r, f, List.mem_append_left _ hl, hrest⟩

/-- Whatever is in the DLQ, or was taken from it, delivery gave up. -/
structure DeadLetters (ls : List Label) (c : Cluster) : Prop where
  queued : ∀ j, (.dlq, .job j) ∈ c.world.bus → GaveUp ls j.messageID
  taken : ∀ p ∈ c.procs, ∀ j, p.task = .bounce (.job j) → GaveUp ls j.messageID

theorem dead_letters (h : Trace (cluster site) ok ls c) : DeadLetters ls c := by
  refine h.invariant (I := DeadLetters) ?_ ?_
  · rintro c rfl
    exact ⟨fun j hj => absurd hj (Multiset.notMem_zero _),
      fun p hp => absurd hp (Multiset.notMem_zero p)⟩
  · intro ls c l c' htrace ih _ hst
    constructor
    · intro j hj
      rcases Step.job_cases hst hj with
        hold | ⟨p, wr, r, f, rfl, hf, hpub⟩ | ⟨q, -, -, hwork⟩ | ⟨p, hp, hheld, -⟩
      · exact (ih.queued j hold).later l
      · cases wr with
        | publish q j' =>
          cases hpub
          refine ⟨p, j, r, f, List.mem_append_right _ (List.mem_singleton_self _), hf, ?_, rfl⟩
          -- of those that publish, only a delivery does so to the DLQ
          obtain ⟨-, hturn⟩ := hst.turn htrace.reach
          generalize p.phase.next (.write _) r = ph' at hturn
          generalize p.phase = ph at hturn
          cases hturn with
          | successor ht =>
            rw [ht]
            exact decide_eq_true rfl
        | publishRelayJob => cases hpub
        | _ => cases hpub
      · cases hwork
      · rcases (procs_ok htrace.reach p hp).held with hnone | ⟨hdel, -⟩
        · cases hheld.symm.trans hnone
        · refine (ih.taken p hp j ?_).later l
          have hdel : p.task.delivery = some (.dlq, .job j) := hdel.symm.trans hheld
          revert hdel
          cases p.task with
          | bounce w =>
            rintro ⟨⟩
            rfl
          | _ => rintro ⟨⟩
    · intro p' hp' j ht
      rcases Step.task_cases hst hp' with ⟨p, hp, hsame⟩ | ⟨-, hdel⟩
      · exact (ih.taken p hp j (hsame.symm.trans ht)).later l
      · refine (ih.queued j (hdel _ ?_)).later l
        rw [ht]
        rfl

/-- **A message that is marked bounced was given up**, whichever way it came to the DLQ. -/
theorem bounced_given_up (h : Trace (cluster site) ok ls c) : ∀ e ∈ c.world.events,
    e.kind = .bounced → GaveUp ls e.messageID := by
  refine h.invariant (I := fun ls c => ∀ e ∈ c.world.events, e.kind = .bounced →
    GaveUp ls e.messageID) ?_ ?_
  · rintro c rfl e he
    exact absurd he List.not_mem_nil
  · intro ls c l c' htrace ih _ hst e he hkind
    rcases Step.events_cases hst with
      hsub | ⟨id, hnew⟩ | ⟨p, id, st, kind, provider, detail, r, f, rfl, -, hnew⟩
    · exact (ih e (hsub.subset he) hkind).later l
    · rw [hnew] at he
      rcases List.mem_append.mp he with hold | hone
      · exact (ih e hold hkind).later l
      · cases List.mem_singleton.mp hone
        cases hkind
    · rw [hnew] at he
      rcases List.mem_append.mp he with hold | hone
      · exact (ih e hold hkind).later _
      · cases List.mem_singleton.mp hone
        obtain ⟨hin, hrec⟩ := hst.recorder htrace.reach
        have hst := (Step.recorded_kind htrace.reach hst).symm.trans hkind
        cases hrec with
        | attempt _ _ hs =>
          rcases hs with rfl | rfl
          · cases hst
          · cases hst
        | close _ _ hs =>
          subst hs
          cases hst
        | note hbounces =>
          obtain ⟨j, htask, rfl⟩ := Task.of_bounces hbounces
          exact ((dead_letters htrace).taken p hin j htask).later _

end

/-! ## The figures of a window -/

/-- The window has an event of this kind of the message. -/
def Shows (recent : List MessageEvent) (kind : EventKind) (id : MsgId) : Prop :=
  ∃ e ∈ recent, e.kind = kind ∧ e.messageID = id

/-- The messages of the events of a kind, one entry for each event. -/
def shown (recent : List MessageEvent) (kind : EventKind) : List MsgId :=
  (recent.filter (·.kind = kind)).map (·.messageID)

theorem mem_shown {recent : List MessageEvent} {kind : EventKind} {id : MsgId} :
    id ∈ shown recent kind ↔ Shows recent kind id := by
  simp [shown, Shows, and_assoc]

theorem length_shown (recent : List MessageEvent) (kind : EventKind) :
    (shown recent kind).length = Admin.byKind recent kind := by
  unfold shown Admin.byKind
  rw [List.length_map, List.countP_eq_length_filter]

theorem shown_sublist {es es' : List MessageEvent} (h : es.Sublist es') (kind : EventKind) :
    (shown es kind).Sublist (shown es' kind) := (h.filter _).map _

theorem shown_concat (es : List MessageEvent) (e : MessageEvent) (kind : EventKind) :
    shown (es ++ [e]) kind = shown es kind ++ if e.kind = kind then [e.messageID] else [] := by
  unfold shown
  rw [List.filter_append, List.map_append]
  by_cases h : e.kind = kind
  · simp [h]
  · simp [h]

/-- The messages that show a kind are at most as many as its events, and as many exactly if no
    message has two. -/
theorem card_shown {recent : List MessageEvent} {kind : EventKind} {S : Finset MsgId}
    (hS : ∀ id, id ∈ S ↔ Shows recent kind id) :
    S.card ≤ Admin.byKind recent kind ∧
      (Admin.byKind recent kind = S.card ↔ (shown recent kind).Nodup) := by
  have hset : S = (shown recent kind).toFinset := by
    ext id
    rw [hS, List.mem_toFinset, mem_shown]
  rw [hset, ← length_shown]
  exact ⟨List.toFinset_card_le _, eq_comm.trans (Multiset.toFinset_card_eq_card_iff_nodup
    (m := (shown recent kind : Multiset MsgId)))⟩

/-- What is asked of the figures: so many messages bounced as there are, and the rate is that of the
    messages. -/
structure Counted (recent : List MessageEvent) (relayed bounced : Finset MsgId) : Prop where
  figure : (Admin.getMetrics recent).bounced24h = bounced.card
  rate : Admin.acceptRate (Admin.getMetrics recent).relayed24h
    (Admin.getMetrics recent).bounced24h = Admin.acceptRate relayed.card bounced.card

/-- Then the rate that is shown is that of the messages, too. -/
theorem Counted.shows {recent : List MessageEvent} {relayed bounced : Finset MsgId}
    (h : Counted recent relayed bounced) :
    (Admin.getMetrics recent).acceptRate =
      Admin.hundredths (Admin.acceptRate relayed.card bounced.card) :=
  congrArg Admin.hundredths h.rate

/-- No message of the window failed with its whole chain, and none was marked bounced twice. -/
structure EachOnce (recent : List MessageEvent) : Prop where
  noFailed : ∀ e ∈ recent, e.kind ≠ .failed
  bounced : (shown recent .bounced).Nodup

theorem EachOnce.sublist {es es' : List MessageEvent} (h : EachOnce es') (hsub : es.Sublist es') :
    EachOnce es where
  noFailed e he := h.noFailed e (hsub.subset he)
  bounced := h.bounced.sublist (shown_sublist hsub _)

theorem bounced_figure_iff {recent : List MessageEvent} {bounced : Finset MsgId}
    (hS : ∀ id, id ∈ bounced ↔ Shows recent .bounced id) :
    (Admin.getMetrics recent).bounced24h = bounced.card ↔ EachOnce recent := by
  obtain ⟨hle, honce⟩ := card_shown hS
  have hfailed : Admin.byKind recent .failed = 0 ↔ ∀ e ∈ recent, e.kind ≠ .failed := by
    unfold Admin.byKind
    simp [List.countP_eq_zero]
  show Admin.byKind recent .bounced + Admin.byKind recent .failed = bounced.card ↔ _
  constructor
  · intro h
    exact ⟨hfailed.mp (by omega), honce.mp (by omega)⟩
  · intro h
    have hzero := hfailed.mpr h.noFailed
    have hsame := honce.mpr h.bounced
    omega

theorem counted_window_iff {recent : List MessageEvent} {relayed bounced : Finset MsgId}
    (hR : ∀ id, id ∈ relayed ↔ Shows recent .relayed id)
    (hS : ∀ id, id ∈ bounced ↔ Shows recent .bounced id) :
    Counted recent relayed bounced ↔
      EachOnce recent ∧ (bounced = ∅ ∨ (shown recent .relayed).Nodup) := by
  have hrate : ∀ b, Admin.acceptRate (Admin.byKind recent .relayed) b =
      Admin.acceptRate relayed.card b ↔ b = 0 ∨ (shown recent .relayed).Nodup := fun b => by
    rw [Admin.acceptRate_eq_iff, (card_shown hR).2]
  constructor
  · intro h
    refine ⟨(bounced_figure_iff hS).mp h.figure, ?_⟩
    have hr := h.rate
    rw [h.figure] at hr
    exact ((hrate _).mp hr).imp_left Finset.card_eq_zero.mp
  · rintro ⟨honce, hor⟩
    have hb := (bounced_figure_iff hS).mpr honce
    refine ⟨hb, ?_⟩
    rw [hb]
    exact (hrate _).mpr (hor.imp_left Finset.card_eq_zero.mpr)

/-! ## The figures of a run -/

/-- A part of the table, with the messages that were relayed in it, and those that delivery gave up
    and that were bounced in it. -/
structure Window (ls : List Label) (c : Cluster) (recent : List MessageEvent)
    (relayed bounced : Finset MsgId) : Prop where
  part : recent.Sublist c.world.events
  relayed : ∀ id, id ∈ relayed ↔ Shows recent .relayed id
  bounced : ∀ id, id ∈ bounced ↔ GaveUp ls id ∧ Shows recent .bounced id

/-- **The condition on a step.**  It records no failure of a whole chain, and no bounce and no relay
    of a message that has one. -/
def singly (c : Cluster) : Label → Prop
  | .op _ (.write (.recordAttempt id _ kind _ _)) _ f => f.applied = true →
      kind ≠ .failed ∧ (kind = .bounced ∨ kind = .relayed → ¬ Shows c.world.events kind id)
  | _ => True

section
variable {site : Site} {ok : Cluster → Label → Prop} {c : Cluster} {ls : List Label}
  {recent : List MessageEvent} {relayed bounced : Finset MsgId}

/-- Being bounced in the window is enough: the message was given up. -/
theorem Window.marked (hw : Window ls c recent relayed bounced)
    (h : Trace (cluster site) ok ls c) (id : MsgId) : id ∈ bounced ↔ Shows recent .bounced id := by
  refine (hw.bounced id).trans ⟨fun hb => hb.2, fun hs => ⟨?_, hs⟩⟩
  obtain ⟨e, he, hkind, rfl⟩ := hs
  exact bounced_given_up h e (hw.part.subset he) hkind

/-- So every part of the table is a window. -/
theorem Window.of (h : Trace (cluster site) ok ls c) (hsub : recent.Sublist c.world.events) :
    Window ls c recent (shown recent .relayed).toFinset (shown recent .bounced).toFinset where
  part := hsub
  relayed id := by rw [List.mem_toFinset, mem_shown]
  bounced id := by
    rw [List.mem_toFinset, mem_shown]
    refine ⟨fun hs => ⟨?_, hs⟩, fun hb => hb.2⟩
    obtain ⟨e, he, hkind, rfl⟩ := hs
    exact bounced_given_up h e (hsub.subset he) hkind

/-- Recorded singly, every event of these kinds is the only one of its message. -/
theorem recorded_singly (h : Reach (cluster site) singly c) :
    EachOnce c.world.events ∧ (shown c.world.events .relayed).Nodup := by
  refine h.invariant
    (I := fun c => EachOnce c.world.events ∧ (shown c.world.events .relayed).Nodup) ?_ ?_
  · rintro c rfl
    exact ⟨⟨fun e he => absurd he List.not_mem_nil, List.nodup_nil⟩, List.nodup_nil⟩
  · rintro c l c' - ⟨honce, hrel⟩ hok hst
    -- the events of another kind are as before, and those of the new one get a message they lack
    have hadd : ∀ (e : MessageEvent) (kind : EventKind), (shown c.world.events kind).Nodup →
        (e.kind = kind → ¬ Shows c.world.events kind e.messageID) →
          (shown (c.world.events ++ [e]) kind).Nodup := by
      intro e kind hnodup hnew
      rw [shown_concat]
      by_cases hk : e.kind = kind
      · rw [if_pos hk, ← List.concat_eq_append]
        exact hnodup.concat fun hmem => hnew hk (mem_shown.mp hmem)
      · rw [if_neg hk, List.append_nil]
        exact hnodup
    rcases Step.events_cases hst with
      hsub | ⟨id, hnew⟩ | ⟨p, id, st, kind, provider, detail, r, f, rfl, hf, hnew⟩
    · exact ⟨honce.sublist hsub, hrel.sublist (shown_sublist hsub _)⟩
    · rw [hnew]
      refine ⟨⟨fun e he => ?_, hadd _ _ honce.bounced nofun⟩, hadd _ _ hrel nofun⟩
      rcases List.mem_append.mp he with hold | hone
      · exact honce.noFailed e hold
      · cases List.mem_singleton.mp hone
        exact nofun
    · obtain ⟨hnf, hfresh⟩ := hok hf
      rw [hnew]
      refine ⟨⟨fun e he => ?_, hadd _ _ honce.bounced fun hk => ?_⟩, hadd _ _ hrel fun hk => ?_⟩
      · rcases List.mem_append.mp he with hold | hone
        · exact honce.noFailed e hold
        · cases List.mem_singleton.mp hone
          exact hnf
      · exact hk ▸ hfresh (.inl hk)
      · exact hk ▸ hfresh (.inr hk)

end

/-- **Each failed message counts once exactly if** no whole chain failed in the window and no
    message was marked bounced twice in it; the rate is then that of the messages unless something
    bounced and a message was relayed twice.  Of every run and every part of its events; and in a
    run whose steps record singly, always. -/
theorem counts_once_iff (site : Site) (ls : List Label) (c : Cluster)
    (recent : List MessageEvent) (relayed bounced : Finset MsgId) :
    (∀ ok : Cluster → Label → Prop,
      Trace (cluster site) ok ls c → Window ls c recent relayed bounced →
        ((Admin.getMetrics recent).bounced24h = bounced.card ↔ EachOnce recent) ∧
        (Counted recent relayed bounced ↔
          EachOnce recent ∧ (bounced = ∅ ∨ (shown recent .relayed).Nodup))) ∧
    (Trace (cluster site) singly ls c → Window ls c recent relayed bounced →
      Counted recent relayed bounced ∧
        (Admin.getMetrics recent).acceptRate =
          Admin.hundredths (Admin.acceptRate relayed.card bounced.card)) := by
  constructor
  · intro ok h hw
    exact ⟨bounced_figure_iff (hw.marked h), counted_window_iff hw.relayed (hw.marked h)⟩
  · intro h hw
    obtain ⟨honce, hrel⟩ := recorded_singly h.reach
    have hcounted : Counted recent relayed bounced :=
      (counted_window_iff hw.relayed (hw.marked h)).mpr
        ⟨honce.sublist hw.part, .inr (hrel.sublist (shown_sublist hw.part _))⟩
    exact ⟨hcounted, hcounted.shows⟩

/-! ## Tiers exhausted, and a chain failed -/

/-- No task is about to record a chain failure, or to bounce or relay a message again. -/
def Stage.single (s : Stage) : Bool :=
  s.procs.all fun p => match p.prog with
    | .call (.write (.recordAttempt id _ kind _ _)) _ =>
      kind ≠ .failed ∧ (kind = .bounced ∨ kind = .relayed → id ∉ shown s.world.events kind)
    | _ => true

theorem Stage.single_singly {s : Stage} {l : Label} {c' : Cluster} {site : Site}
    (h : s.single = true) (hst : Step site s.cluster l c') : singly s.cluster l := by
  cases hst with
  | @op p ps o k r f n hp hk hx =>
    have hin : p ∈ s.cluster.procs := hp ▸ Multiset.mem_cons_self _ _
    have hp := List.all_eq_true.mp h p (Multiset.mem_coe.mp hin)
    rw [hk] at hp
    cases o with
    | write wr =>
      cases wr with
      | recordAttempt id st kind provider detail =>
        obtain ⟨hnf, hnew⟩ := of_decide_eq_true hp
        exact fun _ => ⟨hnf, fun hkind hshows => hnew hkind (mem_shown.mpr hshows)⟩
      | _ => trivial
    | _ => trivial
  | _ => trivial

/-- A message is deferred through every tier into the DLQ, and marked bounced. -/
def exhaustedScript : List Cue :=
  [.start (.submit oneRecipient [])] ++ Cue.calls 0 "m1" 7 ++
    [.start (.deliver (.job (deferredJob 0)))] ++ Cue.calls 0 "" 7 ++
    [.expire .wait30s (.job (deferredJob 1)), .start (.deliver (.job (deferredJob 1)))] ++
    Cue.calls 0 "" 7 ++
    [.expire .wait5m (.job (deferredJob 2)), .start (.deliver (.job (deferredJob 2)))] ++
    Cue.calls 0 "" 7 ++
    [.expire .wait30m (.job (deferredJob 3)), .start (.deliver (.job (deferredJob 3)))] ++
    Cue.calls 0 "" 7 ++ [.start (.bounce (.job (deferredJob 4)))] ++ Cue.calls 0 "" 2

/-- Its message is one bounced message. -/
theorem counts_once_exhausted : ∃ ls c, Trace (cluster (plainSite anyReply)) singly ls c ∧
    shown c.world.events .bounced = ["m1"] ∧
      Counted c.world.events (shown c.world.events .relayed).toFinset
        (shown c.world.events .bounced).toFinset ∧ EachOnce c.world.events := by
  have hplay : (Stage.passing (plainSite anyReply) deferringOracle Stage.single {}
      exhaustedScript).any (fun s => shown s.world.events .bounced = ["m1"]) = true := by decide
  obtain ⟨s, hs, hend⟩ := (Option.any_eq_true _ _).mp hplay
  have hr : Reach (cluster (plainSite anyReply)) singly s.cluster :=
    Stage.passing_reach (fun _ _ _ _ _ hsingle hst _ => Stage.single_singly hsingle hst)
      Stage.empty_reach hs
  obtain ⟨ls, htrace⟩ := hr.trace
  have hw := Window.of htrace (List.Sublist.refl _)
  have hcounted := ((counts_once_iff _ ls s.cluster _ _ _).2 htrace hw).1
  exact ⟨ls, s.cluster, htrace, of_decide_eq_true hend, hcounted,
    ((counts_once_iff _ ls s.cluster _ _ _).1 _ htrace hw).1.mp hcounted.figure⟩

/-- A message is refused by the whole chain, and marked bounced. -/
def refusedScript : List Cue :=
  [.start (.submit oneRecipient [])] ++ Cue.calls 0 "m1" 7 ++
    [.start (.deliver (.job (Ingress.relayJob oneRecipient "m1")))] ++ Cue.calls 0 "" 10 ++
    [.start (.bounce (.job (Ingress.relayJob oneRecipient "m1")))] ++ Cue.calls 0 "" 2

/-- **A message whose chain failed counts as two.** -/
theorem refused_counts_twice :
    ¬ ∀ (site : Site) (ls : List Label) (c : Cluster) (recent : List MessageEvent)
      (relayed bounced : Finset MsgId), Trace (cluster site) calm ls c →
        Window ls c recent relayed bounced →
          (Admin.getMetrics recent).bounced24h = bounced.card := by
  intro hclaim
  have hplay : (Stage.script (plainSite anyReply) refusingOracle {} refusedScript).any (fun s =>
      shown s.world.events .bounced = ["m1"] ∧
        (Admin.getMetrics s.world.events).bounced24h = 2) = true := by decide
  obtain ⟨s, hs, hend⟩ := (Option.any_eq_true _ _).mp hplay
  obtain ⟨hone, htwo⟩ := of_decide_eq_true hend
  have htrace := Stage.script_calm_trace (by decide) hs
  have hcount := hclaim _ _ s.cluster _ _ _ htrace (Window.of htrace (List.Sublist.refl _))
  have hcard : (shown s.cluster.world.events .bounced).toFinset.card = 1 := by
    rw [show shown s.cluster.world.events .bounced = ["m1"] from hone]
    rfl
  rw [hcard, show (Admin.getMetrics s.cluster.world.events).bounced24h = 2 from htwo] at hcount
  omega

end Novamail

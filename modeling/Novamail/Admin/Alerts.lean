/-
  `alerts.ts`: when a change of a domain's status is alerted.

  `evalTransition` reads the row of a domain and writes it back; it is a program over the statements
  it makes, since nothing keeps two processes from interleaving theirs.  One evaluation after
  another, it is the debounced detector of `Core.Debounce`.
-/
import Novamail.Admin.Spf
import Novamail.Core.Debounce
import Novamail.Core.Prog
import Mathlib.Logic.Function.Basic

namespace Novamail.Alerts

open Novamail.Core Novamail.Deliverability

/-! ## The data -/

/-- `DEBOUNCE`. -/
def debounce : Nat := 2

/-- A row of `domain_alert_state`. -/
structure AlertState where
  lastAlertedStatus : CheckStatus
  pendingStatus : Option CheckStatus := none
  consecutive : Nat := 0
  deriving DecidableEq, Repr

/-- `domain_alert_state`, by domain. -/
abbrev AlertTable := String → Option AlertState

/-- A row of `alert_channels`, as `loadChannels` reads it. -/
structure Channel where
  id : String
  name : String
  type : String
  target : Option String
  secret : Option String
  minSeverity : String
  deriving DecidableEq, Repr

/-- `DomainReport`. -/
structure DomainReport where
  domain : String
  checkedAt : String
  status : CheckStatus
  records : List RecordReport
  deriving DecidableEq, Repr

inductive EventKind where
  | regression | recovery
  deriving DecidableEq, Repr

/-- What `evalTransition` returns of a transition. -/
structure Transition where
  event : EventKind
  was : CheckStatus
  deriving DecidableEq, Repr

/-- The text of a status in the database and in messages. -/
def statusText : CheckStatus → String
  | .ok => "ok"
  | .warning => "warning"
  | .error => "error"
  | .info => "info"

/-- `SEVERITY[s] ?? dflt`. -/
def severity (dflt : Nat) (s : String) : Nat :=
  if s = "ok" then 0 else if s = "info" then 0 else if s = "warning" then 1
  else if s = "error" then 2 else dflt

/-- `shouldSend`. -/
def shouldSend (ch : Channel) (event : EventKind) (status : CheckStatus) : Bool :=
  event = .recovery || severity 1 ch.minSeverity ≤ severity 0 (statusText status)

/-! ## The programs -/

inductive AlertOp where
  /-- `select … from domain_alert_state where domain = $1`. -/
  | select (domain : String)
  /-- `insert into domain_alert_state`, which fails on a row that is there. -/
  | insert (domain : String) (now : CheckStatus)
  /-- `set pending_status=null, consecutive=0`. -/
  | reset (domain : String)
  /-- `set pending_status=$2, consecutive=$3`. -/
  | pend (domain : String) (now : CheckStatus) (consecutive : Nat)
  /-- `set last_alerted_status=$2, pending_status=null, consecutive=0`. -/
  | alert (domain : String) (now : CheckStatus)
  /-- `loadChannels`; none is an error. -/
  | loadChannels
  /-- `send`, whatever comes of it. -/
  | send (ch : Channel) (event : EventKind) (rep : DomainReport) (was : CheckStatus)
  deriving DecidableEq, Repr

/-- What a call answers.  A read may throw, a write answers whether it succeeded. -/
@[reducible] def AlertOp.Ret : AlertOp → Type
  | .select _ => Except Unit (Option AlertState)
  | .insert _ _ | .reset _ | .pend _ _ _ | .alert _ _ => Bool
  | .loadChannels => Option (List Channel)
  | .send _ _ _ _ => Unit

/-- A program of the alerting. -/
abbrev Alerting (α : Type) := Prog AlertOp.Ret α

section

variable (domain : String)

def select : Alerting (Except Unit (Option AlertState)) := Prog.lift (AlertOp.select domain)
def insert (now : CheckStatus) : Alerting Bool := Prog.lift (AlertOp.insert domain now)
def reset : Alerting Bool := Prog.lift (AlertOp.reset domain)
def pend (now : CheckStatus) (consecutive : Nat) : Alerting Bool :=
  Prog.lift (AlertOp.pend domain now consecutive)
def alert (now : CheckStatus) : Alerting Bool := Prog.lift (AlertOp.alert domain now)

end

/-- A statement that fails throws. -/
def throwing {α : Type} (m : Alerting Bool) (a : α) : Alerting (Except Unit α) := do
  if ← m then pure (.ok a) else pure (.error ())

/-- The event of a transition to this status. -/
def eventOf (now : CheckStatus) : EventKind := if now = .ok then .recovery else .regression

/-- `evalTransition`. -/
def evalTransition (domain : String) (now : CheckStatus) :
    Alerting (Except Unit (Option Transition)) := do
  match ← select domain with
  | .error () => pure (.error ())
  | .ok none => throwing (insert domain now) none
  | .ok (some st) =>
    if now = st.lastAlertedStatus then throwing (reset domain) none
    else
      let consecutive := if some now = st.pendingStatus then st.consecutive + 1 else 1
      if consecutive < debounce then throwing (pend domain now consecutive) none
      else throwing (alert domain now) (some ⟨eventOf now, st.lastAlertedStatus⟩)

/-- The loop of `dispatchAlerts` over the channels. -/
def notify (rep : DomainReport) (t : Transition) : List Channel → Alerting Unit
  | [] => pure ()
  | ch :: chs =>
    if shouldSend ch t.event rep.status then do
      Prog.lift (AlertOp.send ch t.event rep t.was)
      notify rep t chs
    else notify rep t chs

/-- The loop of `dispatchAlerts` over the reports; an evaluation that throws is logged. -/
def dispatchEach (channels : List Channel) : List DomainReport → Alerting Unit
  | [] => pure ()
  | rep :: reps => do
    match ← evalTransition rep.domain rep.status with
    | .error () => dispatchEach channels reps
    | .ok none => dispatchEach channels reps
    | .ok (some t) => do
      notify rep t channels
      dispatchEach channels reps

/-- `dispatchAlerts`. -/
def dispatchAlerts (reports : List DomainReport) : Alerting Unit := do
  match ← Prog.lift AlertOp.loadChannels with
  | none => pure ()
  | some channels => if channels.isEmpty then pure () else dispatchEach channels reports

/-! ## The table -/

/-- A change to the row of a domain, if there is one. -/
def AlertTable.change (t : AlertTable) (domain : String) (f : AlertState → AlertState) : AlertTable :=
  Function.update t domain ((t domain).map f)

/-- A call on the table: its answer, and the table after it.  The database does not fail. -/
inductive AlertOp.Exec (t : AlertTable) : (o : AlertOp) → o.Ret → AlertTable → Prop where
  | select (d : String) : Exec t (.select d) (.ok (t d)) t
  | insert {d : String} {now : CheckStatus} (hnone : t d = none) :
      Exec t (.insert d now) true
        (Function.update t d (some { lastAlertedStatus := now }))
  | conflict {d : String} {now : CheckStatus} {st : AlertState} (hsome : t d = some st) :
      Exec t (.insert d now) false t
  | reset (d : String) :
      Exec t (.reset d) true
        (t.change d fun st => { st with pendingStatus := none, consecutive := 0 })
  | pend (d : String) (now : CheckStatus) (n : Nat) :
      Exec t (.pend d now n) true
        (t.change d fun st => { st with pendingStatus := some now, consecutive := n })
  | alert (d : String) (now : CheckStatus) :
      Exec t (.alert d now) true (t.change d fun _ => { lastAlertedStatus := now })
  | loadChannels (answer : Option (List Channel)) : Exec t .loadChannels answer t
  | send (ch : Channel) (event : EventKind) (rep : DomainReport) (was : CheckStatus) :
      Exec t (.send ch event rep was) () t

/-! ## One evaluation after another -/

/-- The row as a detector. -/
def AlertState.detector (st : AlertState) : Debounce.Detector CheckStatus :=
  ⟨st.lastAlertedStatus, st.pendingStatus, st.consecutive⟩

/-- A detector as a row. -/
def rowOf (d : Debounce.Detector CheckStatus) : AlertState := ⟨d.last, d.pending, d.count⟩

/-- The event of a status that differs from what was alerted. -/
def transitionOf (now was : CheckStatus) : Transition := ⟨eventOf now, was⟩

/-- One evaluation on a table. -/
abbrev Evaluates (t : AlertTable) (domain : String) (now : CheckStatus)
    (r : Except Unit (Option Transition)) (t' : AlertTable) : Prop :=
  Prog.Run AlertOp.Exec t (evalTransition domain now) r t'

/-- **An evaluation feeds the detector**: whatever the run, it does not throw, the row of the domain
    is that of the detector afterwards, and the event is what the detector announces. -/
theorem evaluates_feed {t t' : AlertTable} {domain : String} {now : CheckStatus}
    {r : Except Unit (Option Transition)} (h : Evaluates t domain now r t') :
    (t' domain).map AlertState.detector =
        some (Debounce.feed debounce now ((t domain).map AlertState.detector)).1 ∧
      r = .ok ((Debounce.feed debounce now ((t domain).map AlertState.detector)).2.map
        (transitionOf now)) := by
  have hrow : ∀ f : AlertState → AlertState,
      (t.change domain f) domain = (t domain).map f := fun f => Function.update_self ..
  cases h with
  | call head rest =>
    cases head
    cases hst : t domain with
    | none =>
      rw [hst] at rest
      cases rest with
      | call head rest =>
        cases head with
        | insert hnone =>
          cases rest
          exact ⟨by rw [Function.update_self]; rfl, rfl⟩
        | conflict hsome =>
          rw [hst] at hsome
          cases hsome
    | some st =>
      rw [hst] at rest hrow
      have hrest : Prog.Run AlertOp.Exec t
          (if now = st.lastAlertedStatus then throwing (reset domain) none
          else if (if some now = st.pendingStatus then st.consecutive + 1 else 1) < debounce then
            throwing (pend domain now
              (if some now = st.pendingStatus then st.consecutive + 1 else 1)) none
          else throwing (alert domain now) (some ⟨eventOf now, st.lastAlertedStatus⟩)) r t' := rest
      rw [Option.map_some]
      by_cases hsame : now = st.lastAlertedStatus
      · rw [Debounce.feed_same hsame]
        rw [if_pos hsame] at hrest
        cases hrest with
        | call head rest =>
          cases head
          cases rest
          exact ⟨by rw [hrow]; rfl, rfl⟩
      · rw [if_neg hsame] at hrest
        by_cases hfew : (if some now = st.pendingStatus then st.consecutive + 1 else 1) < debounce
        · rw [Debounce.feed_few hsame rfl hfew]
          rw [if_pos hfew] at hrest
          cases hrest with
          | call head rest =>
            cases head
            cases rest
            exact ⟨by rw [hrow]; rfl, rfl⟩
        · rw [Debounce.feed_fires hsame rfl hfew]
          rw [if_neg hfew] at hrest
          cases hrest with
          | call head rest =>
            cases head
            cases rest
            exact ⟨by rw [hrow]; rfl, rfl⟩

/-- Every evaluation can be run. -/
theorem exists_evaluates (domain : String) (t : AlertTable) (now : CheckStatus) :
    ∃ r t', Evaluates t domain now r t' := by
  cases hst : t domain with
  | none =>
    have hselect : AlertOp.Exec t (.select domain) (.ok none) t := hst ▸ .select domain
    have hrest : Prog.Run AlertOp.Exec t (throwing (insert domain now) (none : Option Transition))
        (.ok none) _ := .call (.insert hst) .pure
    exact ⟨_, _, .call hselect hrest⟩
  | some st =>
    have hselect : AlertOp.Exec t (.select domain) (.ok (some st)) t := hst ▸ .select domain
    have hrest : ∀ c, ∃ r t', Prog.Run AlertOp.Exec t
        (if now = st.lastAlertedStatus then throwing (reset domain) none
        else if c < debounce then throwing (pend domain now c) none
        else throwing (alert domain now) (some (transitionOf now st.lastAlertedStatus))) r t' := by
      intro c
      split
      · have hreset : Prog.Run AlertOp.Exec t (throwing (reset domain) (none : Option Transition))
            (.ok none) _ := .call (.reset domain) .pure
        exact ⟨_, _, hreset⟩
      · split
        · have hpend : Prog.Run AlertOp.Exec t
              (throwing (pend domain now c) (none : Option Transition)) (.ok none) _ :=
            .call (.pend domain now c) .pure
          exact ⟨_, _, hpend⟩
        · have halert : Prog.Run AlertOp.Exec t
              (throwing (alert domain now) (some (transitionOf now st.lastAlertedStatus)))
              (.ok (some (transitionOf now st.lastAlertedStatus))) _ :=
            .call (.alert domain now) .pure
          exact ⟨_, _, halert⟩
    obtain ⟨r, t', hrun⟩ :=
      hrest (if some now = st.pendingStatus then st.consecutive + 1 else 1)
    exact ⟨r, t', .call hselect hrun⟩

/-! ## The debounce law -/

/-- The status alerted last before the evaluation `i`; the first status where there was none. -/
def lastAlerted (s : Nat → CheckStatus) (e : Nat → Option Transition) : Nat → CheckStatus
  | 0 => s 0
  | i + 1 => if (e i).isSome then s i else lastAlerted s e i

section

variable {domain : String} {n : Nat} {s : Nat → CheckStatus} {t : Nat → AlertTable}
  {r : Nat → Except Unit (Option Transition)}

/-- The row is the detector, from evaluation to evaluation. -/
theorem rows_detector (hstart : t 0 domain = none)
    (hrun : ∀ i < n, Evaluates (t i) domain (s i) (r i) (t (i + 1))) {i : Nat} (hi : i ≤ n) :
    (t i domain).map AlertState.detector = Debounce.detector debounce s i := by
  induction i with
  | zero =>
    rw [hstart]
    rfl
  | succ i ih =>
    have hfeed := (evaluates_feed (hrun i (by omega))).1
    rw [ih (by omega)] at hfeed
    exact hfeed

/-- **Debounced edge detection.**  `n` evaluations of a domain, one after another from no row, each
    end with an event or without: there is one exactly where a status comes for the second time in a
    row and differs from the one alerted last; it is a recovery iff the status is ok, and names the
    status alerted last; two events with none between them differ in their status; and after two
    equal statuses in a row the status alerted last is theirs. -/
theorem debounced_edges (hstart : t 0 domain = none)
    (hrun : ∀ i < n, Evaluates (t i) domain (s i) (r i) (t (i + 1))) :
    ∃ e : Nat → Option Transition, (∀ i < n, r i = .ok (e i)) ∧
      (∀ i < n, (e i).isSome ↔ 0 < i ∧ s i = s (i - 1) ∧ s i ≠ lastAlerted s e i) ∧
      (∀ i < n, ∀ x, e i = some x →
        (x.event = .recovery ↔ s i = .ok) ∧ x.was = lastAlerted s e i) ∧
      (∀ i j, i < j → j < n → (e i).isSome → (e j).isSome →
        (∀ m, i < m → m < j → e m = none) → s i ≠ s j) ∧
      (∀ i, i + 1 < n → s i = s (i + 1) → lastAlerted s e (i + 2) = s (i + 1)) := by
  let e : Nat → Option Transition := fun i => (Debounce.fires debounce s i).map (transitionOf (s i))
  have hsome : ∀ i, (e i).isSome ↔ (Debounce.fires debounce s i).isSome := by
    intro i
    rw [Option.isSome_map]
  have hlast : ∀ i, lastAlerted s e i = Debounce.announced debounce s i := by
    intro i
    induction i with
    | zero => rfl
    | succ i ih =>
      unfold lastAlerted Debounce.announced
      rw [ih]
      exact if_congr (hsome i) rfl rfl
  have hfires : ∀ i, (e i).isSome ↔ s i ≠ lastAlerted s e i ∧ debounce ≤ Debounce.streak s i := by
    intro i
    rw [hsome, hlast]
    exact Debounce.fires_isSome_iff i
  refine ⟨e, ?_, ?_, ?_, ?_, ?_⟩
  · intro i hi
    have hresult := (evaluates_feed (hrun i hi)).2
    rw [rows_detector hstart hrun (by omega)] at hresult
    exact hresult
  · intro i hi
    rw [hfires, show debounce = 2 from rfl, Debounce.two_le_streak]
    constructor
    · rintro ⟨hne, hpos, hsame⟩
      exact ⟨hpos, hsame, hne⟩
    · rintro ⟨hpos, hsame, hne⟩
      exact ⟨hne, hpos, hsame⟩
  · intro i hi x hx
    obtain ⟨was, hwas, rfl⟩ := Option.map_eq_some_iff.mp hx
    obtain ⟨-, -, heq⟩ := (Debounce.fires_iff i was).mp hwas
    refine ⟨?_, ?_⟩
    · show eventOf (s i) = .recovery ↔ _
      unfold eventOf
      split
      · rename_i hok
        exact iff_of_true rfl hok
      · rename_i hok
        exact iff_of_false (by decide) hok
    · rw [hlast]
      exact heq
  · intro i j hij hj hi hj' hbetween heq
    have hnone : ∀ m, i < m → m < j → Debounce.fires debounce s m = none := by
      intro m hm hmj
      exact Option.map_eq_none_iff.mp (hbetween m hm hmj)
    have hstands := Debounce.announced_stands hij ((hsome i).mp hi) hnone
    have hne := ((hfires j).mp hj').1
    rw [hlast, hstands] at hne
    exact hne heq.symm
  · intro i hi hsame
    rw [hlast]
    refine Debounce.announced_of_streak ?_
    rw [show debounce = 2 from rfl, Debounce.two_le_streak]
    exact ⟨by omega, hsame.symm⟩

end

/-- Every sequence of statuses can be evaluated, from an empty table. -/
theorem exists_history (domain : String) (s : Nat → CheckStatus) :
    ∃ (t : Nat → AlertTable) (r : Nat → Except Unit (Option Transition)), t 0 domain = none ∧
      ∀ i, Evaluates (t i) domain (s i) (r i) (t (i + 1)) := by
  choose r next hnext using exists_evaluates domain
  let t : Nat → AlertTable := fun i => Nat.rec (fun _ => none) (fun i ti => next ti (s i)) i
  exact ⟨t, fun i => r (t i) (s i), rfl, fun i => hnext (t i) (s i)⟩

/-- Ok, then an error for good. -/
def breaking (i : Nat) : CheckStatus := if i = 0 then .ok else .error

/-- The second error in a row is alerted. -/
theorem debounced_edges_breaking :
    ∃ (t : Nat → AlertTable) (r : Nat → Except Unit (Option Transition)), t 0 "example.com" = none ∧
      (∀ i < 3, Evaluates (t i) "example.com" (breaking i) (r i) (t (i + 1))) ∧
      r 2 = .ok (some ⟨.regression, .ok⟩) := by
  obtain ⟨t, r, hstart, hrun⟩ := exists_history "example.com" breaking
  refine ⟨t, r, hstart, fun i _ => hrun i, ?_⟩
  obtain ⟨e, hresult, hedge, hkind, -⟩ := debounced_edges hstart fun i (_ : i < 3) => hrun i
  have h0 : ¬(e 0).isSome := fun h => absurd ((hedge 0 (by omega)).mp h).1 (by omega)
  have h1 : ¬(e 1).isSome := fun h => absurd ((hedge 1 (by omega)).mp h).2.1 (by decide)
  have hlast : lastAlerted breaking e 2 = .ok := by
    simp only [lastAlerted, if_neg h0, if_neg h1]
    decide
  have h2 : (e 2).isSome := (hedge 2 (by omega)).mpr ⟨by omega, rfl, by rw [hlast]; decide⟩
  obtain ⟨x, hx⟩ := Option.isSome_iff_exists.mp h2
  obtain ⟨hrecovery, hwas⟩ := hkind 2 (by omega) x hx
  rw [hresult 2 (by omega), hx]
  obtain ⟨event, was⟩ := x
  rw [show was = .ok from hwas.trans hlast]
  cases event with
  | regression => rfl
  | recovery => exact absurd (hrecovery.mp rfl) (by decide)

end Novamail.Alerts

/-
  The alerting of several admin-api processes on one database.

  Every process ticks on its own: a tick has refreshed its domains and runs `dispatchAlerts` over
  the reports, one statement at a time, between the statements of the others.  The row an evaluation
  has read may be old by the time it writes.  The fields `changed`, `changes`, `seen` and `fired`
  of the system, and `read` of a tick, are the history the statements are about: no step looks at
  them.
-/
import Novamail.Admin.Alerts
import Novamail.Core.System
import Mathlib.Data.List.Chain
import Mathlib.Data.List.Nodup

namespace Novamail.Alerts

open Novamail.Core Novamail.Deliverability

/-! ## The system -/

/-- A status found pending: the number of the `pend` that put it there, and the refresh period of
    the tick that did. -/
structure Change where
  no : Nat
  period : Nat
  deriving DecidableEq, Repr

/-- A row as it was read, with what was pending and how often the domain had been alerted. -/
structure Reading where
  domain : String
  row : AlertState
  change : Change
  alerted : Nat
  deriving DecidableEq, Repr

/-- A tick of a process that has refreshed and now dispatches. -/
structure Tick where
  period : Nat
  reports : List DomainReport
  read : Option Reading := none
  rest : Alerting Unit

/-- A status that a process saw of a domain. -/
structure Sighting where
  process : Nat
  period : Nat
  domain : String
  status : CheckStatus
  deriving DecidableEq, Repr

/-- An event: a transition, and the number of the pending change that it completes. -/
structure Event where
  domain : String
  now : CheckStatus
  was : CheckStatus
  change : Nat
  deriving DecidableEq, Repr

structure Replicas where
  table : AlertTable := fun _ => none
  /-- What is pending for a domain. -/
  changed : String → Change := fun _ => ⟨0, 0⟩
  changes : Nat := 0
  period : Nat := 0
  /-- The period a process ticked in last. -/
  ticked : Nat → Option Nat := fun _ => none
  ticks : Nat → Option Tick := fun _ => none
  seen : List Sighting := []
  fired : List Event := []

inductive Move where
  /-- The process has refreshed, with these reports, and dispatches. -/
  | tick (process : Nat) (reports : List DomainReport)
  /-- A statement of a tick, and its answer. -/
  | call (process : Nat) (o : AlertOp) (answer : o.Ret)
  /-- The tick ends, or the process does. -/
  | stop (process : Nat)
  /-- The next refresh period begins. -/
  | advance

namespace Replicas

variable (s : Replicas)

/-- The events of a domain. -/
def alertsOf (domain : String) : List Event := s.fired.filter fun e => e.domain = domain

/-- Some process saw the status of the domain in the period. -/
def Saw (period : Nat) (domain : String) (status : CheckStatus) : Prop :=
  ∃ x ∈ s.seen, x.period = period ∧ x.domain = domain ∧ x.status = status

/-- The row as it is read now. -/
def reading (domain : String) (row : AlertState) : Reading :=
  ⟨domain, row, s.changed domain, (s.alertsOf domain).length⟩

/-- What a tick has read last, after one more call. -/
def readAfter (k : Tick) : (o : AlertOp) → o.Ret → Option Reading
  | .select d, .ok (some row) => some (s.reading d row)
  | _, _ => k.read

/-- What is pending, after one more call of a tick. -/
def changedAfter (k : Tick) : AlertOp → String → Change
  | .pend d _ _ => Function.update s.changed d ⟨s.changes, k.period⟩
  | _ => s.changed

def changesAfter : AlertOp → Nat
  | .pend _ _ _ => s.changes + 1
  | _ => s.changes

/-- The events, after one more call of a tick. -/
def firedAfter (k : Tick) : AlertOp → List Event
  | .alert d now =>
    s.fired ++ k.read.toList.map fun q => ⟨d, now, q.row.lastAlertedStatus, q.change.no⟩
  | _ => s.fired

def begins (i : Nat) (reports : List DomainReport) : Replicas :=
  { s with
    ticked := Function.update s.ticked i (some s.period)
    ticks := Function.update s.ticks i
      (some { period := s.period, reports, rest := dispatchAlerts reports })
    seen := s.seen ++ reports.map fun rep => ⟨i, s.period, rep.domain, rep.status⟩ }

def calls (i : Nat) (k : Tick) (o : AlertOp) (a : o.Ret) (table : AlertTable)
    (rest : Alerting Unit) : Replicas :=
  { s with
    table
    changed := s.changedAfter k o
    changes := s.changesAfter o
    ticks := Function.update s.ticks i (some { k with read := s.readAfter k o a, rest })
    fired := s.firedAfter k o }

def stops (i : Nat) : Replicas := { s with ticks := Function.update s.ticks i none }

def advances : Replicas := { s with period := s.period + 1 }

/-- A step.  A process ticks once in a period, and a refresh has one report of a domain. -/
inductive Step : Replicas → Move → Replicas → Prop where
  | tick {s : Replicas} {i : Nat} {reports : List DomainReport} (hidle : s.ticks i = none)
      (hdue : s.ticked i ≠ some s.period) (hkey : (reports.map DomainReport.domain).Nodup) :
      Step s (.tick i reports) (s.begins i reports)
  | call {s : Replicas} {i : Nat} {k : Tick} {o : AlertOp} {a : o.Ret} {table : AlertTable}
      {rest : o.Ret → Alerting Unit} (hrun : s.ticks i = some k) (hcall : k.rest = .call o rest)
      (hexec : AlertOp.Exec s.table o a table) :
      Step s (.call i o a) (s.calls i k o a table (rest a))
  | stop (s : Replicas) (i : Nat) : Step s (.stop i) (s.stops i)
  | advance (s : Replicas) : Step s .advance s.advances

end Replicas

/-- Any number of processes, from an empty table. -/
def replicas : LTS Replicas Move where
  init s := s = {}
  step := Replicas.Step

/-! ## The properties -/

/-- Every transition is alerted at most once, an event starts from the status alerted before it and
    carries another, and none fires on a status that was seen in one period only. -/
structure Replicas.Safe (s : Replicas) : Prop where
  once : ∀ d, ((s.alertsOf d).map Event.change).Nodup
  edges : ∀ d, (s.alertsOf d).IsChain fun e e' => e'.was = e.now ∧ e'.now ≠ e.now
  debounced : ∀ e ∈ s.fired, ∃ p p', p ≠ p' ∧ s.Saw p e.domain e.now ∧ s.Saw p' e.domain e.now

/-- An alert is written apart from the other processes: none has alerted the domain since the row
    was read, and what was found pending had been written in another period. -/
def apart (s : Replicas) : Move → Prop
  | .call i (.alert d _) _ => ∀ k q, s.ticks i = some k → k.read = some q →
      q.alerted = (s.alertsOf d).length ∧ q.change.period ≠ k.period
  | _ => True

/-! ## What a tick may do -/

/-- A tick writes what it has a report of, and alerts only a status that it found pending and that
    differs from the one alerted last; the history is the row read last. -/
def alerting (reports : List DomainReport) :
    Discipline AlertOp.Ret (Option (String × AlertState)) where
  allow h
    | .pend d now _ => ∃ rep ∈ reports, rep.domain = d ∧ rep.status = now
    | .alert d now => (∃ rep ∈ reports, rep.domain = d ∧ rep.status = now) ∧
        ∃ row, h = some (d, row) ∧ row.pendingStatus = some now ∧ now ≠ row.lastAlertedStatus
    | _ => True
  next h
    | .select d, .ok (some row) => some (d, row)
    | _, _ => h

variable {reports : List DomainReport} {h : Option (String × AlertState)}

theorem throwing_obeys {α : Type} {m : Alerting Bool} {a : α}
    (hm : m.Obeys (alerting reports) (fun _ _ => True) h) :
    (throwing m a).Obeys (alerting reports) (fun _ _ => True) h := by
  refine hm.bind fun h' b _ => ?_
  cases b <;> trivial

theorem evalTransition_obeys {rep : DomainReport} (hrep : rep ∈ reports) :
    (evalTransition rep.domain rep.status).Obeys (alerting reports) (fun _ _ => True) h := by
  refine Prog.obeys_lift_bind.mpr ⟨trivial, fun r => ?_⟩
  rcases r with _ | _ | st
  · trivial
  · apply throwing_obeys
    exact ⟨trivial, fun _ => trivial⟩
  · dsimp only
    by_cases hsame : rep.status = st.lastAlertedStatus
    · rw [if_pos hsame]
      apply throwing_obeys
      exact ⟨trivial, fun _ => trivial⟩
    rw [if_neg hsame]
    by_cases hfew : (if some rep.status = st.pendingStatus then st.consecutive + 1 else 1) < debounce
    · rw [if_pos hfew]
      apply throwing_obeys
      exact ⟨⟨rep, hrep, rfl, rfl⟩, fun _ => trivial⟩
    · rw [if_neg hfew]
      -- a count of two is reached from a pending status only
      have hpending : some rep.status = st.pendingStatus := by
        by_contra hother
        rw [if_neg hother] at hfew
        exact hfew (by decide)
      apply throwing_obeys
      exact ⟨⟨⟨rep, hrep, rfl, rfl⟩, st, rfl, hpending.symm, hsame⟩, fun _ => trivial⟩

theorem notify_obeys (rep : DomainReport) (t : Transition) (channels : List Channel) :
    (notify rep t channels).Obeys (alerting reports) (fun _ _ => True) h := by
  induction channels with
  | nil => trivial
  | cons ch chs ih =>
    unfold notify
    split
    · exact Prog.obeys_lift_bind.mpr ⟨trivial, fun _ => ih⟩
    · exact ih

theorem dispatchEach_obeys (channels : List Channel) {reps : List DomainReport}
    (hsub : reps ⊆ reports) :
    (dispatchEach channels reps).Obeys (alerting reports) (fun _ _ => True) h := by
  induction reps generalizing h with
  | nil => trivial
  | cons rep reps ih =>
    have hrest : ∀ {h'}, (dispatchEach channels reps).Obeys (alerting reports)
        (fun _ _ => True) h' := fun {h'} => ih fun x hx => hsub (List.mem_cons_of_mem _ hx)
    refine (evalTransition_obeys (hsub List.mem_cons_self)).bind fun h' r _ => ?_
    rcases r with _ | _ | t
    · exact hrest
    · exact hrest
    · exact (notify_obeys rep t channels).bind fun _ _ _ => hrest

/-- **A tick keeps the discipline** of its reports. -/
theorem dispatchAlerts_obeys :
    (dispatchAlerts reports).Obeys (alerting reports) (fun _ _ => True) h := by
  refine Prog.obeys_lift_bind.mpr ⟨trivial, fun r => ?_⟩
  cases r with
  | none => trivial
  | some channels =>
    dsimp only
    split
    · trivial
    · exact dispatchEach_obeys channels fun _ hx => hx

/-! ## The invariant -/

namespace Replicas

/-- The change has been made, by a tick that saw the status. -/
def Backed (s : Replicas) (c : Change) (d : String) (now : CheckStatus) : Prop :=
  s.Saw c.period d now ∧ c.no < s.changes

/-- What holds of a row that was read: what it has pending was seen, and as long as nobody has
    alerted the domain, the last status is still its last status and its change is still to be
    alerted. -/
structure Holds (s : Replicas) (q : Reading) : Prop where
  backed : ∀ now, q.row.pendingStatus = some now → s.Backed q.change q.domain now
  old : q.alerted ≤ (s.alertsOf q.domain).length
  stands : q.alerted = (s.alertsOf q.domain).length →
    (∃ row, s.table q.domain = some row ∧ row.lastAlertedStatus = q.row.lastAlertedStatus) ∧
      (q.row.pendingStatus ≠ none → ∀ e ∈ s.alertsOf q.domain, e.change ≠ q.change.no)

/-- What holds of a tick that runs. -/
structure Fits (s : Replicas) (k : Tick) : Prop where
  obeys : k.rest.Obeys (alerting k.reports) (fun _ _ => True)
    (k.read.map fun q => (q.domain, q.row))
  refreshed : ∀ rep ∈ k.reports, s.Saw k.period rep.domain rep.status
  read : ∀ q, k.read = some q → s.Holds q

/-- **The invariant.** -/
structure Sound (s : Replicas) : Prop where
  ticks : ∀ i k, s.ticks i = some k → s.Fits k
  rows : ∀ d row, s.table d = some row → s.Holds (s.reading d row)
  numbered : ∀ e ∈ s.fired, e.change < s.changes
  last : ∀ d, ∀ e ∈ (s.alertsOf d).getLast?, ∃ row, s.table d = some row ∧
    row.lastAlertedStatus = e.now
  safe : s.Safe

variable {s s' : Replicas} {d : String}

theorem Saw.mono {p : Nat} {now : CheckStatus} (hsaw : s.Saw p d now) (hsub : s.seen ⊆ s'.seen) :
    s'.Saw p d now := by
  obtain ⟨x, hx, heq⟩ := hsaw
  exact ⟨x, hsub hx, heq⟩

/-- What a step leaves of a domain that it does not alert. -/
structure Leaves (s s' : Replicas) (d : String) : Prop where
  seen : s.seen ⊆ s'.seen
  changes : s.changes ≤ s'.changes
  alerts : s'.alertsOf d = s.alertsOf d
  last : ∀ row, s.table d = some row →
    ∃ row', s'.table d = some row' ∧ row'.lastAlertedStatus = row.lastAlertedStatus

theorem Backed.mono {c : Change} {now : CheckStatus} (hbacked : s.Backed c d now)
    (hseen : s.seen ⊆ s'.seen) (hchanges : s.changes ≤ s'.changes) : s'.Backed c d now :=
  ⟨hbacked.1.mono hseen, Nat.lt_of_lt_of_le hbacked.2 hchanges⟩

/-- A reading holds on as long as its domain is not alerted. -/
theorem Holds.left {q : Reading} (hq : s.Holds q) (hstep : Leaves s s' q.domain) : s'.Holds q where
  backed := fun now hnow => (hq.backed now hnow).mono hstep.seen hstep.changes
  old := hstep.alerts ▸ hq.old
  stands := by
    rw [hstep.alerts]
    intro hsame
    obtain ⟨⟨row, hrow, hlast⟩, hfresh⟩ := hq.stands hsame
    obtain ⟨row', hrow', hlast'⟩ := hstep.last row hrow
    exact ⟨⟨row', hrow', hlast'.trans hlast⟩, hfresh⟩

/-- The row itself holds, if what it has pending was seen and is still to be alerted. -/
theorem holds_reading {row : AlertState} (hrow : s.table d = some row)
    (hpending : ∀ now, row.pendingStatus = some now →
      s.Backed (s.changed d) d now ∧ ∀ e ∈ s.alertsOf d, e.change ≠ (s.changed d).no) :
    s.Holds (s.reading d row) where
  backed := fun now hnow => (hpending now hnow).1
  old := Nat.le_refl _
  stands := by
    intro _
    refine ⟨⟨row, hrow, rfl⟩, fun hsome => ?_⟩
    obtain ⟨now, hnow⟩ := Option.ne_none_iff_exists'.mp hsome
    exact (hpending now hnow).2

theorem Fits.mono {k : Tick} (hk : s.Fits k) (hseen : s.seen ⊆ s'.seen)
    (hcarry : ∀ q, s.Holds q → s'.Holds q) : s'.Fits k where
  obeys := hk.obeys
  refreshed := fun rep hrep => (hk.refreshed rep hrep).mono hseen
  read := fun q hq => hcarry q (hk.read q hq)

theorem Safe.mono (hs : s.Safe) (hseen : s.seen ⊆ s'.seen) (hfired : s'.fired = s.fired) :
    s'.Safe where
  once := by
    unfold alertsOf
    rw [hfired]
    exact hs.once
  edges := by
    unfold alertsOf
    rw [hfired]
    exact hs.edges
  debounced := by
    rw [hfired]
    intro e he
    obtain ⟨p, p', hne, hp, hp'⟩ := hs.debounced e he
    exact ⟨p, p', hne, hp.mono hseen, hp'.mono hseen⟩

/-- A step between the calls keeps the invariant, if the ticks it starts fit. -/
theorem Sound.quiet (hs : s.Sound) (hseen : s.seen ⊆ s'.seen) (htable : s'.table = s.table)
    (hchanged : s'.changed = s.changed) (hchanges : s'.changes = s.changes)
    (hfired : s'.fired = s.fired)
    (hticks : ∀ i k, s'.ticks i = some k → s.ticks i = some k ∨ s'.Fits k) : s'.Sound := by
  have halerts : ∀ d, s'.alertsOf d = s.alertsOf d := by
    intro d
    unfold alertsOf
    rw [hfired]
  have hcarry : ∀ q, s.Holds q → s'.Holds q := fun q hq =>
    hq.left ⟨hseen, hchanges.ge, halerts _, fun row hrow => ⟨row, htable ▸ hrow, rfl⟩⟩
  constructor
  · intro i k hk
    exact (hticks i k hk).elim (fun h => (hs.ticks i k h).mono hseen hcarry) fun h => h
  · intro d row hrow
    have hreading : s'.reading d row = s.reading d row := by
      unfold reading
      rw [hchanged, halerts]
    rw [hreading]
    exact hcarry _ (hs.rows d row (htable ▸ hrow))
  · rw [hfired, hchanges]
    exact hs.numbered
  · rw [htable]
    intro d
    rw [halerts]
    exact hs.last d
  · exact hs.safe.mono hseen hfired

/-! ### One statement -/

section

variable {t t' : AlertTable} {o : AlertOp} {a : o.Ret}

theorem change_self (f : AlertState → AlertState) : (t.change d f) d = (t d).map f :=
  Function.update_self ..

theorem change_ne {d' : String} (hne : d' ≠ d) (f : AlertState → AlertState) :
    (t.change d f) d' = t d' := Function.update_of_ne hne ..

/-- A row keeps its last status, if it is not alerted. -/
theorem exec_last (hexec : AlertOp.Exec t o a t') (hother : ∀ now, o ≠ .alert d now)
    {row : AlertState} (hrow : t d = some row) :
    ∃ row', t' d = some row' ∧ row'.lastAlertedStatus = row.lastAlertedStatus := by
  have hchange : ∀ (d' : String) (f : AlertState → AlertState),
      (∀ r, (f r).lastAlertedStatus = r.lastAlertedStatus) →
      ∃ row', (t.change d' f) d = some row' ∧ row'.lastAlertedStatus = row.lastAlertedStatus := by
    intro d' f hf
    by_cases hd : d = d'
    · subst hd
      rw [change_self, hrow]
      exact ⟨_, rfl, hf row⟩
    · rw [change_ne hd]
      exact ⟨row, hrow, rfl⟩
  cases hexec with
  | select | conflict | loadChannels | send => exact ⟨row, hrow, rfl⟩
  | @insert d' now hnone =>
    have hd : d ≠ d' := by
      intro hd
      rw [hd, hnone] at hrow
      cases hrow
    rw [Function.update_of_ne hd]
    exact ⟨row, hrow, rfl⟩
  | reset d' => exact hchange d' _ fun r => rfl
  | pend d' now n => exact hchange d' _ fun r => rfl
  | alert d' now =>
    have hd : d ≠ d' := fun hd => hother now (hd ▸ rfl)
    rw [change_ne hd]
    exact ⟨row, hrow, rfl⟩

/-- What a row has pending was pending before or has just been written. -/
theorem exec_pending (hexec : AlertOp.Exec t o a t') {row : AlertState} {now : CheckStatus}
    (hrow : t' d = some row) (hnow : row.pendingStatus = some now) :
    (∃ n, o = .pend d now n) ∨
      (∃ row, t d = some row ∧ row.pendingStatus = some now) ∧
        (∀ now n, o ≠ .pend d now n) ∧ ∀ now, o ≠ .alert d now := by
  have hsame : t d = some row → (∀ now n, o ≠ .pend d now n) → (∀ now, o ≠ .alert d now) →
      (∃ n, o = .pend d now n) ∨ (∃ row, t d = some row ∧ row.pendingStatus = some now) ∧
        (∀ now n, o ≠ .pend d now n) ∧ ∀ now, o ≠ .alert d now :=
    fun h h' h'' => .inr ⟨⟨row, h, hnow⟩, h', h''⟩
  cases hexec with
  | select | conflict | loadChannels | send => exact hsame hrow nofun nofun
  | @insert d' now' hnone =>
    by_cases hd : d = d'
    · subst hd
      rw [Function.update_self] at hrow
      cases hrow
      cases hnow
    · rw [Function.update_of_ne hd] at hrow
      exact hsame hrow nofun nofun
  | reset d' =>
    by_cases hd : d = d'
    · subst hd
      rw [change_self] at hrow
      obtain ⟨row₀, -, rfl⟩ := Option.map_eq_some_iff.mp hrow
      cases hnow
    · rw [change_ne hd] at hrow
      exact hsame hrow nofun nofun
  | pend d' now' n =>
    by_cases hd : d = d'
    · subst hd
      rw [change_self] at hrow
      obtain ⟨row₀, -, rfl⟩ := Option.map_eq_some_iff.mp hrow
      cases hnow
      exact .inl ⟨n, rfl⟩
    · rw [change_ne hd] at hrow
      refine hsame hrow ?_ nofun
      intro now n heq
      cases heq
      exact hd rfl
  | alert d' now' =>
    by_cases hd : d = d'
    · subst hd
      rw [change_self] at hrow
      obtain ⟨row₀, -, rfl⟩ := Option.map_eq_some_iff.mp hrow
      cases hnow
    · rw [change_ne hd] at hrow
      refine hsame hrow nofun ?_
      intro now heq
      cases heq
      exact hd rfl

end

section

variable {i : Nat} {k : Tick} {o : AlertOp} {a : o.Ret} {table : AlertTable} {rest : Alerting Unit}

/-- The reading of a tick is the history of its discipline. -/
theorem readAfter_map : (s.readAfter k o a).map (fun q => (q.domain, q.row)) =
    (alerting reports).next (k.read.map fun q => (q.domain, q.row)) o a := by
  cases o with
  | select d => rcases a with _ | _ | row <;> rfl
  | insert | reset | pend | alert | loadChannels | send => rfl

/-- What a tick has read, it had read before or reads now. -/
theorem readAfter_cases (hexec : AlertOp.Exec s.table o a table) {q : Reading}
    (hq : s.readAfter k o a = some q) :
    k.read = some q ∨ ∃ d row, s.table d = some row ∧ q = s.reading d row := by
  cases hexec with
  | select d =>
    cases hrow : s.table d with
    | none =>
      rw [hrow] at hq
      exact .inl hq
    | some row =>
      rw [hrow] at hq
      cases hq
      exact .inr ⟨d, row, hrow, rfl⟩
  | insert | conflict | reset | pend | alert | loadChannels | send => exact .inl hq

theorem changes_calls : s.changes ≤ (s.calls i k o a table rest).changes := by
  show s.changes ≤ s.changesAfter o
  cases o with
  | pend => exact Nat.le_succ _
  | select | insert | reset | alert | loadChannels | send => exact Nat.le_refl _

theorem changed_calls (hother : ∀ now n, o ≠ .pend d now n) :
    (s.calls i k o a table rest).changed d = s.changed d := by
  show s.changedAfter k o d = _
  cases o with
  | pend d' now n =>
    refine Function.update_of_ne ?_ ..
    intro hd
    exact hother now n (hd ▸ rfl)
  | select | insert | reset | alert | loadChannels | send => rfl

theorem firedAfter_other (hother : ∀ d now, o ≠ .alert d now) : s.firedAfter k o = s.fired := by
  cases o with
  | alert d now => exact absurd rfl (hother d now)
  | select | insert | reset | pend | loadChannels | send => rfl

/-- A call alerts no other domain. -/
theorem alertsOf_calls (hother : ∀ now, o ≠ .alert d now) :
    (s.calls i k o a table rest).alertsOf d = s.alertsOf d := by
  unfold alertsOf
  show (s.firedAfter k o).filter _ = _
  cases o with
  | alert d' now =>
    have hne : d' ≠ d := fun h => hother now (h ▸ rfl)
    unfold firedAfter
    rw [List.filter_append, List.append_right_eq_self, List.filter_eq_nil_iff]
    intro e he
    obtain ⟨q, -, rfl⟩ := List.mem_map.mp he
    simpa using hne
  | select | insert | reset | pend | loadChannels | send => rfl

/-- The event an alert fires. -/
def eventAt (d : String) (now : CheckStatus) (q : Reading) : Event :=
  ⟨d, now, q.row.lastAlertedStatus, q.change.no⟩

theorem firedAfter_alert {now : CheckStatus} {q : Reading} (hq : k.read = some q) :
    s.firedAfter k (.alert d now) = s.fired ++ [eventAt d now q] := by
  unfold firedAfter
  rw [hq]
  rfl

theorem alertsOf_alert {now : CheckStatus} {q : Reading} {a : Bool} (hq : k.read = some q) :
    (s.calls i k (.alert d now) a table rest).alertsOf d = s.alertsOf d ++ [eventAt d now q] := by
  unfold alertsOf
  show (s.firedAfter k (.alert d now)).filter _ = _
  rw [firedAfter_alert hq, List.filter_append]
  congr 1
  exact List.filter_eq_self.mpr fun e he => by
    cases List.mem_singleton.mp he
    exact decide_eq_true rfl

/-- What a reading says survives every call: an alert of its domain leaves it nothing to say. -/
theorem holds_calls (hexec : AlertOp.Exec s.table o a table)
    (hread : ∀ d now, o = .alert d now → k.read.isSome) {q : Reading} (hq : s.Holds q) :
    (s.calls i k o a table rest).Holds q := by
  by_cases hother : ∀ now, o ≠ .alert q.domain now
  · exact hq.left ⟨List.Subset.refl _, changes_calls, alertsOf_calls hother,
      fun row hrow => exec_last hexec hother hrow⟩
  · push Not at hother
    obtain ⟨now, rfl⟩ := hother
    obtain ⟨q', hq'⟩ := Option.isSome_iff_exists.mp (hread _ _ rfl)
    have halerts : (s.calls i k (.alert q.domain now) a table rest).alertsOf q.domain =
        s.alertsOf q.domain ++ [eventAt q.domain now q'] := alertsOf_alert hq'
    have hlength := congrArg List.length halerts
    rw [List.length_append, List.length_singleton] at hlength
    have hold := hq.old
    exact
      { backed := fun now hnow => (hq.backed now hnow).mono (List.Subset.refl _) changes_calls
        old := by omega
        stands := fun hsame => by omega }

theorem Fits.calls {next : o.Ret → Alerting Unit} (hs : s.Sound) (hk : s.ticks i = some k)
    (hcall : k.rest = .call o next) (hexec : AlertOp.Exec s.table o a table)
    (hcarry : ∀ q, s.Holds q → (s.calls i k o a table rest).Holds q) :
    (s.calls i k o a table rest).Fits { k with read := s.readAfter k o a, rest := next a } where
  obeys := by
    have hobeys := (hs.ticks i k hk).obeys
    rw [hcall] at hobeys
    show (next a).Obeys _ _ ((s.readAfter k o a).map _)
    rw [readAfter_map]
    exact hobeys.2 a
  refreshed := (hs.ticks i k hk).refreshed
  read := by
    intro q hq
    rcases readAfter_cases hexec hq with hold | ⟨d, row, hrow, rfl⟩
    · exact hcarry q ((hs.ticks i k hk).read q hold)
    · exact hcarry _ (hs.rows d row hrow)

/-- A tick that alerts has read the row, with the status pending and another one alerted last. -/
theorem Sound.alert_read {now : CheckStatus} {next : Bool → Alerting Unit} (hs : s.Sound)
    (hk : s.ticks i = some k) (hcall : k.rest = .call (.alert d now) next) :
    ∃ q, k.read = some q ∧ q.domain = d ∧ q.row.pendingStatus = some now ∧
      now ≠ q.row.lastAlertedStatus ∧ s.Saw k.period d now := by
  have hfits := hs.ticks i k hk
  have hobeys := hfits.obeys
  rw [hcall] at hobeys
  obtain ⟨⟨rep, hrep, hd, rfl⟩, row, hread, hpending, hne⟩ := hobeys.1
  obtain ⟨q, hq, heq⟩ := Option.map_eq_some_iff.mp hread
  cases heq
  exact ⟨q, hq, rfl, hpending, hne, hd ▸ hfits.refreshed rep hrep⟩

/-- A tick that pends has seen the status. -/
theorem Sound.pend_saw {now : CheckStatus} {n : Nat} {next : Bool → Alerting Unit} (hs : s.Sound)
    (hk : s.ticks i = some k) (hcall : k.rest = .call (.pend d now n) next) :
    s.Saw k.period d now := by
  have hfits := hs.ticks i k hk
  have hobeys := hfits.obeys
  rw [hcall] at hobeys
  obtain ⟨rep, hrep, rfl, rfl⟩ := hobeys.1
  exact hfits.refreshed rep hrep

/-- An alert written apart keeps the properties. -/
theorem Sound.safe_alert {now : CheckStatus} {next : Bool → Alerting Unit} {a : Bool}
    (hs : s.Sound) (hk : s.ticks i = some k) (hcall : k.rest = .call (.alert d now) next)
    (hok : apart s (.call i (.alert d now) a)) :
    (s.calls i k (.alert d now) a table rest).Safe := by
  obtain ⟨q, hq, rfl, hpending, hne, hsaw⟩ := hs.alert_read hk hcall
  obtain ⟨hsame, hperiod⟩ := hok k q hk hq
  have hholds := (hs.ticks i k hk).read q hq
  obtain ⟨⟨row, hrow, hlast⟩, hfresh⟩ := hholds.stands hsame
  have hbacked := hholds.backed now hpending
  have hfired : (s.calls i k (.alert q.domain now) a table rest).fired =
      s.fired ++ [eventAt q.domain now q] := firedAfter_alert hq
  have hself : (s.calls i k (.alert q.domain now) a table rest).alertsOf q.domain =
      s.alertsOf q.domain ++ [eventAt q.domain now q] := alertsOf_alert hq
  have hrest : ∀ d, d ≠ q.domain →
      (s.calls i k (.alert q.domain now) a table rest).alertsOf d = s.alertsOf d := by
    intro d hd
    refine alertsOf_calls ?_
    intro now heq
    cases heq
    exact hd rfl
  constructor
  · intro d
    by_cases hd : d = q.domain
    · rw [hd, hself, List.map_append]
      refine List.nodup_append.mpr ⟨hs.safe.once _, List.nodup_singleton _, ?_⟩
      intro n hn n' hn'
      obtain ⟨e, he, rfl⟩ := List.mem_map.mp hn
      rw [List.mem_singleton.mp hn']
      exact hfresh (hpending ▸ Option.some_ne_none _) e he
    · rw [hrest d hd]
      exact hs.safe.once d
  · intro d
    by_cases hd : d = q.domain
    · rw [hd, hself]
      refine (hs.safe.edges _).append (List.isChain_singleton _) ?_
      intro e he e' he'
      cases he'
      -- the event before is the status that was read as alerted last
      obtain ⟨row', hrow', hnow⟩ := hs.last _ e he
      rw [hrow] at hrow'
      cases hrow'
      have hwas : q.row.lastAlertedStatus = e.now := hlast.symm.trans hnow
      exact ⟨hwas, hwas ▸ hne⟩
    · rw [hrest d hd]
      exact hs.safe.edges d
  · rw [hfired]
    intro e he
    rcases List.mem_append.mp he with he | he
    · exact hs.safe.debounced e he
    · cases List.mem_singleton.mp he
      exact ⟨_, _, hperiod, hbacked.1, hsaw⟩

/-- **A call keeps the invariant**, if an alert is written apart. -/
theorem Sound.calls {next : o.Ret → Alerting Unit} (hs : s.Sound) (hk : s.ticks i = some k)
    (hcall : k.rest = .call o next) (hexec : AlertOp.Exec s.table o a table)
    (hok : apart s (.call i o a)) : (s.calls i k o a table (next a)).Sound := by
  have hread : ∀ d now, o = .alert d now → k.read.isSome := by
    intro d now heq
    subst heq
    obtain ⟨q, hq, -⟩ := hs.alert_read hk hcall
    rw [hq]
    rfl
  have hcarry : ∀ q, s.Holds q → (s.calls i k o a table (next a)).Holds q :=
    fun q hq => holds_calls hexec hread hq
  constructor
  · intro j k' hk'
    by_cases hj : j = i
    · subst hj
      have hself : Function.update s.ticks j
        (some { k with read := s.readAfter k o a, rest := next a }) j = some k' := hk'
      rw [Function.update_self] at hself
      cases hself
      exact .calls hs hk hcall hexec hcarry
    · have hother : Function.update s.ticks i
        (some { k with read := s.readAfter k o a, rest := next a }) j = some k' := hk'
      rw [Function.update_of_ne hj] at hother
      exact (hs.ticks j k' hother).mono (List.Subset.refl _) hcarry
  · intro d row hrow
    refine holds_reading hrow fun now hnow => ?_
    rcases exec_pending hexec hrow hnow with ⟨n, rfl⟩ | ⟨⟨row₀, hrow₀, hnow₀⟩, hpend, halert⟩
    · have hchanged : (s.calls i k (.pend d now n) a table (next a)).changed d =
          ⟨s.changes, k.period⟩ := Function.update_self ..
      rw [hchanged]
      refine ⟨⟨hs.pend_saw hk hcall, Nat.lt_succ_self _⟩, fun e he => ?_⟩
      exact Nat.ne_of_lt (hs.numbered e (List.mem_of_mem_filter he))
    · rw [changed_calls hpend, alertsOf_calls halert]
      have hholds := hs.rows d row₀ hrow₀
      have hsome : row₀.pendingStatus ≠ none := hnow₀ ▸ Option.some_ne_none _
      exact ⟨(hholds.backed now hnow₀).mono (List.Subset.refl _) changes_calls,
        (hholds.stands rfl).2 hsome⟩
  · intro e he
    refine Nat.lt_of_lt_of_le ?_ changes_calls
    by_cases hother : ∀ d now, o ≠ .alert d now
    · exact hs.numbered e (firedAfter_other hother ▸ he)
    · push Not at hother
      obtain ⟨d, now, rfl⟩ := hother
      obtain ⟨q, hq, -, hpending, -⟩ := hs.alert_read hk hcall
      have hfired : e ∈ s.fired ++ [eventAt d now q] := firedAfter_alert hq ▸ he
      rcases List.mem_append.mp hfired with he | he
      · exact hs.numbered e he
      · cases List.mem_singleton.mp he
        exact (((hs.ticks i k hk).read q hq).backed now hpending).2
  · intro d e he
    by_cases hother : ∀ now, o ≠ .alert d now
    · rw [alertsOf_calls hother] at he
      obtain ⟨row, hrow, hnow⟩ := hs.last d e he
      obtain ⟨row', hrow', hlast⟩ := exec_last hexec hother hrow
      exact ⟨row', hrow', hlast.trans hnow⟩
    · push Not at hother
      obtain ⟨now, rfl⟩ := hother
      obtain ⟨q, hq, rfl, -⟩ := hs.alert_read hk hcall
      rw [alertsOf_alert hq, List.getLast?_concat] at he
      cases he
      obtain ⟨⟨row, hrow, -⟩, -⟩ := ((hs.ticks i k hk).read q hq).stands (hok k q hk hq).1
      cases hexec
      refine ⟨{ lastAlertedStatus := now }, ?_, rfl⟩
      show (s.table.change _ _) _ = _
      rw [change_self, hrow]
      rfl
  · by_cases hother : ∀ d now, o ≠ .alert d now
    · exact hs.safe.mono (List.Subset.refl _) (firedAfter_other hother)
    · push Not at hother
      obtain ⟨d, now, rfl⟩ := hother
      exact hs.safe_alert hk hcall hok

end

theorem Sound.begins {i : Nat} (hs : s.Sound) (reports : List DomainReport) :
    (s.begins i reports).Sound := by
  refine hs.quiet (List.subset_append_left ..) rfl rfl rfl rfl ?_
  intro j k hk
  have hk' : Function.update s.ticks i
    (some { period := s.period, reports, rest := dispatchAlerts reports }) j = some k := hk
  by_cases hj : j = i
  · rw [hj, Function.update_self] at hk'
    cases hk'
    refine .inr ⟨dispatchAlerts_obeys, fun rep hrep => ?_, nofun⟩
    exact ⟨⟨i, s.period, rep.domain, rep.status⟩,
      List.mem_append_right _ (List.mem_map_of_mem hrep), rfl, rfl, rfl⟩
  · rw [Function.update_of_ne hj] at hk'
    exact .inl hk'

theorem Sound.stops (hs : s.Sound) (i : Nat) : (s.stops i).Sound := by
  refine hs.quiet (List.Subset.refl _) rfl rfl rfl rfl ?_
  intro j k hk
  have hk' : Function.update s.ticks i none j = some k := hk
  by_cases hj : j = i
  · rw [hj, Function.update_self] at hk'
    cases hk'
  · rw [Function.update_of_ne hj] at hk'
    exact .inl hk'

theorem Sound.advances (hs : s.Sound) : s.advances.Sound :=
  hs.quiet (List.Subset.refl _) rfl rfl rfl rfl fun _ _ hk => .inl hk

theorem sound_init : ({} : Replicas).Sound where
  ticks := nofun
  rows := nofun
  numbered := nofun
  last := nofun
  safe := ⟨fun _ => List.nodup_nil, fun _ => .nil, nofun⟩

theorem Step.sound {l : Move} (hst : Step s l s') (hok : apart s l) (hs : s.Sound) : s'.Sound := by
  cases hst with
  | tick => exact hs.begins _
  | call hrun hcall hexec => exact hs.calls hrun hcall hexec hok
  | stop i => exact hs.stops i
  | advance => exact hs.advances

/-! ### Runs -/

/-- A report of the domain of the runs. -/
def report (status : CheckStatus) : DomainReport := ⟨"example.com", "", status, []⟩

def webhook : Channel := ⟨"1", "ops", "webhook", none, none, "warning"⟩

/-- The row after a first error behind ok. -/
def broken : AlertState := ⟨.ok, some .error, 1⟩

/-- One more statement that is no alert. -/
theorem reach_call {i : Nat} {k : Tick} (hr : Reach replicas apart s) (hrun : s.ticks i = some k)
    (o : AlertOp) (a : o.Ret) {next : o.Ret → Alerting Unit} {table : AlertTable}
    (hcall : k.rest = .call o next) (hexec : AlertOp.Exec s.table o a table)
    (hother : ∀ d now, o ≠ .alert d now) :
    Reach replicas apart (s.calls i k o a table (next a)) := by
  have hok : apart s (.call i o a) := by
    cases o with
    | alert d now => exact absurd rfl (hother d now)
    | select | insert | reset | pend | loadChannels | send => trivial
  exact hr.step hok (.call hrun hcall hexec)

theorem exec_select {t : AlertTable} {row : Option AlertState} (h : t d = row) :
    AlertOp.Exec t (.select d) (.ok row) t := h ▸ .select d

/-- What is left of a dispatch of one report when it has read the row. -/
def evaluated (status : CheckStatus) (row : Option AlertState) : Alerting Unit :=
  match dispatchEach [webhook] [report status] with
  | .call (.select _) next => next (.ok row)
  | m => m

/-- What the tick of a process has read. -/
def readOf (s : Replicas) : Option AlertState → Option Reading
  | some row => some (s.reading "example.com" row)
  | none => none

/-- The process `i` ticks, and reads the row. -/
def reads (s : Replicas) (i : Nat) (status : CheckStatus) (row : Option AlertState) : Replicas :=
  { s with
    ticked := Function.update s.ticked i (some s.period)
    ticks := Function.update s.ticks i
      (some ⟨s.period, [report status], s.readOf row, evaluated status row⟩)
    seen := s.seen ++ [⟨i, s.period, "example.com", status⟩] }

theorem reach_reads (i : Nat) (status : CheckStatus) {row : Option AlertState}
    (hr : Reach replicas apart s) (hidle : s.ticks i = none) (hdue : s.ticked i ≠ some s.period)
    (hrow : s.table "example.com" = row) : Reach replicas apart (s.reads i status row) := by
  have htick : Reach replicas apart (s.begins i [report status]) :=
    hr.step (l := Move.tick i [report status]) trivial
      (.tick hidle hdue (List.nodup_singleton _))
  have hload := reach_call htick (Function.update_self ..) .loadChannels (some [webhook]) rfl
    (.loadChannels _) nofun
  have hselect := reach_call hload (Function.update_self ..) (.select "example.com")
    (.ok row) rfl (exec_select hrow) nofun
  convert hselect using 1
  unfold calls begins reads
  simp only [Function.update_idem]
  cases row <;> rfl

/-- An evaluation that reads and writes once, with nobody in between, and the tick over. -/
theorem reach_visit (i : Nat) (status : CheckStatus) {row : Option AlertState}
    (hr : Reach replicas apart s) (hidle : s.ticks = fun _ => none)
    (hdue : s.ticked i ≠ some s.period) (hrow : s.table "example.com" = row)
    (o : AlertOp) (a : o.Ret) {next : o.Ret → Alerting Unit} {table : AlertTable}
    (hcall : evaluated status row = .call o next) (hexec : AlertOp.Exec s.table o a table)
    (hother : ∀ d now, o ≠ .alert d now) :
    ∃ k : Tick, k.period = s.period ∧ Reach replicas apart
      { s with
        table
        changed := s.changedAfter k o
        changes := s.changesAfter o
        ticked := Function.update s.ticked i (some s.period)
        seen := s.seen ++ [⟨i, s.period, "example.com", status⟩] } := by
  have hread := reach_reads i status hr (by rw [hidle]) hdue hrow
  have hstop := (reach_call hread (Function.update_self ..) o a hcall hexec hother).step
    (l := Move.stop i) trivial (.stop _ i)
  refine ⟨⟨s.period, [report status], s.readOf row, evaluated status row⟩, rfl, ?_⟩
  convert hstop using 1
  unfold calls stops reads
  simp only [Function.update_idem, hidle, firedAfter_other hother]
  congr 1
  exact (Function.update_eq_self i fun _ => none).symm

/-- One process has seen ok, and then an error in the next period. -/
theorem reach_broken : ∃ table changed changes ticked,
    Reach replicas apart
      { table, changed, changes, period := 1, ticked
        seen := [⟨0, 0, "example.com", .ok⟩, ⟨0, 1, "example.com", .error⟩] } ∧
    table "example.com" = some broken ∧ changed "example.com" = ⟨0, 1⟩ ∧
    ticked 0 = some 1 ∧ ticked 1 = none := by
  obtain ⟨k₀, -, hfirst⟩ := reach_visit 0 .ok (.init rfl) rfl nofun rfl
    (.insert "example.com" .ok) true rfl (.insert rfl) nofun
  have hnext := hfirst.step (l := Move.advance) trivial (.advance _)
  have hdue : (some 0 : Option Nat) ≠ some 1 := by decide
  have hrow : Function.update (fun _ => none) "example.com" (some ⟨.ok, none, 0⟩) "example.com" =
      some (AlertState.mk .ok none 0) := Function.update_self ..
  obtain ⟨k, hk, hsecond⟩ := reach_visit 0 .error hnext rfl hdue hrow
    (.pend "example.com" .error 1) true rfl (.pend _ _ _) nofun
  refine ⟨_, _, _, _, hsecond, ?_, ?_, rfl, rfl⟩
  · rw [change_self]
    exact congrArg (Option.map _) hrow
  · have hself : Function.update (fun _ => (⟨0, 0⟩ : Change)) "example.com" ⟨0, k.period⟩
        "example.com" = ⟨0, k.period⟩ := Function.update_self ..
    exact hself.trans (congrArg (Change.mk 0) hk)

/-- A process that has read the row of a first error alerts. -/
theorem step_alert (s : Replicas) (i : Nat) {k : Tick} {q : Reading} (hrun : s.ticks i = some k)
    (hrest : k.rest = evaluated .error (some broken)) (hq : k.read = some q) :
    ∃ s', Step s (.call i (.alert "example.com" .error) true) s' ∧
      s'.fired = s.fired ++ [eventAt "example.com" .error q] ∧ s'.seen = s.seen ∧
      ∀ j ≠ i, s'.ticks j = s.ticks j := by
  refine ⟨_, .call hrun hrest (.alert "example.com" .error), firedAfter_alert hq, rfl, ?_⟩
  intro j hj
  exact Function.update_of_ne hj ..

/-- And another process has read the row in the same period. -/
theorem reach_second : ∃ (s : Replicas) (k : Tick), Reach replicas apart s ∧
    s.ticks 1 = some k ∧ k.rest = evaluated .error (some broken) ∧
    k.read = some ⟨"example.com", broken, ⟨0, 1⟩, 0⟩ ∧
    s.ticks 0 = none ∧ s.ticked 0 = some 1 ∧ s.period = 1 ∧
    s.table "example.com" = some broken ∧ s.changed "example.com" = ⟨0, 1⟩ ∧ s.fired = [] ∧
    ∀ p, s.Saw p "example.com" .error → p = 1 := by
  obtain ⟨table, changed, changes, ticked, hr, hrow, hchanged, hzero, hone⟩ := reach_broken
  have hdue : ticked 1 ≠ some 1 := by
    rw [hone]
    nofun
  have hread := reach_reads 1 .error hr rfl hdue hrow
  refine ⟨_, _, hread, rfl, rfl, ?_, rfl, hzero, rfl, hrow, hchanged, rfl, ?_⟩
  · rw [← hchanged]
    rfl
  · rintro p ⟨x, hx, rfl, -, hstatus⟩
    have hcases : x = ⟨0, 0, "example.com", .ok⟩ ∨ x = ⟨0, 1, "example.com", .error⟩ ∨
        x = ⟨1, 1, "example.com", .error⟩ := by
      simpa [reads] using hx
    rcases hcases with rfl | rfl | rfl
    · cases hstatus
    · rfl
    · rfl

/-- And the first process has read it again, in the next period. -/
theorem reach_both : ∃ (s : Replicas) (k k' : Tick), Reach replicas apart s ∧
    (s.ticks 0 = some k ∧ k.period = 2 ∧ k.rest = evaluated .error (some broken) ∧
      k.read = some ⟨"example.com", broken, ⟨0, 1⟩, 0⟩) ∧
    (s.ticks 1 = some k' ∧ k'.rest = evaluated .error (some broken) ∧
      k'.read = some ⟨"example.com", broken, ⟨0, 1⟩, 0⟩) ∧ s.fired = [] := by
  obtain ⟨s, k', hr, hrun, hrest, hq, hidle, hticked, hperiod, hrow, hchanged, hfired, -⟩ :=
    reach_second
  have hnext := hr.step (l := Move.advance) trivial (.advance s)
  have hdue : s.ticked 0 ≠ some (s.period + 1) := by
    rw [hticked, hperiod]
    decide
  have hread : Reach replicas apart (s.advances.reads 0 .error (some broken)) :=
    reach_reads 0 .error hnext hidle hdue hrow
  have hreading : s.advances.readOf (some broken) =
      some ⟨"example.com", broken, ⟨0, 1⟩, 0⟩ := by
    unfold readOf reading alertsOf advances
    simp only [hchanged, hfired]
    rfl
  exact ⟨_, _, k', hread, ⟨rfl, congrArg (· + 1) hperiod, rfl, hreading⟩, ⟨hrun, hrest, hq⟩, hfired⟩

/-- The error that the processes see. -/
def outage : Event := ⟨"example.com", .error, .ok, 0⟩

/-- **Two processes race.**  One process alerts an error that another one saw first in the same
    refresh period; two processes that have both read the row before either wrote it alert one
    change twice. -/
theorem alerts_race :
    (∃ s, Reach replicas anyStep s ∧ s.fired = [outage] ∧
      ∀ p, s.Saw p outage.domain outage.now → p = 1) ∧
    (∃ s, Reach replicas anyStep s ∧ s.fired = [outage, outage]) ∧
    ¬∀ s, Reach replicas anyStep s → s.Safe := by
  have hearly : ∃ s, Reach replicas anyStep s ∧ s.fired = [outage] ∧
      ∀ p, s.Saw p outage.domain outage.now → p = 1 := by
    obtain ⟨s, k, hr, hrun, hrest, hq, -, -, -, -, -, hnone, hsaw⟩ := reach_second
    have hany : Reach replicas anyStep s := hr.mono fun _ _ _ => trivial
    obtain ⟨s', hst, hfired, hseen, -⟩ := step_alert s 1 hrun hrest hq
    rw [hnone] at hfired
    refine ⟨s', hany.step trivial hst, hfired, ?_⟩
    intro p hp
    exact hsaw p (hp.mono (hseen ▸ List.Subset.refl _))
  have htwice : ∃ s, Reach replicas anyStep s ∧ s.fired = [outage, outage] := by
    obtain ⟨s, k, k', hr, ⟨hrun, -, hrest, hq⟩, ⟨hrun', hrest', hq'⟩, hnone⟩ := reach_both
    have hany : Reach replicas anyStep s := hr.mono fun _ _ _ => trivial
    obtain ⟨s₁, hst₁, hfired₁, -, hticks₁⟩ := step_alert s 0 hrun hrest hq
    obtain ⟨s₂, hst₂, hfired₂, -⟩ :=
      step_alert s₁ 1 ((hticks₁ 1 (by decide)).trans hrun') hrest' hq'
    refine ⟨s₂, (hany.step trivial hst₁).step trivial hst₂, ?_⟩
    rw [hfired₂, hfired₁, hnone]
    rfl
  refine ⟨hearly, htwice, ?_⟩
  intro hsafe
  obtain ⟨s, hr, htwo⟩ := htwice
  have honce := (hsafe s hr).once "example.com"
  unfold alertsOf at honce
  rw [htwo] at honce
  revert honce
  decide

/-- **Alerts written apart are safe.**  In every run of any number of processes in which each alert
    is written apart from the others, every transition is alerted at most once, consecutive events
    carry different statuses, and none fires on a status seen in one refresh period only. -/
theorem safe_of_apart (h : Reach replicas apart s) : s.Safe := by
  have hsound : s.Sound := by
    refine h.invariant (I := Sound) ?_ ?_
    · rintro s rfl
      exact sound_init
    · intro s l s' _ hs hok hst
      exact hst.sound hok hs
  exact hsound.safe

/-- An error seen in two periods is alerted. -/
theorem safe_of_apart_outage : ∃ s, Reach replicas apart s ∧ s.fired = [outage] ∧ s.Safe := by
  obtain ⟨s, k, k', hr, ⟨hrun, hperiod, hrest, hq⟩, -, hnone⟩ := reach_both
  obtain ⟨s', hst, hfired, -⟩ := step_alert s 0 hrun hrest hq
  have hreach : Reach replicas apart s' := by
    refine hr.step ?_ hst
    intro k₁ q hk₁ hq₁
    rw [hrun] at hk₁
    cases hk₁
    rw [hq] at hq₁
    cases hq₁
    unfold alertsOf
    rw [hnone, hperiod]
    exact ⟨rfl, by decide⟩
  rw [hnone] at hfired
  exact ⟨s', hreach, hfired, safe_of_apart hreach⟩

end Replicas

end Novamail.Alerts

/-
  `bus.ts`: how the Admin API gets its channel back.

  `connect`, `scheduleReconnect` and the handlers of a lost channel share three variables and run
  one at a time, in an order that the network decides.  At any moment the service either has a
  channel that it has not lost, or waits for its timer, or dials, and never two of these at once
  (`redial_state`).  The timer is a second, doubled for every dial refused since the last channel.
-/
import Novamail.Admin.Published
import Novamail.Core.System

namespace Novamail.Admin

open Novamail.Core

/-- The process of `bus.ts`: its variables, the calls of `connect` that have not ended, and the
    channels there have been. -/
structure Redial where
  bus : Bus
  dialling : Nat
  opened : List Nat

/-- One event of the process.  A call of `connect` ends with a channel of its own or is refused; the
    timer starts another one; a channel may be reported lost by itself and by its connection. -/
inductive Redial.Step : Redial → BusEvent → Redial → Prop where
  | connected {s : Redial} {ch : Nat} (hdial : 0 < s.dialling) (hnew : ch ∉ s.opened) :
      Step s (.connected ch) ⟨s.bus.on (.connected ch), s.dialling - 1, ch :: s.opened⟩
  | refused {s : Redial} (hdial : 0 < s.dialling) :
      Step s .refused ⟨s.bus.on .refused, s.dialling - 1, s.opened⟩
  | closed {s : Redial} {ch : Nat} (hopen : ch ∈ s.opened) :
      Step s (.closed ch) { s with bus := s.bus.on (.closed ch) }
  | fired {s : Redial} (harmed : s.bus.timer.isSome = true) :
      Step s .fired { s with bus := s.bus.on .fired, dialling := s.dialling + 1 }
  | filled {s : Redial} (ch : Nat) : Step s (.filled ch) { s with bus := s.bus.on (.filled ch) }
  | drained {s : Redial} (ch : Nat) : Step s (.drained ch) { s with bus := s.bus.on (.drained ch) }

/-- The process, from the `connect` of `main` in `server.ts`. -/
def redials : LTS Redial BusEvent where
  init s := s.bus.chan = none ∧ s.bus.timer = none ∧ s.bus.failures = 0 ∧ s.dialling = 1 ∧
    s.opened = []
  step := Redial.Step

/-- The dials refused since the last channel, after one more event. -/
def refusalsAfter (n : Nat) : BusEvent → Nat
  | .connected _ => 0
  | .refused => n + 1
  | _ => n

/-- The dials refused since the last channel. -/
def refusals (es : List BusEvent) : Nat := es.foldl refusalsAfter 0

theorem refusals_concat (es : List BusEvent) (e : BusEvent) :
    refusals (es ++ [e]) = refusalsAfter (refusals es) e :=
  List.foldl_concat refusalsAfter 0 e es

/-- The delay of the timer after so many refusals, in milliseconds. -/
def backoff (failures : Nat) : Nat := min (1000 * 2 ^ failures) 30000

/-- What the service has of the bus: a channel, a timer, or a dial. -/
inductive Redial.At (es : List BusEvent) (s : Redial) : Prop where
  | up {ch : Nat} (hchan : s.bus.chan = some ch) (htimer : s.bus.timer = none)
      (hdial : s.dialling = 0) (hopen : ch ∈ s.opened) (halive : .closed ch ∉ es)
  | waiting (hchan : s.bus.chan = none) (htimer : s.bus.timer = some (backoff (refusals es)))
      (hdial : s.dialling = 0)
  | dialling (hchan : s.bus.chan = none) (htimer : s.bus.timer = none) (hdial : s.dialling = 1)

/-- The same, with what it takes to be kept. -/
structure Redial.Inv (es : List BusEvent) (s : Redial) : Prop where
  place : s.At es
  failures : s.bus.failures = refusals es
  closed : ∀ ch, .closed ch ∈ es → ch ∈ s.opened

section
variable {es : List BusEvent} {s s' : Redial} {e : BusEvent} {b : Bus}

theorem scheduleReconnect_chan : b.scheduleReconnect.chan = b.chan := by
  unfold Bus.scheduleReconnect
  split <;> rfl

theorem scheduleReconnect_failures : b.scheduleReconnect.failures = b.failures := by
  unfold Bus.scheduleReconnect
  split <;> rfl

theorem scheduleReconnect_timer (h : b.timer = none) :
    b.scheduleReconnect.timer = some (backoff b.failures) := by
  unfold Bus.scheduleReconnect
  rw [h]
  rfl

theorem mem_closed_concat {ch : Nat} (h : .closed ch ∈ es ++ [e]) (he : e ≠ .closed ch) :
    .closed ch ∈ es := by
  rcases List.mem_append.mp h with h | h
  · exact h
  · exact absurd (List.mem_singleton.mp h).symm he

/-- An event of no consequence for the connection. -/
theorem Redial.Inv.buffer (h : s.Inv es) {b' : Bus} (hchan : b'.chan = s.bus.chan)
    (htimer : b'.timer = s.bus.timer) (hfailures : b'.failures = s.bus.failures)
    (hrefusals : refusals (es ++ [e]) = refusals es)
    (hclosed : ∀ ch, .closed ch ∈ es ++ [e] → ch ∈ s.opened)
    (halive : ∀ ch, s.bus.chan = some ch → e ≠ .closed ch) :
    Redial.Inv (es ++ [e]) { s with bus := b' } where
  place := by
    cases h.place with
    | up hc ht hd hopen ha =>
      exact .up (hchan.trans hc) (htimer.trans ht) hd hopen fun hin =>
        ha (mem_closed_concat hin (halive _ hc))
    | waiting hc ht hd =>
      refine .waiting (hchan.trans hc) ?_ hd
      rw [hrefusals]
      exact htimer.trans ht
    | dialling hc ht hd => exact .dialling (hchan.trans hc) (htimer.trans ht) hd
  failures := by
    rw [hrefusals]
    exact hfailures.trans h.failures
  closed := hclosed

/-- Only while it dials can a dial end. -/
theorem Redial.At.of_dialling (h : s.At es) (hdial : 0 < s.dialling) :
    s.bus.chan = none ∧ s.bus.timer = none ∧ s.dialling = 1 := by
  cases h with
  | up _ _ hd | waiting _ _ hd => omega
  | dialling hc ht hd => exact ⟨hc, ht, hd⟩

theorem Redial.Inv.step (h : s.Inv es) (hst : Redial.Step s e s') : s'.Inv (es ++ [e]) := by
  have hquiet : (∀ ch, e ≠ .closed ch) → ∀ ch, .closed ch ∈ es ++ [e] → ch ∈ s.opened :=
    fun he ch hin => h.closed ch (mem_closed_concat hin (he ch))
  cases hst with
  | @connected ch hdial hnew =>
    obtain ⟨-, ht, hd⟩ := h.place.of_dialling hdial
    have hold := hquiet fun _ he => by cases he
    refine ⟨.up rfl ht ?_ List.mem_cons_self ?_, ?_, ?_⟩
    · show s.dialling - 1 = 0
      omega
    · exact fun hin => hnew (hold ch hin)
    · rw [refusals_concat]
      rfl
    · exact fun c hin => List.mem_cons_of_mem ch (hold c hin)
  | refused hdial =>
    obtain ⟨-, ht, hd⟩ := h.place.of_dialling hdial
    have hrefusals : refusals (es ++ [.refused]) = s.bus.failures + 1 := by
      rw [refusals_concat, h.failures]
      rfl
    refine ⟨.waiting scheduleReconnect_chan ?_ ?_, ?_, hquiet fun _ he => by cases he⟩
    · rw [hrefusals]
      exact scheduleReconnect_timer ht
    · show s.dialling - 1 = 0
      omega
    · rw [hrefusals]
      exact scheduleReconnect_failures
  | @closed ch hopen =>
    have hrefusals : refusals (es ++ [.closed ch]) = refusals es := by
      rw [refusals_concat]
      rfl
    have hclosed : ∀ c, .closed c ∈ es ++ [.closed ch] → c ∈ s.opened := by
      intro c hin
      rcases List.mem_append.mp hin with hin | hin
      · exact h.closed c hin
      · cases List.mem_singleton.mp hin
        exact hopen
    by_cases hcur : s.bus.chan = some ch
    · -- the current channel: drop it and arm the timer
      have hon : s.bus.on (.closed ch) = { s.bus with chan := none }.scheduleReconnect :=
        if_pos hcur
      cases h.place with
      | up _ ht hd =>
        rw [hon]
        refine ⟨.waiting scheduleReconnect_chan ?_ hd, ?_, hclosed⟩
        · rw [hrefusals, ← h.failures]
          exact scheduleReconnect_timer ht
        · rw [hrefusals, ← h.failures]
          exact scheduleReconnect_failures
      | waiting hc | dialling hc =>
        rw [hc] at hcur
        cases hcur
    · -- a channel of an earlier generation
      have hon : s.bus.on (.closed ch) = s.bus := if_neg hcur
      rw [hon]
      refine h.buffer rfl rfl rfl hrefusals hclosed fun c hc he => ?_
      cases he
      exact hcur hc
  | fired harmed =>
    cases h.place with
    | up _ ht | dialling _ ht =>
      rw [ht] at harmed
      cases harmed
    | waiting hc ht hd =>
      refine ⟨.dialling hc rfl ?_, ?_, hquiet fun _ he => by cases he⟩
      · show s.dialling + 1 = 1
        omega
      · rw [refusals_concat]
        exact h.failures
  | filled ch | drained ch =>
    refine h.buffer rfl rfl rfl ?_ (hquiet fun _ he => by cases he) fun _ _ he => by cases he
    rw [refusals_concat]
    rfl

end

section
variable {es : List BusEvent} {s : Redial}

theorem redial_inv (h : Trace redials anyStep es s) : s.Inv es := by
  refine h.invariant (I := fun es s => s.Inv es) ?_ fun es s e s' _ ih _ hst => ih.step hst
  rintro s ⟨hchan, htimer, hfailures, hdial, -⟩
  exact ⟨.dialling hchan htimer hdial, hfailures, fun ch hin => absurd hin List.not_mem_nil⟩

/-- **A channel, a timer or a dial.**  Whatever has happened, the service has exactly one of these:
    a channel that was not reported lost; a timer, whose delay is a second doubled for every dial
    refused since the last channel, thirty seconds at most; one dial under way. -/
theorem redial_state (h : Trace redials anyStep es s) :
    (∃ ch, s.bus.chan = some ch ∧ .closed ch ∉ es ∧ s.bus.timer = none ∧ s.dialling = 0) ∨
      (s.bus.chan = none ∧ s.bus.timer = some (min (1000 * 2 ^ refusals es) 30000) ∧
        s.dialling = 0) ∨
      (s.bus.chan = none ∧ s.bus.timer = none ∧ s.dialling = 1) := by
  cases (redial_inv h).place with
  | up hchan htimer hdial _ halive => exact .inl ⟨_, hchan, halive, htimer, hdial⟩
  | waiting hchan htimer hdial => exact .inr (.inl ⟨hchan, htimer, hdial⟩)
  | dialling hchan htimer hdial => exact .inr (.inr ⟨hchan, htimer, hdial⟩)

/-- It is never more than its timer and one dial away from a channel. -/
theorem redial_reconnects (h : Trace redials anyStep es s) {ch : Nat} (hnew : ch ∉ s.opened) :
    ∃ es' s', es'.length ≤ 2 ∧ Trace redials anyStep (es ++ es') s' ∧
      s'.bus.chan.isSome = true := by
  cases (redial_inv h).place with
  | up hchan =>
    refine ⟨[], s, Nat.zero_le 2, ?_, ?_⟩
    · rw [List.append_nil]
      exact h
    · rw [hchan]
      rfl
  | waiting hchan htimer hdial =>
    have harmed : s.bus.timer.isSome = true := by
      rw [htimer]
      rfl
    have hpath : Path Redial.Step s [.fired, .connected ch] _ :=
      .cons (.fired harmed) (.cons (.connected (Nat.succ_pos _) hnew) (.nil _))
    exact ⟨_, _, le_refl 2, h.extend hpath, rfl⟩
  | dialling hchan htimer hdial =>
    have hstep : Redial.Step s (.connected ch) _ :=
      .connected (by rw [hdial]; exact Nat.one_pos) hnew
    exact ⟨[.connected ch], _, Nat.le_succ 1, h.step trivial hstep, rfl⟩

end

/-- A broker that goes away, and refuses the first dial afterwards: two seconds. -/
theorem redial_state_refused : ∃ s, Trace redials anyStep
    [.connected 0, .closed 0, .fired, .refused] s ∧ s.bus.chan = none ∧
      s.bus.timer = some 2000 ∧ s.dialling = 0 := by
  have hinit : Trace redials anyStep [] (⟨⟨none, none, 0, [], []⟩, 1, []⟩ : Redial) :=
    .init ⟨rfl, rfl, rfl, rfl, rfl⟩
  have hdialled : Trace redials anyStep [.connected 0] _ :=
    hinit.step trivial (.connected (by decide) (by decide))
  have hlost : Trace redials anyStep [.connected 0, .closed 0] _ :=
    hdialled.step trivial (.closed (by decide))
  have hfired : Trace redials anyStep [.connected 0, .closed 0, .fired] _ :=
    hlost.step trivial (.fired (by decide))
  have hrun : Trace redials anyStep [.connected 0, .closed 0, .fired, .refused] _ :=
    hfired.step trivial (.refused (by decide))
  refine ⟨_, hrun, ?_⟩
  rcases redial_state hrun with ⟨ch, hchan, -⟩ | hwaiting | ⟨-, -, hdial⟩
  · cases hchan
  · exact hwaiting
  · cases hdial

end Novamail.Admin

/-
  `bus.ts`: the Admin API's channel to the bus, and what the operator is told of a job.

  `chan.publish` always takes the message, and answers false if its write buffer is full.  The answer
  is passed on as that of the publication, so a full buffer makes a failure of a job that is on its
  way.  Nothing else does, in no state of the connection and whatever happens to it meanwhile.
-/
import Mathlib.Algebra.Ring.Nat
import Novamail.Admin.Routes

namespace Novamail.Admin

open Novamail.Core

/-! ## The channel -/

/-- A job that was handed to the write buffer of a channel, and whether the buffer was full. -/
structure Handed where
  job : RelayJob
  full : Bool
  deriving DecidableEq, Repr

/-- The variables of `bus.ts`, and the connection: which channels have a full buffer, and what has
    been handed to it. -/
structure Bus where
  /-- `chan`; channels are told apart by a number. -/
  chan : Option Nat
  /-- `reconnectTimer`, with its delay in milliseconds. -/
  timer : Option Nat
  failures : Nat
  full : List Nat
  handed : List Handed

/-- `scheduleReconnect`. -/
def Bus.scheduleReconnect (b : Bus) : Bus :=
  if b.timer.isSome then b
  else { b with timer := some (min (1000 * 2 ^ b.failures) 30000) }

/-- What happens between the calls of a handler. -/
inductive BusEvent where
  /-- `connect` has a new channel, or has failed. -/
  | connected (ch : Nat)
  | refused
  /-- A channel, or its connection, is closed: `onLost`. -/
  | closed (ch : Nat)
  /-- The timer fires. -/
  | fired
  /-- The write buffer of a channel runs full, or is drained. -/
  | filled (ch : Nat)
  | drained (ch : Nat)
  deriving DecidableEq, Repr

def Bus.on (b : Bus) : BusEvent → Bus
  | .connected ch => { b with chan := some ch, failures := 0 }
  | .refused => { b with chan := none, failures := b.failures + 1 }.scheduleReconnect
  | .closed ch => if b.chan = some ch then { b with chan := none }.scheduleReconnect else b
  | .fired => { b with timer := none }
  | .filled ch => { b with full := ch :: b.full }
  | .drained ch => { b with full := b.full.filter (· ≠ ch) }

/-- `publishRelayJob`. -/
def Bus.publishRelayJob (b : Bus) (job : RelayJob) : Bus × Bool :=
  match b.chan with
  | none => (b, false)
  | some ch =>
    ({ b with handed := b.handed ++ [⟨job, decide (ch ∈ b.full)⟩] }, !decide (ch ∈ b.full))

/-- A call of a handler, after whatever has happened to the connection; the store may answer
    anything. -/
inductive AdminStep : Bus → (o : Op) → o.Ret → Bus → Prop where
  | publish (b : Bus) (es : List BusEvent) (job : RelayJob) :
      AdminStep b (.write (.publishRelayJob job)) ((es.foldl Bus.on b).publishRelayJob job).2
        ((es.foldl Bus.on b).publishRelayJob job).1
  | other (b : Bus) (es : List BusEvent) {o : Op} (r : o.Ret)
      (ho : ∀ job, o ≠ .write (.publishRelayJob job)) : AdminStep b o r (es.foldl Bus.on b)

/-! ## What is handed over -/

theorem on_handed (b : Bus) (e : BusEvent) : (b.on e).handed = b.handed := by
  have hschedule : ∀ b : Bus, b.scheduleReconnect.handed = b.handed := by
    intro b
    unfold Bus.scheduleReconnect
    split_ifs <;> rfl
  cases e with
  | connected ch => rfl
  | refused => exact hschedule _
  | closed ch =>
    show (if b.chan = some ch then _ else b).handed = b.handed
    split_ifs
    · exact hschedule _
    · rfl
  | fired => rfl
  | filled ch => rfl
  | drained ch => rfl

/-- Nothing that happens to the connection hands over a job, or takes one back. -/
theorem events_handed (b : Bus) (es : List BusEvent) :
    (es.foldl Bus.on b).handed = b.handed := by
  induction es generalizing b with
  | nil => rfl
  | cons e es ih => exact (ih (b.on e)).trans (on_handed b e)

theorem AdminStep.handed_of_other {b b' : Bus} {o : Op} {r : o.Ret} (h : AdminStep b o r b')
    (ho : ∀ job, o ≠ .write (.publishRelayJob job)) : b'.handed = b.handed := by
  cases h with
  | publish es job => exact absurd rfl (ho job)
  | other es => exact events_handed b es

/-- What a handler has done with its job when it answers. -/
inductive Answered (b b' : Bus) (ok : Prop) : Prop where
  /-- Nothing was handed over, and it says so. -/
  | nothing (hok : ¬ ok) (hb : b'.handed = b.handed)
  /-- One job was handed over, and it says that the buffer was not full. -/
  | handed (job : RelayJob) (full : Bool) (hok : ok ↔ full = false)
      (hb : b'.handed = b.handed ++ [⟨job, full⟩])

theorem AdminStep.publish_answered {b b' : Bus} {job : RelayJob} {r : Bool}
    (h : AdminStep b (.write (.publishRelayJob job)) r b') : Answered b b' (r = true) := by
  cases h with
  | publish es =>
    have hb := events_handed b es
    generalize es.foldl Bus.on b = b₁ at hb
    unfold Bus.publishRelayJob
    match b₁.chan with
    | none => exact .nothing Bool.false_ne_true hb
    | some ch =>
      refine .handed job (decide (ch ∈ b₁.full)) ?_ (by rw [← hb])
      simp
  | other es _ ho => exact absurd rfl (ho job)

/-- What was answered before the last call stands if the calls before it hand over nothing. -/
theorem Answered.after {b b₁ b' : Bus} {ok : Prop} (h : Answered b₁ b' ok)
    (hb : b₁.handed = b.handed) : Answered b b' ok := by
  cases h with
  | nothing hok hb' => exact .nothing hok (hb'.trans hb)
  | handed job full hok hb' => exact .handed job full hok (by rw [hb', hb])

/-- What is made of the answer of a publication, without another call. -/
theorem Answered.of_answer {b b₁ b' : Bus} {ok ok' : Prop} (h : Answered b b₁ ok) (hb : b₁ = b')
    (hok : ok ↔ ok') : Answered b b' ok' := by
  subst hb
  cases h with
  | nothing hno hb => exact .nothing (fun h => hno (hok.mpr h)) hb
  | handed job full hfull hb => exact .handed job full (hok.symm.trans hfull) hb

/-- A handler that ends in a publication. -/
theorem publish_last {b b' : Bus} {job : RelayJob} {ok : Bool}
    (h : Prog.Run AdminStep b (write (.publishRelayJob job)) ok b') :
    Answered b b' (ok = true) := by
  cases h with
  | call head rest =>
    cases rest
    exact head.publish_answered

/-- A handler that ends without a publication. -/
theorem Answered.of_pure {α : Type} {b b' : Bus} {a r : α} {p : α → Prop} (hno : ¬ p a)
    (h : Prog.Run AdminStep b (pure a : Handler α) r b') : Answered b b' (p r) := by
  obtain ⟨rfl, rfl⟩ := Prog.Run.of_pure h
  exact .nothing hno rfl

theorem requeue_answered {b b' : Bus} {id : MsgId} {code : Nat}
    (h : Prog.Run AdminStep b (requeue id) code b') : Answered b b' (code = 200) := by
  obtain ⟨row, b₁, head, rest⟩ := Prog.Run.of_lift_bind h
  refine Answered.after ?_ (head.handed_of_other (by rintro job ⟨⟩))
  match row with
  | none => exact .of_pure (p := fun n => n = 200) (by decide) rest
  | some none => exact .of_pure (p := fun n => n = 200) (by decide) rest
  | some (some m) =>
    dsimp only at rest
    by_cases hterm : terminal m.status = true
    · rw [if_pos hterm] at rest
      exact .of_pure (p := fun n => n = 200) (by decide) rest
    · rw [if_neg hterm] at rest
      obtain ⟨ok, b₂, hpub, rest⟩ := Prog.Run.of_lift_bind rest
      refine hpub.publish_answered.of_answer ?_ ?_
      · cases ok with
        | true => exact (Prog.Run.of_pure rest).2
        | false => exact (Prog.Run.of_pure rest).2
      · cases ok with
        | true =>
          obtain ⟨rfl, -⟩ := Prog.Run.of_pure rest
          simp
        | false =>
          obtain ⟨rfl, -⟩ := Prog.Run.of_pure rest
          simp

theorem injectEmail_answered {b b' : Bus} {rcpts : List String} {subject text : String} {ok : Bool}
    (h : Prog.Run AdminStep b (injectEmail rcpts subject text) ok b') :
    Answered b b' (ok = true) := by
  have hno : ∀ {b : Bus}, Prog.Run AdminStep b (pure false : Handler Bool) ok b' →
      Answered b b' (ok = true) := fun hrun => .of_pure (p := fun r => r = true) (by decide) hrun
  unfold injectEmail at h
  split at h
  · exact hno h
  · obtain ⟨id, b₁, hid, h⟩ := Prog.Run.of_lift_bind h
    refine Answered.after ?_ (hid.handed_of_other (by rintro job ⟨⟩))
    obtain ⟨sender, b₂, hfrom, h⟩ := Prog.Run.of_lift_bind h
    refine Answered.after ?_ (hfrom.handed_of_other (by rintro job ⟨⟩))
    match sender with
    | none => exact hno h
    | some sender =>
      dsimp only at h
      by_cases hset : sender = ""
      · rw [if_pos hset] at h
        exact hno h
      rw [if_neg hset] at h
      by_cases hclean : (hasNewline sender || rcpts.any hasNewline) = true
      · rw [if_pos hclean] at h
        exact hno h
      rw [if_neg hclean] at h
      obtain ⟨date, b₃, hnow, h⟩ := Prog.Run.of_lift_bind h
      refine Answered.after ?_ (hnow.handed_of_other (by rintro job ⟨⟩))
      obtain ⟨stored, b₄, hstore, h⟩ := Prog.Run.of_lift_bind h
      refine Answered.after ?_ (hstore.handed_of_other (by rintro job ⟨⟩))
      cases stored with
      | false => exact hno h
      | true =>
        obtain ⟨inserted, b₅, hinsert, h⟩ := Prog.Run.of_lift_bind h
        refine Answered.after ?_ (hinsert.handed_of_other (by rintro job ⟨⟩))
        cases inserted with
        | false => exact hno h
        | true => exact publish_last h

/-! ## What the operator is told -/

/-- A failure is reported only if no job was handed to the bus, and a success only if exactly one
    was. -/
def Truthful (b b' : Bus) (ok : Prop) : Prop :=
  (¬ ok → b'.handed = b.handed) ∧
    (ok → ∃ job, b'.handed.map Handed.job = b.handed.map Handed.job ++ [job])

/-- No job was handed over while the write buffer was full. -/
def Drained (b b' : Bus) : Prop :=
  ∀ new, b'.handed = b.handed ++ new → ∀ e ∈ new, e.full = false

theorem Answered.truthful_exactly {b b' : Bus} {ok : Prop} (h : Answered b b' ok) :
    Truthful b b' ok ↔ Drained b b' := by
  cases h with
  | nothing hok hb =>
    refine iff_of_true ⟨fun _ => hb, fun h => absurd h hok⟩ ?_
    intro new hnew e he
    rw [hb] at hnew
    rw [List.append_right_eq_self.mp hnew.symm] at he
    cases he
  | handed job full hok hb =>
    constructor
    · rintro ⟨hfail, -⟩ new hnew e he
      rw [hb] at hnew
      rw [← List.append_cancel_left hnew] at he
      rw [List.mem_singleton.mp he]
      apply hok.mp
      by_contra hno
      have hsame := hfail hno
      rw [hb] at hsame
      exact List.cons_ne_nil _ _ (List.append_right_eq_self.mp hsame)
    · intro hdrained
      have hfull : full = false := hdrained [⟨job, full⟩] hb _ (List.mem_singleton_self _)
      refine ⟨fun hno => absurd (hok.mpr hfull) hno, fun _ => ⟨job, ?_⟩⟩
      rw [hb, List.map_append]
      rfl

/-- **The operator is told the truth exactly if the write buffer had room** when the job was handed
    over: of a requeue and of an alert mail, from any state of the connection and whatever happens to
    it between the calls. -/
theorem truthful_iff (b b' : Bus) :
    (∀ (id : MsgId) (code : Nat), Prog.Run AdminStep b (requeue id) code b' →
      (Truthful b b' (code = 200) ↔ Drained b b')) ∧
    (∀ (rcpts : List String) (subject text : String) (ok : Bool),
      Prog.Run AdminStep b (injectEmail rcpts subject text) ok b' →
        (Truthful b b' (ok = true) ↔ Drained b b')) :=
  ⟨fun _ _ h => (requeue_answered h).truthful_exactly,
    fun _ _ _ _ h => (injectEmail_answered h).truthful_exactly⟩

/-- A queued message. -/
def queuedRow : Row :=
  { envelope := { mailFrom := "a@example.com", rcptTo := ["b@example.net"] }
    bodyRef := { backend := .pg, key := "k" }
    info := { subject := "", sizeBytes := 1 }
    updatedAt := 0 }

/-- A connection whose channel has these buffers full, and what it has been handed. -/
def connectedBus (full : List Nat) (handed : List Handed) : Bus :=
  { chan := some 0, timer := none, failures := 0, full := full, handed := handed }

theorem truthful_test :
    Truthful (connectedBus [] []) (connectedBus [] [⟨requeueJob "m" queuedRow, false⟩])
      (200 = 200) := by
  have hrun : Prog.Run AdminStep (connectedBus [] []) (requeue "m") 200
      (connectedBus [] [⟨requeueJob "m" queuedRow, false⟩]) := by
    refine .call (.other (connectedBus [] []) [] (some (some queuedRow)) (by rintro job ⟨⟩)) ?_
    exact .call (.publish (connectedBus [] []) [] (requeueJob "m" queuedRow)) .pure
  refine ((truthful_iff _ _).1 "m" 200 hrun).mpr ?_
  intro new hnew e he
  have hone : [⟨requeueJob "m" queuedRow, false⟩] = new := hnew
  rw [← hone] at he
  rw [List.mem_singleton.mp he]

/-- With a full buffer the operator is told that the bus is unavailable, and the job is on its
    way. -/
theorem full_buffer_denied :
    Prog.Run AdminStep (connectedBus [0] []) (requeue "m") 502
      (connectedBus [0] [⟨requeueJob "m" queuedRow, true⟩]) ∧
    ¬ Truthful (connectedBus [0] []) (connectedBus [0] [⟨requeueJob "m" queuedRow, true⟩])
      (502 = 200) := by
  constructor
  · refine .call (.other (connectedBus [0] []) [] (some (some queuedRow)) (by rintro job ⟨⟩)) ?_
    exact .call (.publish (connectedBus [0] []) [] (requeueJob "m" queuedRow)) .pure
  · rintro ⟨hfail, -⟩
    exact List.cons_ne_nil _ _ (hfail (by decide))

end Novamail.Admin

/-
  How a configuration change reaches the data plane.

  A writer (the Admin API, and dsn for the suppressions it adds) commits to Postgres and then
  publishes a `config.changed` event.  The broker copies the event to the queues that exist at that
  instant: each ingress and delivery process has one for each subscription it holds, and loses it
  with its connection.  The goroutine behind a subscription takes one event after the other, and for
  each it runs the loader and installs the result.

  A process builds its first snapshot before it subscribes, and a process that reconnects only
  subscribes again.  So nothing but an event makes a process look at the database a second time.
-/
import Mathlib.Logic.Function.Basic
import Novamail.Core.System
import Novamail.Delivery.State
import Novamail.Ingress.Inbound

namespace Novamail

open Novamail.Core

/-! ## The parties -/

/-- The programs that write configuration. -/
inductive ConfigWriter where
  | adminAPI | dsn
  deriving DecidableEq, Repr

/-- The programs that hold a snapshot. -/
inductive DataPlane where
  | ingress | delivery
  deriving DecidableEq, Repr

/-- What each of them holds. -/
@[reducible] def DataPlane.Snapshot : DataPlane → Type
  | .ingress => InboundPolicy
  | .delivery => RouteState

/-- The loader of each of them. -/
def DataPlane.load (P : Platform) (cipher : Bool) : (k : DataPlane) → Load k.Snapshot
  | .ingress => buildInbound P
  | .delivery => buildState P cipher

/-- A loader in progress.  `began` is the number of writes that had been committed when it
    started; the code does not record it. -/
structure Rebuild (k : DataPlane) where
  began : Nat
  rest : Load k.Snapshot

/-- The snapshot a process serves from, with the same count for the run that built it. -/
structure Held (k : DataPlane) where
  began : Nat
  value : k.Snapshot

/-- A subscription and its goroutine; it is live while the broker still fills its queue. -/
structure ConfigSub (k : DataPlane) where
  live : Bool := true
  queued : Nat := 0
  rebuild : Option (Rebuild k) := none

/-- `main`: the first build, then `state.Store`, then `SubscribeConfig` (which registers the
    handler and opens the first subscription). -/
inductive ProcPhase (k : DataPlane) where
  | starting (first : Rebuild k)
  | serving (held : Held k) (registered : Bool) (subs : List (ConfigSub k))

/-- A data-plane process and its bus connection. -/
structure DataProc where
  kind : DataPlane
  connected : Bool
  phase : ProcPhase kind

/-- A writer: whether it has a channel, how many of its requests have committed and not yet
    published, and its events on the way to the broker (each with the number of writes that had
    been committed when it was published). -/
structure WriterSide where
  chan : Bool := false
  owing : Nat := 0
  flight : List Nat := []

/-- The database, the writers and the data plane. -/
structure Fleet where
  db : ConfigDb
  /-- The number of writes committed so far. -/
  commits : Nat
  writers : ConfigWriter → WriterSide
  procs : Nat → Option DataProc

/-! ## The steps -/

/-- The broker appends an event to the queues that exist. -/
def ConfigSub.deliver {k : DataPlane} (s : ConfigSub k) : ConfigSub k :=
  if s.live then { s with queued := s.queued + 1 } else s

/-- A process whose subscriptions were sent an event. -/
def DataProc.deliver (p : DataProc) : DataProc :=
  { p with
    phase :=
      match p.phase with
      | .starting first => .starting first
      | .serving held registered subs => .serving held registered (subs.map ConfigSub.deliver) }

/-- What is left of a subscription whose connection is lost: its goroutine goes on with the rebuild
    it is in and with those events that had come through. -/
def ConfigSub.Orphan {k : DataPlane} (s s' : ConfigSub k) : Prop :=
  s'.live = false ∧ s'.queued ≤ s.queued ∧ s'.rebuild = s.rebuild

namespace Fleet

def setWriter (s : Fleet) (w : ConfigWriter) (x : WriterSide) : Fleet :=
  { s with writers := Function.update s.writers w x }

def setProc (s : Fleet) (i : Nat) (p : Option DataProc) : Fleet :=
  { s with procs := Function.update s.procs i p }

/-- The process `i`, now in this phase. -/
def enter (s : Fleet) (i : Nat) (k : DataPlane) (connected : Bool) (ph : ProcPhase k) : Fleet :=
  s.setProc i (some ⟨k, connected, ph⟩)

@[simp] theorem enter_self (s : Fleet) (i : Nat) (k : DataPlane) (c : Bool) (ph : ProcPhase k) :
    (s.enter i k c ph).procs i = some ⟨k, c, ph⟩ := Function.update_self ..

theorem enter_ne (s : Fleet) {i j : Nat} (h : j ≠ i) (k : DataPlane) (c : Bool)
    (ph : ProcPhase k) : (s.enter i k c ph).procs j = s.procs j := Function.update_of_ne h ..

theorem enter_enter (s : Fleet) (i : Nat) (k : DataPlane) (c c' : Bool) (ph ph' : ProcPhase k) :
    (s.enter i k c ph).enter i k c' ph' = s.enter i k c' ph' := by
  unfold enter setProc
  rw [Function.update_idem]

/-- After one has ended, a process that is there was there before. -/
theorem of_exit {s : Fleet} {i j : Nat} {p : DataProc}
    (h : (s.setProc i none).procs j = some p) : s.procs j = some p := by
  have h : Function.update s.procs i none j = some p := h
  by_cases hj : j = i
  · subst hj
    rw [Function.update_self] at h
    cases h
  · rwa [Function.update_of_ne hj] at h

end Fleet

/-- What happens, for a run to be restricted by. -/
inductive FleetMove where
  | commit (w : ConfigWriter)
  | publish (w : ConfigWriter)
  | drop (w : ConfigWriter)
  | route (w : ConfigWriter) (event : Nat)
  | down (w : ConfigWriter)
  | up (w : ConfigWriter)
  | tick
  | start (i : Nat)
  | read (i : Nat)
  | readFails (i : Nat)
  | store (i : Nat)
  | subscribe (i : Nat)
  | take (i : Nat)
  | install (i : Nat)
  | lose (i : Nat)
  | reconnect (i : Nat)
  | exit (i : Nat)

section
variable (P : Platform) (cipher : Bool)

/-- The steps of the fleet.  `db` is written by whole requests, `request` false for a further
    statement of a request that has committed before. -/
inductive FleetStep : Fleet → FleetMove → Fleet → Prop where
  /-- A statement of a request commits; mounted files and the clock are not written. -/
  | commit {s : Fleet} {w : ConfigWriter} {db : ConfigDb} (request : Bool)
      (hrequest : request = false → 0 < (s.writers w).owing)
      (hfile : db.secretFile = s.db.secretFile) (hclock : db.clock = s.db.clock) :
      FleetStep s (.commit w)
        { s.setWriter w { s.writers w with
            owing := if request then (s.writers w).owing + 1 else (s.writers w).owing } with
          db := db, commits := s.commits + 1 }
  /-- `publishConfigChanged`, `PublishConfig`: the event is handed to the channel. -/
  | publish {s : Fleet} {w : ConfigWriter} {n : Nat} (howing : (s.writers w).owing = n + 1)
      (hchan : (s.writers w).chan = true) :
      FleetStep s (.publish w)
        (s.setWriter w { s.writers w with
          owing := n, flight := s.commits :: (s.writers w).flight })
  /-- There is no channel (`if (!chan) return`), or the epoch cannot be read, or the publish
      fails: the request ends without an event. -/
  | drop {s : Fleet} {w : ConfigWriter} {n : Nat} (howing : (s.writers w).owing = n + 1) :
      FleetStep s (.drop w) (s.setWriter w { s.writers w with owing := n })
  /-- The fanout exchange copies the event to the queues that are bound to it. -/
  | route {s : Fleet} {w : ConfigWriter} {e : Nat} (he : e ∈ (s.writers w).flight) :
      FleetStep s (.route w e)
        { s.setWriter w { s.writers w with flight := (s.writers w).flight.erase e } with
          procs := fun i => (s.procs i).map DataProc.deliver }
  /-- A writer loses its channel, and what the broker had not received. -/
  | down {s : Fleet} {w : ConfigWriter} :
      FleetStep s (.down w) (s.setWriter w { s.writers w with chan := false, flight := [] })
  /-- A writer reconnects. -/
  | up {s : Fleet} {w : ConfigWriter} :
      FleetStep s (.up w) (s.setWriter w { s.writers w with chan := true })
  /-- Time passes, and no suppression lapses. -/
  | tick {s : Fleet} {now : Nat}
      (hlapse : { s.db with clock := now }.answer = s.db.answer) :
      FleetStep s .tick { s with db := { s.db with clock := now } }
  /-- A process has opened the database and the bus, and begins its first build. -/
  | start {s : Fleet} {i : Nat} (k : DataPlane) (hnew : s.procs i = none) :
      FleetStep s (.start i) (s.enter i k true (.starting ⟨s.commits, k.load P cipher⟩))
  /-- A read of the first build. -/
  | readFirst {s : Fleet} {i : Nat} {k : DataPlane} {c : Bool} {b : Nat} {o : ConfigOp}
      {rest : o.Ret → Load k.Snapshot}
      (hp : s.procs i = some ⟨k, c, .starting ⟨b, .call o rest⟩⟩) :
      FleetStep s (.read i) (s.enter i k c (.starting ⟨b, rest (s.db.answer o)⟩))
  /-- A read of the first build that fails. -/
  | readFirstFails {s : Fleet} {i : Nat} {k : DataPlane} {c : Bool} {b : Nat} {o : ConfigOp}
      {rest : o.Ret → Load k.Snapshot} {r : o.Ret} (hr : o.Broken (s.db.answer o) r)
      (hp : s.procs i = some ⟨k, c, .starting ⟨b, .call o rest⟩⟩) :
      FleetStep s (.readFails i) (s.enter i k c (.starting ⟨b, rest r⟩))
  /-- `state.Store` of the first snapshot. -/
  | store {s : Fleet} {i : Nat} {k : DataPlane} {c : Bool} {b : Nat} {v : k.Snapshot}
      (hp : s.procs i = some ⟨k, c, .starting ⟨b, .pure v⟩⟩) :
      FleetStep s (.store i) (s.enter i k c (.serving ⟨b, v⟩ false []))
  /-- `SubscribeConfig`; without a connection the process exits.  A reconnect between the
      registration and `startConfigSub` subscribes the handler twice. -/
  | subscribe {s : Fleet} {i : Nat} {k : DataPlane} {held : Held k} {subs : List (ConfigSub k)}
      (twice : Bool) (hp : s.procs i = some ⟨k, true, .serving held false subs⟩) :
      FleetStep s (.subscribe i) (s.enter i k true
        (.serving held true ({} :: if twice then {} :: subs else subs)))
  /-- A goroutine takes the next event and calls the handler. -/
  | take {s : Fleet} {i : Nat} {k : DataPlane} {c reg : Bool} {held : Held k}
      {before after : List (ConfigSub k)} {x : ConfigSub k} {n : Nat}
      (hp : s.procs i = some ⟨k, c, .serving held reg (before ++ x :: after)⟩)
      (hqueued : x.queued = n + 1) (hidle : x.rebuild = none) :
      FleetStep s (.take i) (s.enter i k c (.serving held reg (before ++
        { x with queued := n, rebuild := some ⟨s.commits, k.load P cipher⟩ } :: after)))
  /-- A read of a handler. -/
  | read {s : Fleet} {i : Nat} {k : DataPlane} {c reg : Bool} {held : Held k}
      {before after : List (ConfigSub k)} {x : ConfigSub k} {b : Nat} {o : ConfigOp}
      {rest : o.Ret → Load k.Snapshot}
      (hp : s.procs i = some ⟨k, c, .serving held reg (before ++ x :: after)⟩)
      (hx : x.rebuild = some ⟨b, .call o rest⟩) :
      FleetStep s (.read i) (s.enter i k c (.serving held reg (before ++
        { x with rebuild := some ⟨b, rest (s.db.answer o)⟩ } :: after)))
  /-- A read of a handler that fails. -/
  | readFails {s : Fleet} {i : Nat} {k : DataPlane} {c reg : Bool} {held : Held k}
      {before after : List (ConfigSub k)} {x : ConfigSub k} {b : Nat} {o : ConfigOp}
      {rest : o.Ret → Load k.Snapshot} {r : o.Ret} (hr : o.Broken (s.db.answer o) r)
      (hp : s.procs i = some ⟨k, c, .serving held reg (before ++ x :: after)⟩)
      (hx : x.rebuild = some ⟨b, .call o rest⟩) :
      FleetStep s (.readFails i) (s.enter i k c (.serving held reg (before ++
        { x with rebuild := some ⟨b, rest r⟩ } :: after)))
  /-- `state.Store` of a rebuilt snapshot. -/
  | install {s : Fleet} {i : Nat} {k : DataPlane} {c reg : Bool} {held : Held k}
      {before after : List (ConfigSub k)} {x : ConfigSub k} {b : Nat} {v : k.Snapshot}
      (hp : s.procs i = some ⟨k, c, .serving held reg (before ++ x :: after)⟩)
      (hx : x.rebuild = some ⟨b, .pure v⟩) :
      FleetStep s (.install i) (s.enter i k c (.serving ⟨b, v⟩ reg (before ++
        { x with rebuild := none } :: after)))
  /-- A process that is starting loses its connection. -/
  | loseFirst {s : Fleet} {i : Nat} {k : DataPlane} {c : Bool} {first : Rebuild k}
      (hp : s.procs i = some ⟨k, c, .starting first⟩) :
      FleetStep s (.lose i) (s.enter i k false (.starting first))
  /-- A process loses its connection, and the broker its queues. -/
  | lose {s : Fleet} {i : Nat} {k : DataPlane} {c reg : Bool} {held : Held k}
      {subs subs' : List (ConfigSub k)} (hp : s.procs i = some ⟨k, c, .serving held reg subs⟩)
      (hsubs : List.Forall₂ ConfigSub.Orphan subs subs') :
      FleetStep s (.lose i) (s.enter i k false (.serving held reg subs'))
  /-- `reconnect` before the handler is registered. -/
  | reconnectFirst {s : Fleet} {i : Nat} {k : DataPlane} {first : Rebuild k}
      (hp : s.procs i = some ⟨k, false, .starting first⟩) :
      FleetStep s (.reconnect i) (s.enter i k true (.starting first))
  /-- `reconnect`, `reestablish`: a registered handler gets a new subscription, unless
      `startConfigSub` fails, which is logged.  Nothing is read. -/
  | reconnect {s : Fleet} {i : Nat} {k : DataPlane} {reg : Bool} {held : Held k}
      {subs : List (ConfigSub k)} (again : Bool)
      (hp : s.procs i = some ⟨k, false, .serving held reg subs⟩) :
      FleetStep s (.reconnect i)
        (s.enter i k true (.serving held reg (if reg && again then {} :: subs else subs)))
  /-- A process ends. -/
  | exit {s : Fleet} {i : Nat} : FleetStep s (.exit i) (s.setProc i none)

/-- The fleet: any database, nothing written and no process started yet. -/
def fleet : LTS Fleet FleetMove where
  init s := s.commits = 0 ∧ (∀ w, (s.writers w).owing = 0 ∧ (s.writers w).flight = []) ∧
    ∀ i, s.procs i = none
  step := FleetStep P cipher

end

/-! ## The property -/

/-- A subscription with nothing to do. -/
def ConfigSub.Idle {k : DataPlane} (s : ConfigSub k) : Prop := s.queued = 0 ∧ s.rebuild = none

/-- A process that is up, subscribed, and has nothing to do. -/
def DataProc.Settled (p : DataProc) : Prop :=
  p.connected = true ∧
    match p.phase with
    | .starting _ => False
    | .serving _ registered subs =>
      registered = true ∧ (∃ x ∈ subs, x.live = true) ∧ ∀ x ∈ subs, x.Idle

/-- No write in progress, all bus connections up and subscriptions live, no event in flight or
    being handled. -/
structure Fleet.Quiescent (s : Fleet) : Prop where
  writers : ∀ w, (s.writers w).chan = true ∧ (s.writers w).owing = 0 ∧ (s.writers w).flight = []
  procs : ∀ i p, s.procs i = some p → p.Settled

/-- The process serves from the snapshot that its loader makes from this database. -/
def DataProc.UpToDate (P : Platform) (cipher : Bool) (db : ConfigDb) (p : DataProc) : Prop :=
  match p.phase with
  | .starting _ => False
  | .serving held _ _ => held.value = (p.kind.load P cipher).eval db.answer

/-- **The property.**  In a quiescent state every process is up to date. -/
def Fleet.Converged (P : Platform) (cipher : Bool) (s : Fleet) : Prop :=
  s.Quiescent → ∀ i p, s.procs i = some p → p.UpToDate P cipher s.db

/-! ## The condition -/

/-- The process has a subscription that the broker fills. -/
def DataProc.Live (p : DataProc) : Prop :=
  match p.phase with
  | .starting _ => False
  | .serving _ _ subs => ∃ x ∈ subs, x.live = true

/-- The number of writes committed when the build of the snapshot (of the first snapshot, while
    the process starts) began. -/
def DataProc.began (p : DataProc) : Nat :=
  match p.phase with
  | .starting first => first.began
  | .serving held _ _ => held.began

/-- The process holds no event and is not rebuilding. -/
def DataProc.Quiet (p : DataProc) : Prop :=
  match p.phase with
  | .starting _ => True
  | .serving _ _ subs => ∀ x ∈ subs, x.Idle

/-- **The condition on a step.**  No request ends without its event, and no writer loses its channel
    with an event on it; an event is routed when every process has a live subscription, or began to
    build its snapshot after the writes the event tells of; a process that loses its connection
    has nothing to do; no read of a build fails. -/
def Orderly (s : Fleet) : FleetMove → Prop
  | .drop _ | .readFails _ => False
  | .down w => (s.writers w).flight = []
  | .route _ e => ∀ i p, s.procs i = some p → p.Live ∨ e ≤ p.began
  | .lose i => ∀ p, s.procs i = some p → p.Quiet
  | _ => True

/-! ## The invariant -/

/-- A request or an event is still to tell of every write committed so far. -/
def Fleet.Owed (s : Fleet) : Prop :=
  ∃ w, 0 < (s.writers w).owing ∨ ∃ e ∈ (s.writers w).flight, s.commits ≤ e

section
variable (P : Platform) (cipher : Bool)

/-- A build that began after the last write ends in the snapshot of the current database. -/
def Rebuild.Sound {k : DataPlane} (db : ConfigDb) (commits : Nat) (r : Rebuild k) : Prop :=
  r.began ≤ commits ∧
    (commits ≤ r.began → r.rest.eval db.answer = (k.load P cipher).eval db.answer)

/-- The same for the snapshot a build has ended in. -/
def Held.Sound {k : DataPlane} (db : ConfigDb) (commits : Nat) (h : Held k) : Prop :=
  h.began ≤ commits ∧ (commits ≤ h.began → h.value = (k.load P cipher).eval db.answer)

/-- Every build and every snapshot of the process is sound, and a subscription that the broker does
    not fill any more is idle. -/
def DataProc.Sound (db : ConfigDb) (commits : Nat) (p : DataProc) : Prop :=
  match p.phase with
  | .starting first => first.Sound P cipher db commits
  | .serving held _ subs =>
    held.Sound P cipher db commits ∧
      ∀ x ∈ subs, (∀ r, x.rebuild = some r → r.Sound P cipher db commits) ∧
        (x.live = false → x.Idle)

/-- The process has seen the last write, or has work that will show it. -/
def DataProc.Catching (commits : Nat) (p : DataProc) : Prop :=
  match p.phase with
  | .starting first => commits ≤ first.began
  | .serving held _ subs =>
    (∀ x ∈ subs, ∀ r, x.rebuild = some r → commits ≤ r.began ∨ 0 < x.queued) ∧
      (commits ≤ held.began ∨ ∃ x ∈ subs, ¬ x.Idle)

/-- **The invariant.** -/
structure Fleet.Inv (s : Fleet) : Prop where
  sound : ∀ i p, s.procs i = some p → p.Sound P cipher s.db s.commits
  catching : s.Owed ∨ ∀ i p, s.procs i = some p → p.Catching s.commits

end

section
variable {P : Platform} {cipher : Bool} {s : Fleet}

namespace Fleet.Inv

/-- A step of one process. -/
theorem enter (hi : s.Inv P cipher) {i : Nat} {k : DataPlane} {c : Bool} {ph : ProcPhase k}
    (hsound : (⟨k, c, ph⟩ : DataProc).Sound P cipher s.db s.commits)
    (hcatching : (∀ j p, s.procs j = some p → p.Catching s.commits) →
      (⟨k, c, ph⟩ : DataProc).Catching s.commits) : (s.enter i k c ph).Inv P cipher := by
  have hone : ∀ {Q : DataProc → Prop}, (∀ j p, s.procs j = some p → Q p) → Q ⟨k, c, ph⟩ →
      ∀ j p, (s.enter i k c ph).procs j = some p → Q p := by
    intro Q hall hnew j p hp
    by_cases hj : j = i
    · subst hj
      rw [Fleet.enter_self] at hp
      exact Option.some.inj hp ▸ hnew
    · rw [Fleet.enter_ne s hj] at hp
      exact hall j p hp
  refine ⟨hone hi.sound hsound, ?_⟩
  rcases hi.catching with howed | hall
  · exact .inl howed
  · exact .inr (hone hall (hcatching hall))

/-- Two steps of one process. -/
theorem of_enter_enter {i : Nat} {k : DataPlane} {c c' : Bool} {ph ph' : ProcPhase k}
    (h : ((s.enter i k c ph).enter i k c' ph').Inv P cipher) :
    (s.enter i k c' ph').Inv P cipher := by
  rwa [Fleet.enter_enter] at h

/-- A step of a process that starts, and whose first build has the result it had. -/
theorem enter_starting (hi : s.Inv P cipher) {i : Nat} {k : DataPlane} {c c' : Bool}
    {first first' : Rebuild k} (hp : s.procs i = some ⟨k, c, .starting first⟩)
    (hbegan : first'.began = first.began)
    (heval : first'.rest.eval s.db.answer = first.rest.eval s.db.answer) :
    (s.enter i k c' (.starting first')).Inv P cipher := by
  have hsound : first.Sound P cipher s.db s.commits := hi.sound i _ hp
  refine hi.enter ⟨hbegan.trans_le hsound.1, fun hge => ?_⟩ fun hall => ?_
  · exact heval.trans (hsound.2 (hbegan ▸ hge))
  · have hcatching : s.commits ≤ first.began := hall i _ hp
    exact hcatching.trans_eq hbegan.symm

/-- A step of a writer after which everything is owed that was owed. -/
theorem setWriter (hi : s.Inv P cipher) {w : ConfigWriter} {x : WriterSide}
    (howed : s.Owed → (s.setWriter w x).Owed) : (s.setWriter w x).Inv P cipher :=
  ⟨hi.sound, hi.catching.imp_left howed⟩

end Fleet.Inv

/-- Another side of the writer `w` that owes at least as much. -/
theorem Fleet.Owed.setWriter (h : s.Owed) {w : ConfigWriter} {x : WriterSide}
    (hx : (0 < (s.writers w).owing ∨ ∃ e ∈ (s.writers w).flight, s.commits ≤ e) →
      0 < x.owing ∨ ∃ e ∈ x.flight, s.commits ≤ e) : (s.setWriter w x).Owed := by
  obtain ⟨v, hv⟩ := h
  refine ⟨v, ?_⟩
  by_cases hvw : v = w
  · subst hvw
    have hself : (s.setWriter v x).writers v = x := Function.update_self ..
    rw [hself]
    exact hx hv
  · have hother : (s.setWriter w x).writers v = s.writers v := Function.update_of_ne hvw ..
    rw [hother]
    exact hv

/-! ## What the steps keep -/

/-- A build that begins now is sound. -/
theorem Rebuild.sound_load {k : DataPlane} {db : ConfigDb} {n : Nat} :
    Rebuild.Sound P cipher db n ⟨n, k.load P cipher⟩ := ⟨Nat.le_refl n, fun _ => rfl⟩

/-- What soundness says is kept while the answers of the database are, and trivial after a write. -/
theorem DataProc.Sound.commit {db db' : ConfigDb} {n : Nat} {p : DataProc}
    (h : p.Sound P cipher db n) : p.Sound P cipher db' (n + 1) := by
  have hreb : ∀ {k : DataPlane} {r : Rebuild k}, r.Sound P cipher db n →
      r.Sound P cipher db' (n + 1) :=
    fun hr => ⟨Nat.le_succ_of_le hr.1, fun hle => absurd (Nat.le_trans hle hr.1) (by omega)⟩
  obtain ⟨k, c, ph⟩ := p
  cases ph with
  | starting first => exact hreb h
  | serving held reg subs =>
    obtain ⟨⟨hle, -⟩, hsubs⟩ := h
    refine ⟨⟨Nat.le_succ_of_le hle, fun hge => absurd (Nat.le_trans hge hle) (by omega)⟩, ?_⟩
    intro x hx
    exact ⟨fun r hr => hreb ((hsubs x hx).1 r hr), (hsubs x hx).2⟩

theorem DataProc.Sound.tick {db db' : ConfigDb} {n : Nat} {p : DataProc}
    (hdb : db'.answer = db.answer) (h : p.Sound P cipher db n) : p.Sound P cipher db' n := by
  unfold DataProc.Sound Held.Sound Rebuild.Sound at h ⊢
  rw [hdb]
  exact h

/-- An event on its way into the queues of a process. -/
theorem DataProc.Sound.deliver {db : ConfigDb} {n : Nat} {p : DataProc}
    (h : p.Sound P cipher db n) : p.deliver.Sound P cipher db n := by
  obtain ⟨k, c, ph⟩ := p
  cases ph with
  | starting first => exact h
  | serving held reg subs =>
    refine ⟨h.1, fun x hx => ?_⟩
    obtain ⟨y, hy, rfl⟩ := List.mem_map.mp hx
    have hold := h.2 y hy
    unfold ConfigSub.deliver
    cases hlive : y.live with
    | false => exact hold
    | true =>
      refine ⟨hold.1, fun hdead => ?_⟩
      rw [if_pos rfl] at hdead
      cases hdead

/-- A process with a live subscription has work once it is sent an event; only the live
    subscriptions could be rebuilding. -/
theorem DataProc.Live.deliver_catching {db : ConfigDb} {n : Nat} {p : DataProc}
    (hsound : p.Sound P cipher db n) (h : p.Live) : p.deliver.Catching n := by
  obtain ⟨k, c, ph⟩ := p
  cases ph with
  | starting first => exact False.elim h
  | serving held reg subs =>
    obtain ⟨x, hx, hlive⟩ := h
    constructor
    · intro y hy r hr
      obtain ⟨z, hz, rfl⟩ := List.mem_map.mp hy
      unfold ConfigSub.deliver at hr ⊢
      cases hzlive : z.live with
      | false =>
        rw [hzlive] at hr
        have hidle := (hsound.2 z hz).2 hzlive
        exact absurd (hidle.2.symm.trans hr) (by simp)
      | true => exact .inr (Nat.succ_pos _)
    · refine .inr ⟨x.deliver, List.mem_map_of_mem hx, fun hidle => ?_⟩
      unfold ConfigSub.deliver at hidle
      rw [if_pos hlive] at hidle
      exact Nat.succ_ne_zero _ hidle.1

/-- An event takes no work away. -/
theorem DataProc.Catching.deliver {n : Nat} {p : DataProc} (h : p.Catching n) :
    p.deliver.Catching n := by
  have hmore : ∀ {k : DataPlane} (y : ConfigSub k), y.queued ≤ y.deliver.queued ∧
      y.deliver.rebuild = y.rebuild := by
    intro k y
    unfold ConfigSub.deliver
    cases y.live with
    | false => exact ⟨Nat.le_refl _, rfl⟩
    | true => exact ⟨Nat.le_succ _, rfl⟩
  obtain ⟨k, c, ph⟩ := p
  cases ph with
  | starting first => exact h
  | serving held reg subs =>
    constructor
    · intro x hx r hr
      obtain ⟨y, hy, rfl⟩ := List.mem_map.mp hx
      rw [(hmore y).2] at hr
      exact (h.1 y hy r hr).imp_right fun hpos => Nat.lt_of_lt_of_le hpos (hmore y).1
    · rcases h.2 with hheld | ⟨x, hx, hbusy⟩
      · exact .inl hheld
      · refine .inr ⟨x.deliver, List.mem_map_of_mem hx, fun hidle => hbusy ⟨?_, ?_⟩⟩
        · exact Nat.le_zero.mp (hidle.1 ▸ (hmore x).1)
        · exact (hmore x).2.symm.trans hidle.2

/-- A process without a live subscription that began after the writes, and is sound, has seen
    them: none of its subscriptions is rebuilding. -/
theorem DataProc.catching_of_began {db : ConfigDb} {n : Nat} {p : DataProc}
    (hsound : p.Sound P cipher db n) (hdead : ¬ p.Live) (h : n ≤ p.began) : p.Catching n := by
  obtain ⟨k, c, ph⟩ := p
  cases ph with
  | starting first => exact h
  | serving held reg subs =>
    refine ⟨fun x hx r hr => ?_, .inl h⟩
    have hxdead : x.live = false := by
      cases hlive : x.live with
      | false => rfl
      | true => exact absurd ⟨x, hx, hlive⟩ hdead
    exact absurd (((hsound.2 x hx).2 hxdead).2.symm.trans hr) (by simp)

/-- What holds of a subscription list holds of it with one subscription replaced. -/
theorem forall_replaced {α : Type} {Q : α → Prop} {before after : List α} {x x' : α}
    (h : ∀ y ∈ before ++ x :: after, Q y) (hx : Q x') : ∀ y ∈ before ++ x' :: after, Q y := by
  intro y hy
  rcases List.mem_append.mp hy with hy | hy
  · exact h y (List.mem_append_left _ hy)
  · rcases List.mem_cons.mp hy with rfl | hy
    · exact hx
    · exact h y (List.mem_append_right _ (List.mem_cons_of_mem _ hy))

/-- A step of one goroutine, which may install a snapshot. -/
theorem Fleet.Inv.replaced (hi : s.Inv P cipher) {i : Nat} {k : DataPlane} {c reg : Bool}
    {held held' : Held k} {before after : List (ConfigSub k)} {x x' : ConfigSub k}
    (hp : s.procs i = some ⟨k, c, .serving held reg (before ++ x :: after)⟩)
    (hheld : held'.Sound P cipher s.db s.commits)
    (hx : ((∀ r, x.rebuild = some r → r.Sound P cipher s.db s.commits) ∧
        (x.live = false → x.Idle)) →
      ((∀ r, x'.rebuild = some r → r.Sound P cipher s.db s.commits) ∧
        (x'.live = false → x'.Idle)) ∧
      ((∀ r, x.rebuild = some r → s.commits ≤ r.began ∨ 0 < x.queued) →
        (∀ r, x'.rebuild = some r → s.commits ≤ r.began ∨ 0 < x'.queued) ∧
        (s.commits ≤ held'.began ∨ ¬ x'.Idle))) :
    (s.enter i k c (.serving held' reg (before ++ x' :: after))).Inv P cipher := by
  have hmem : ∀ y : ConfigSub k, y ∈ before ++ y :: after :=
    fun y => List.mem_append_right _ List.mem_cons_self
  obtain ⟨-, hsubs⟩ := hi.sound i _ hp
  obtain ⟨hsound, hcatching⟩ := hx (hsubs x (hmem x))
  refine hi.enter ⟨hheld, forall_replaced hsubs hsound⟩ fun hall => ?_
  obtain ⟨hold, -⟩ := hall i _ hp
  obtain ⟨hnew, hseen⟩ := hcatching (hold x (hmem x))
  exact ⟨forall_replaced hold hnew, hseen.imp_right fun hbusy => ⟨x', hmem x', hbusy⟩⟩

/-- What is left of idle subscriptions is idle. -/
theorem ConfigSub.orphans_idle {k : DataPlane} {subs subs' : List (ConfigSub k)}
    (h : List.Forall₂ ConfigSub.Orphan subs subs') (hidle : ∀ x ∈ subs, x.Idle) :
    ∀ x' ∈ subs', x'.Idle := by
  induction h with
  | nil => exact List.forall_mem_nil _
  | cons hx _ ih =>
    obtain ⟨hfirst, hrest⟩ := List.forall_mem_cons.mp hidle
    refine List.forall_mem_cons.mpr ⟨⟨?_, hx.2.2.trans hfirst.2⟩, ih hrest⟩
    exact Nat.le_zero.mp (hx.2.1.trans_eq hfirst.1)

/-- A process that is connected again. -/
theorem Fleet.Inv.resumed (hi : s.Inv P cipher) {i : Nat} {k : DataPlane} {c c' reg : Bool}
    {held : Held k} {subs : List (ConfigSub k)}
    (hp : s.procs i = some ⟨k, c, .serving held reg subs⟩) :
    (s.enter i k c' (.serving held reg subs)).Inv P cipher := by
  have hsound := hi.sound i _ hp
  refine hi.enter hsound fun hall => ?_
  have hcatching := hall i _ hp
  exact hcatching

/-- A new subscription changes nothing. -/
theorem Fleet.Inv.subscribed (hi : s.Inv P cipher) {i : Nat} {k : DataPlane} {c reg : Bool}
    {held : Held k} {subs : List (ConfigSub k)}
    (hp : s.procs i = some ⟨k, c, .serving held reg subs⟩) (reg' : Bool) :
    (s.enter i k true (.serving held reg' ({} :: subs))).Inv P cipher := by
  obtain ⟨hheld, hsubs⟩ := hi.sound i _ hp
  refine hi.enter ⟨hheld, List.forall_mem_cons.mpr ⟨⟨fun r hr => ?_, fun hdead => ?_⟩, hsubs⟩⟩
    fun hall => ⟨List.forall_mem_cons.mpr ⟨fun r hr => ?_, (hall i _ hp).1⟩, ?_⟩
  · cases hr
  · cases hdead
  · cases hr
  · rcases (hall i _ hp).2 with hle | ⟨x, hx, hbusy⟩
    · exact .inl hle
    · exact .inr ⟨x, List.mem_cons_of_mem _ hx, hbusy⟩

/-- **The step.**  An orderly step keeps the invariant. -/
theorem FleetStep.keeps {l : FleetMove} {s' : Fleet} (h : FleetStep P cipher s l s')
    (hok : Orderly s l) (hi : s.Inv P cipher) : s'.Inv P cipher := by
  cases h with
  | commit request hrequest hfile hclock =>
    rename_i w db
    refine ⟨fun i p hp => (hi.sound i p hp).commit, .inl ⟨w, .inl ?_⟩⟩
    show 0 < (Function.update s.writers w _ w).owing
    rw [Function.update_self]
    cases request with
    | false => exact hrequest rfl
    | true => exact Nat.succ_pos _
  | publish howing hchan =>
    rename_i w n
    refine ⟨hi.sound, .inl ⟨w, .inr ⟨s.commits, ?_, Nat.le_refl _⟩⟩⟩
    show s.commits ∈ (Function.update s.writers w _ w).flight
    rw [Function.update_self]
    exact List.mem_cons_self
  | drop => exact False.elim hok
  | route he =>
    rename_i w e
    refine ⟨fun i p' hp' => ?_, ?_⟩
    · obtain ⟨p, hp, rfl⟩ := Option.map_eq_some_iff.mp hp'
      exact (hi.sound i p hp).deliver
    by_cases howed : Fleet.Owed (s.setWriter w { s.writers w with
        flight := (s.writers w).flight.erase e })
    · exact .inl howed
    · -- only this event was owed, if any, and it reaches or does not concern every process
      have hold : s.commits ≤ e ∨ ∀ i p, s.procs i = some p → p.Catching s.commits := by
        refine hi.catching.imp_left fun h => ?_
        by_contra hlt
        refine howed (h.setWriter fun hx => ?_)
        rcases hx with hx | ⟨e', he', hle⟩
        · exact .inl hx
        · have hne : e' ≠ e := by
            rintro rfl
            exact hlt hle
          exact .inr ⟨e', (List.mem_erase_of_ne hne).mpr he', hle⟩
      refine .inr fun i p' hp' => ?_
      obtain ⟨p, hp, rfl⟩ := Option.map_eq_some_iff.mp hp'
      by_cases hlive : p.Live
      · exact hlive.deliver_catching (hi.sound i p hp)
      · rcases hold with hle | hall
        · have hbegan : e ≤ p.began := (hok i p hp).resolve_left hlive
          exact (DataProc.catching_of_began (hi.sound i p hp) hlive
            (Nat.le_trans hle hbegan)).deliver
        · exact (hall i p hp).deliver
  | down =>
    rename_i w
    refine hi.setWriter fun howed => howed.setWriter fun hx => ?_
    rcases hx with hx | ⟨e, he, -⟩
    · exact .inl hx
    · have hnone : (s.writers w).flight = [] := hok
      rw [hnone] at he
      cases he
  | up => exact hi.setWriter fun howed => howed.setWriter id
  | tick hlapse => exact ⟨fun i p hp => (hi.sound i p hp).tick hlapse, hi.catching⟩
  | start k hnew => exact hi.enter Rebuild.sound_load fun _ => Nat.le_refl _
  | readFirst hp => exact hi.enter_starting hp rfl rfl
  | readFirstFails => exact False.elim hok
  | store hp =>
    exact hi.enter ⟨hi.sound _ _ hp, List.forall_mem_nil _⟩ fun hall =>
      ⟨List.forall_mem_nil _, .inl (hall _ _ hp)⟩
  | subscribe twice hp =>
    have hone := hi.subscribed hp true
    cases twice with
    | false => exact hone
    | true => exact (hone.subscribed (Fleet.enter_self ..) true).of_enter_enter
  | take hp hqueued hidle =>
    refine hi.replaced hp (hi.sound _ _ hp).1 fun hx => ⟨⟨fun r hr => ?_, fun hdead => ?_⟩, ?_⟩
    · cases hr
      exact Rebuild.sound_load
    · exact absurd ((hx.2 hdead).1.symm.trans hqueued) (by omega)
    · refine fun _ => ⟨fun r hr => ?_, .inr fun h => ?_⟩
      · cases hr
        exact .inl (Nat.le_refl _)
      · cases h.2
  | read hp hrebuild =>
    -- a healthy read leaves the result of the build as it is
    refine hi.replaced hp (hi.sound _ _ hp).1 fun hx => ⟨⟨fun r hr => ?_, fun hdead => ?_⟩, ?_⟩
    · cases hr
      have hsound := hx.1 _ hrebuild
      exact hsound
    · exact absurd ((hx.2 hdead).2.symm.trans hrebuild) (by simp)
    · refine fun hcatching => ⟨fun r hr => ?_, .inr fun h => ?_⟩
      · cases hr
        have hbegan := hcatching _ hrebuild
        exact hbegan
      · cases h.2
  | readFails => exact False.elim hok
  | install hp hrebuild =>
    have hx := (hi.sound _ _ hp).2 _ (List.mem_append_right _ List.mem_cons_self)
    refine hi.replaced hp (hx.1 _ hrebuild) fun _ => ⟨⟨fun r hr => ?_, fun hdead => ?_⟩, ?_⟩
    · cases hr
    · exact ⟨(hx.2 hdead).1, rfl⟩
    · refine fun hcatching => ⟨fun r hr => ?_, ?_⟩
      · cases hr
      · -- a snapshot that is behind is installed with an event still queued
        rcases hcatching _ hrebuild with hle | hpos
        · exact .inl hle
        · exact .inr fun h => Nat.ne_of_gt hpos h.1
  | loseFirst hp => exact hi.enter_starting hp rfl rfl
  | lose hp hsubs =>
    have hquiet := hok _ hp
    have horphan := ConfigSub.orphans_idle hsubs hquiet
    refine hi.enter ⟨(hi.sound _ _ hp).1, fun x' hx' => ⟨fun r hr => ?_, fun _ => horphan x' hx'⟩⟩
      fun hall => ⟨fun x' hx' r hr => ?_, .inl ?_⟩
    · exact absurd ((horphan x' hx').2.symm.trans hr) (by simp)
    · exact absurd ((horphan x' hx').2.symm.trans hr) (by simp)
    · rcases (hall _ _ hp).2 with hle | ⟨x, hx, hbusy⟩
      · exact hle
      · exact absurd (hquiet x hx) hbusy
  | reconnectFirst hp => exact hi.enter_starting hp rfl rfl
  | reconnect again hp =>
    split
    · exact hi.subscribed hp _
    · exact hi.resumed hp
  | exit =>
    exact ⟨fun j p hp => hi.sound j p (Fleet.of_exit hp),
      hi.catching.imp_right fun hall j p hp => hall j p (Fleet.of_exit hp)⟩

/-! ## Runs -/

/-- Every orderly run keeps the invariant. -/
theorem Fleet.inv_of_reach (h : Reach (fleet P cipher) Orderly s) : s.Inv P cipher := by
  refine h.invariant (fun s hinit => ?_) (fun s l s' _ hi hok hst => FleetStep.keeps hst hok hi)
  obtain ⟨-, -, hnone⟩ := hinit
  have hfalse : ∀ {i p}, s.procs i ≠ some p := fun {i p} hp => by
    rw [hnone i] at hp
    cases hp
  exact ⟨fun i p hp => absurd hp hfalse, .inr fun i p hp => absurd hp hfalse⟩

/-- In a quiescent state nothing is owed. -/
theorem Fleet.Quiescent.not_owed (h : s.Quiescent) : ¬ s.Owed := by
  rintro ⟨w, hpos | ⟨e, he, -⟩⟩
  · exact Nat.ne_of_gt hpos (h.writers w).2.1
  · rw [(h.writers w).2.2] at he
    cases he

/-- A build that is not disturbed ends, the first one or that of a handler. -/
theorem Fleet.build_ends {ok : Fleet → FleetMove → Prop} {i : Nat} {k : DataPlane} {c : Bool}
    (ph : Load k.Snapshot → ProcPhase k) (hok : ∀ s, ok s (.read i))
    (hread : ∀ (s : Fleet) (o : ConfigOp) (rest : o.Ret → Load k.Snapshot),
      s.procs i = some ⟨k, c, ph (.call o rest)⟩ →
        FleetStep P cipher s (.read i) (s.enter i k c (ph (rest (s.db.answer o)))))
    (m : Load k.Snapshot) : ∀ {s : Fleet}, s.procs i = some ⟨k, c, ph m⟩ →
      Steps (fleet P cipher) ok s (s.enter i k c (ph (.pure (m.eval s.db.answer)))) := by
  induction m with
  | pure v =>
    intro s hp
    have hself : s.enter i k c (ph (.pure v)) = s := by
      unfold Fleet.enter Fleet.setProc
      rw [← hp, Function.update_eq_self]
    show Steps _ _ s (s.enter i k c (ph (.pure v)))
    rw [hself]
    exact .refl s
  | call o rest ih =>
    intro s hp
    refine .head (hok s) (hread s o rest hp) ?_
    have hrest := ih (s.db.answer o) (Fleet.enter_self s i k c (ph (rest (s.db.answer o))))
    rwa [Fleet.enter_enter] at hrest

/-- An empty database, and nothing is running. -/
def Fleet.blank : Fleet := ⟨{}, 0, fun _ => {}, fun _ => none⟩

/-- One ingress process that has started, with writers that have just connected. -/
def Fleet.oneIngress : Fleet :=
  (((Fleet.blank.enter 0 .ingress true
    (.serving ⟨0, (buildInbound .plain).eval ({} : ConfigDb).answer⟩ true [{}])).setWriter
      .dsn { chan := true }).setWriter .adminAPI { chan := true })

theorem Fleet.oneIngress_reach : Reach (fleet .plain false) Orderly Fleet.oneIngress := by
  let m := buildInbound .plain
  let v := m.eval ({} : ConfigDb).answer
  let inPhase : ProcPhase .ingress → Fleet := Fleet.blank.enter 0 .ingress true
  have hself : ∀ ph, (inPhase ph).procs 0 = some ⟨.ingress, true, ph⟩ :=
    fun ph => Fleet.enter_self ..
  have hidem : ∀ ph ph', (inPhase ph).enter 0 .ingress true ph' = inPhase ph' :=
    fun ph ph' => Fleet.enter_enter ..
  have hstart : Reach (fleet .plain false) Orderly (inPhase (.starting ⟨0, m⟩)) :=
    .step (l := .start 0) (.init ⟨rfl, fun _ => ⟨rfl, rfl⟩, fun _ => rfl⟩) trivial
      (.start .ingress rfl)
  have hbuilt : Reach (fleet .plain false) Orderly (inPhase (.starting ⟨0, .pure v⟩)) := by
    rw [← hidem (.starting ⟨0, m⟩)]
    exact hstart.trans (Fleet.build_ends (k := .ingress) (fun r => .starting ⟨0, r⟩)
      (fun _ => trivial) (fun _ _ _ hp => .readFirst hp) m (hself _))
  have hstored : Reach (fleet .plain false) Orderly (inPhase (.serving ⟨0, v⟩ false [])) := by
    rw [← hidem (.starting ⟨0, .pure v⟩)]
    exact .step (l := .store 0) hbuilt trivial (.store (hself _))
  have hsubscribed : Reach (fleet .plain false) Orderly (inPhase (.serving ⟨0, v⟩ true [{}])) := by
    rw [← hidem (.serving ⟨0, v⟩ false [])]
    exact .step (l := .subscribe 0) hstored trivial (.subscribe false (hself _))
  exact .step (l := .up .adminAPI) (.step (l := .up .dsn) hsubscribed trivial .up) trivial .up

/-- A fleet with one ingress process, idle, and both writers idle. -/
theorem Fleet.quiescent_of_one {held : Held .ingress} (hw : ∀ w, (s.writers w).chan = true ∧
    (s.writers w).owing = 0 ∧ (s.writers w).flight = [])
    (hself : s.procs 0 = some ⟨.ingress, true, .serving held true [{}]⟩)
    (hnone : ∀ i, i ≠ 0 → s.procs i = none) : s.Quiescent := by
  refine ⟨hw, fun i p hp => ?_⟩
  by_cases hi : i = 0
  · subst hi
    rw [hself] at hp
    cases hp
    refine ⟨rfl, rfl, ⟨_, List.mem_singleton_self _, rfl⟩, fun x hx => ?_⟩
    rw [List.mem_singleton.mp hx]
    exact ⟨rfl, rfl⟩
  · rw [hnone i hi] at hp
    cases hp

/-- One relay domain. -/
def oneDomain : ConfigDb := { relayDomains := [⟨"s.test", true⟩] }

/-- The Admin API adds a relay domain and publishes the event; the event is routed to the process,
    which takes it, reads the database again and installs the result. -/
theorem Fleet.domain_added : ∃ (s : Fleet) (held : Held .ingress),
    Reach (fleet .plain false) Orderly s ∧ s.commits = 1 ∧ s.db = oneDomain ∧ s.Quiescent ∧
      s.procs 0 = some ⟨.ingress, true, .serving held true [{}]⟩ := by
  let m := buildInbound .plain
  let before : Held .ingress := ⟨0, m.eval ({} : ConfigDb).answer⟩
  let after : Held .ingress := ⟨1, m.eval oneDomain.answer⟩
  let written : Fleet := { Fleet.oneIngress.setWriter .adminAPI { chan := true, owing := 1 } with
    db := oneDomain, commits := 1 }
  let published := written.setWriter .adminAPI { chan := true, flight := [1] }
  let routed : Fleet := { published.setWriter .adminAPI { chan := true } with
    procs := fun i => (published.procs i).map DataProc.deliver }
  let inPhase : ProcPhase .ingress → Fleet := routed.enter 0 .ingress true
  have hself : ∀ ph, (inPhase ph).procs 0 = some ⟨.ingress, true, ph⟩ :=
    fun ph => Fleet.enter_self ..
  have hidem : ∀ ph ph', (inPhase ph).enter 0 .ingress true ph' = inPhase ph' :=
    fun ph ph' => Fleet.enter_enter ..
  have hothers : ∀ i, i ≠ 0 → Fleet.oneIngress.procs i = none :=
    fun i hi => Fleet.enter_ne Fleet.blank hi ..
  have hwritten : Reach (fleet .plain false) Orderly written :=
    .step (l := .commit .adminAPI) Fleet.oneIngress_reach trivial
      (.commit true (fun h => Bool.noConfusion h) rfl rfl)
  have hpublished : Reach (fleet .plain false) Orderly published :=
    .step (l := .publish .adminAPI) hwritten trivial (.publish rfl rfl)
  have hlive : ∀ i p, published.procs i = some p → p.Live ∨ 1 ≤ p.began := by
    intro i p hp
    by_cases hi : i = 0
    · subst hi
      cases hp
      exact .inl ⟨_, List.mem_singleton_self _, rfl⟩
    · cases (hothers i hi).symm.trans hp
  have hrouted : Reach (fleet .plain false) Orderly routed :=
    .step (l := .route .adminAPI 1) hpublished hlive (.route List.mem_cons_self)
  have htaken : Reach (fleet .plain false) Orderly
      (inPhase (.serving before true [⟨true, 0, some ⟨1, m⟩⟩])) := by
    have hqueued : routed.procs 0 = some ⟨.ingress, true,
      .serving before true ([] ++ ⟨true, 1, none⟩ :: [])⟩ := rfl
    exact .step (l := .take 0) hrouted trivial (.take hqueued rfl rfl)
  have hread : Reach (fleet .plain false) Orderly
      (inPhase (.serving before true [⟨true, 0, some ⟨1, .pure after.value⟩⟩])) := by
    rw [← hidem (.serving before true [⟨true, 0, some ⟨1, m⟩⟩])]
    refine htaken.trans (Fleet.build_ends (k := .ingress)
      (fun r => .serving before true [⟨true, 0, some ⟨1, r⟩⟩]) (fun _ => trivial)
      (fun s o rest hp => ?_) m (hself _))
    have hone : s.procs 0 = some ⟨.ingress, true,
      .serving before true ([] ++ ⟨true, 0, some ⟨1, .call o rest⟩⟩ :: [])⟩ := hp
    exact .read hone rfl
  have hinstalled : Reach (fleet .plain false) Orderly (inPhase (.serving after true [{}])) := by
    have hbuilt : (inPhase (.serving before true
        [⟨true, 0, some ⟨1, .pure after.value⟩⟩])).procs 0 = some ⟨.ingress, true,
      .serving before true ([] ++ ⟨true, 0, some ⟨1, .pure after.value⟩⟩ :: [])⟩ := hself _
    rw [← hidem (.serving before true [⟨true, 0, some ⟨1, .pure after.value⟩⟩])]
    exact .step (l := .install 0) hread trivial (.install hbuilt rfl)
  refine ⟨_, after, hinstalled, rfl, rfl, ?_, hself _⟩
  refine Fleet.quiescent_of_one (fun w => by cases w <;> exact ⟨rfl, rfl, rfl⟩) (hself _) ?_
  intro i hi
  show (routed.enter 0 .ingress true _).procs i = none
  rw [Fleet.enter_ne routed hi]
  show (Fleet.oneIngress.procs i).map DataProc.deliver = none
  rw [hothers i hi]
  rfl

/-! ## Convergence -/

/-- **Configuration convergence.**  In every orderly run, every quiescent state has every process
    serve from the snapshot of the current database. -/
theorem config_converges (h : Reach (fleet P cipher) Orderly s) : s.Converged P cipher := by
  intro hquiet i p hp
  have hi := Fleet.inv_of_reach h
  have hcatching := hi.catching.resolve_left hquiet.not_owed i p hp
  have hsound := hi.sound i p hp
  obtain ⟨-, hsettled⟩ := hquiet.procs i p hp
  obtain ⟨k, c, ph⟩ := p
  cases ph with
  | starting first => exact hsettled
  | serving held reg subs =>
    obtain ⟨-, -, hidle⟩ := hsettled
    rcases hcatching.2 with hle | ⟨x, hx, hbusy⟩
    · exact hsound.1.2 hle
    · exact absurd (hidle x hx) hbusy

/-- The process serves the relay domain that was added. -/
theorem config_converges_one : ∃ (s : Fleet) (held : Held .ingress),
    Reach (fleet .plain false) Orderly s ∧ s.commits = 1 ∧ s.Quiescent ∧
      s.procs 0 = some ⟨.ingress, true, .serving held true [{}]⟩ ∧
      held.value.relayDomains = ["s.test"] := by
  obtain ⟨s, held, hreach, hcommits, hdb, hquiet, hproc⟩ := Fleet.domain_added
  have hup : held.value = (buildInbound .plain).eval s.db.answer :=
    config_converges hreach hquiet 0 _ hproc
  rw [hdb] at hup
  exact ⟨s, held, hreach, hcommits, hquiet, hproc, congrArg InboundPolicy.relayDomains hup⟩

/-- A relay domain is added while the Admin API has no channel, and is missed for good. -/
theorem write_without_channel_missed :
    ¬ ∀ (P : Platform) (cipher : Bool) (s : Fleet), Reach (fleet P cipher) anyStep s →
      s.Converged P cipher := by
  intro hclaim
  let db : ConfigDb := { relayDomains := [⟨"s.test", true⟩] }
  let down := Fleet.oneIngress.setWriter .adminAPI {}
  let written : Fleet := { down.setWriter .adminAPI { owing := 1 } with db := db, commits := 1 }
  let dropped := written.setWriter .adminAPI {}
  let last := dropped.setWriter .adminAPI { chan := true }
  have hdown : Reach (fleet .plain false) anyStep down :=
    .step (Fleet.oneIngress_reach.mono fun _ _ _ => trivial) trivial .down
  have hwritten : Reach (fleet .plain false) anyStep written :=
    .step hdown trivial (.commit true (fun h => Bool.noConfusion h) rfl rfl)
  have hdropped : Reach (fleet .plain false) anyStep dropped := .step hwritten trivial (.drop rfl)
  have hlast : Reach (fleet .plain false) anyStep last := .step hdropped trivial .up
  have hquiet : last.Quiescent := by
    refine Fleet.quiescent_of_one (fun w => ?_) rfl fun i hi => Fleet.enter_ne Fleet.blank hi ..
    cases w with
    | adminAPI => exact ⟨rfl, rfl, rfl⟩
    | dsn => exact ⟨rfl, rfl, rfl⟩
  have hup := hclaim .plain false last hlast hquiet 0 _ rfl
  have hdomains : ([] : List String) = ["s.test"] := congrArg InboundPolicy.relayDomains hup
  exact absurd hdomains (by decide)

end

end Novamail

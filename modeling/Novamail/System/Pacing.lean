/-
  The rate limits of one process over its whole life.

  A process keeps the buckets of its limiters inside its snapshot.  An attempt (a MAIL command, the
  handling of a job) is a program that runs call by call, and other attempts come between its calls:
  it loads the snapshot there is, reserves tokens in the buckets of that snapshot, waits for them or
  gives them back, and lets its message pass.  A reload puts a new snapshot with new buckets in the
  place of the old one, while attempts that loaded the old one go on with the old buckets.

  The bound on a window is the library's (`Booked.window`), and where a program asks for tokens is
  what its discipline says (`metering`).  What is proved here is which runs bring the two together.
-/
import Mathlib.Algebra.Order.Group.Multiset
import Mathlib.Algebra.Order.Ring.Rat
import Mathlib.Data.List.ReduceOption
import Mathlib.Data.Rat.Floor
import Mathlib.Tactic.Abel
import Mathlib.Tactic.NormNum
import Novamail.Core.System
import Novamail.Core.TokenBucket
import Novamail.Config.Limits

namespace Novamail

open Novamail.Core

/-! ## Attempts -/

/-- What a process has to do: answer a MAIL, or handle a delivery. -/
inductive Attempt where
  | mail (P : Platform) (s : Ingress.Session) (sender : String)
  | deliver (w : Wire)

namespace Attempt

/-- Its program, which ends by saying whether a submission was let in. -/
def program : Attempt → Handler Bool
  | mail P s sender => do
    let e ← Ingress.mailCalls P s sender
    pure e.isNone
  | deliver w => do
    Delivery.handle w
    pure false

/-- The recipient domain. -/
def domain : Attempt → String
  | mail .. => ""
  | deliver w => Delivery.domainOfWire w

/-- The keys that a MAIL counts under when it is let in. -/
def mailKey : Attempt → Gate → Option String
  | mail P s _, .inbound => some (s.rateKey P)
  | _, _ => none

/-- The keys that a `Send` counts under. -/
def sendKey (a : Attempt) (p : Provider) : Gate → Option String
  | .inbound => none
  | .domain => some a.domain
  | .provider => some p.name

/-- A MAIL that is let in has its token. -/
def Fin : Attempt → Meter → Bool → Prop
  | mail P s _, m, accepted => accepted = true → m.Admitted (s.rateKey P)
  | deliver _, _, accepted => accepted = false

theorem program_metered (a : Attempt) : a.program.Obeys (metering a.domain) a.Fin {} := by
  cases a with
  | mail P s sender =>
    refine (Ingress.mail_metered P s sender "").bind fun m e he => ?_
    exact fun haccepted => he (Option.isNone_iff_eq_none.mp haccepted)
  | deliver w => exact (Delivery.handle_metered w).bind fun _ _ _ => rfl

end Attempt

/-! ## The limiters of a process -/

/-- A reservation that was not given back, and where it was made. -/
structure Booking where
  gen : Nat
  gate : Gate
  name : String
  res : Reservation Rat

/-- The clock of a process, the number of its current snapshot, the rows that each snapshot was
    built from, the buckets of each, and the bookings, the latest first. -/
structure Limiters where
  now : Rat
  gen : Nat
  rows : Nat → List RateLimit
  buckets : Nat → Gate → String → Option (TokenBucket Rat)
  book : List Booking

/-- The buckets of the limiters that are built from these rows. -/
def newBuckets (rows : List RateLimit) (g : Gate) (name : String) : Option (TokenBucket Rat) :=
  ((Limiter.build (g.specs rows)).named name).map fun c => .new c.perSecond c.burst

namespace Limiters

/-- Time passes. -/
def tick (s : Limiters) (now : Rat) : Limiters := { s with now := now }

/-- `config.changed`: a new snapshot, with new limiters. -/
def reload (s : Limiters) (rows : List RateLimit) : Limiters :=
  { s with
    gen := s.gen + 1
    rows := Function.update s.rows (s.gen + 1) rows
    buckets := Function.update s.buckets (s.gen + 1) (newBuckets rows) }

/-- The buckets with one of them changed. -/
def put (s : Limiters) (gen : Nat) (g : Gate) (name : String) (b : TokenBucket Rat) :
    Nat → Gate → String → Option (TokenBucket Rat) :=
  fun gen' g' name' =>
    if gen' = gen ∧ g' = g ∧ name' = name then some b else s.buckets gen' g' name'

/-- The reservation that `b` gives now. -/
def booking (s : Limiters) (gen : Nat) (g : Gate) (name : String) (b : TokenBucket Rat) : Booking :=
  ⟨gen, g, name, (b.reserve s.now).1⟩

/-- A token of the bucket `b` is reserved. -/
def reserve (s : Limiters) (gen : Nat) (g : Gate) (name : String) (b : TokenBucket Rat) : Limiters :=
  { s with
    buckets := s.put gen g name (b.reserve s.now).2
    book := s.booking gen g name b :: s.book }

/-- A reservation of the bucket `b` is cancelled; the others stay in the book. -/
def cancel (s : Limiters) (e : Booking) (b : TokenBucket Rat) (book : List Booking) : Limiters :=
  { s with
    buckets := s.put e.gen e.gate e.name (b.cancel e.res s.now)
    book := book }

end Limiters

/-! ## The process -/

/-- A `Duration`, rounded up: what is compared with it are whole numbers. -/
def nanoseconds (d : Rat) : Nat := ⌈d * 1000000000⌉₊

/-- The calls that have to do with the limiters. -/
def Op.paced : Op → Bool
  | .ask .loadPolicy | .ask .loadState | .ask (.reserve _ _ _) | .ask .cancel | .ask (.sleep _)
  | .ask (.send _ _) => true
  | _ => false

/-- An attempt under way. -/
structure Flight where
  attempt : Attempt
  /-- What is left of its program. -/
  prog : Handler Bool
  meter : Meter
  /-- The snapshot it loaded last. -/
  gen : Nat
  /-- The reservations it has asked for and not used; none where there is no bucket. -/
  held : List (Option Booking)

/-- An attempt begins. -/
def Flight.start (a : Attempt) : Flight := ⟨a, a.program, {}, 0, []⟩

/-- Its reservations. -/
def Flight.bookings (f : Flight) : List Booking := f.held.reduceOption

/-- A submission that was let in, or a message that was handed to a provider. -/
structure Pass where
  time : Rat
  /-- The keys it counts under. -/
  key : Gate → Option String
  /-- The reservations it was made on. -/
  bookings : List Booking

/-- The hand-off, if the call is one. -/
def Flight.handed (f : Flight) (now : Rat) : Op → List Pass
  | .ask (.send p _) => [⟨now, f.attempt.sendKey p, f.bookings⟩]
  | _ => []

/-- The submission, if it was let in. -/
def Flight.letIn (f : Flight) (now : Rat) (accepted : Bool) : List Pass :=
  if accepted then [⟨now, f.attempt.mailKey, f.bookings⟩] else []

/-- A process: its limiters, the attempts under way, and what it has let pass. -/
structure Pacer where
  lim : Limiters
  flights : List Flight
  passes : List Pass

/-- What a call of an attempt does: the answer, the limiters, the snapshot of the attempt and the
    reservations it then has. -/
inductive Effect (s : Limiters) (f : Flight) :
    (o : Op) → o.Ret → Limiters → Nat → List (Option Booking) → Prop where
  | policy {p : InboundPolicy} (h : p.Built (s.rows s.gen)) :
      Effect s f (.ask .loadPolicy) (some p) s s.gen f.held
  | state {st : RouteState} (h : st.Built (s.rows s.gen)) :
      Effect s f (.ask .loadState) st s s.gen f.held
  /-- There is no bucket. -/
  | unlimited {g : Gate} {l : Limiter} {key : String} (h : l.bucket key = none) :
      Effect s f (.ask (.reserve g l key)) none s f.gen (f.held ++ [none])
  | reserve {g : Gate} {l : Limiter} {key name : String} {c : Bucket} {b : TokenBucket Rat}
      (h : l.bucket key = some (name, c)) (hb : s.buckets f.gen g name = some b) :
      Effect s f (.ask (.reserve g l key))
        (some (nanoseconds ((b.reserve s.now).1.timeToAct - s.now)))
        (s.reserve f.gen g name b) f.gen (f.held ++ [some (s.booking f.gen g name b)])
  /-- The timer does not fire early. -/
  | slept {ns : Nat} {hs : List (Option Booking)} {e : Booking} (hheld : f.held = hs ++ [some e])
      (hnow : e.res.timeToAct ≤ s.now) : Effect s f (.ask (.sleep ns)) true s f.gen f.held
  /-- The deadline comes first. -/
  | woken {ns : Nat} : Effect s f (.ask (.sleep ns)) false s f.gen f.held
  | cancel {hs : List (Option Booking)} {e : Booking} {b : TokenBucket Rat}
      {before after : List Booking} (hheld : f.held = hs ++ [some e])
      (hbook : s.book = before ++ e :: after) (hb : s.buckets e.gen e.gate e.name = some b) :
      Effect s f (.ask .cancel) () (s.cancel e b (before ++ after)) f.gen hs
  | send {p : Provider} {m : Message} {res : SendReply} :
      Effect s f (.ask (.send p m)) res s f.gen []
  | other {o : Op} {r : o.Ret} (h : o.paced = false) : Effect s f o r s f.gen f.held

/-- The attempt after a call. -/
def Flight.next (f : Flight) {o : Op} (k : o.Ret → Handler Bool) (r : o.Ret) (gen : Nat)
    (held : List (Option Booking)) : Flight := ⟨f.attempt, k r, f.meter.note o r, gen, held⟩

/-- What happens. -/
inductive PacerMove where
  | tick
  | reload (rows : List RateLimit)
  | begin
  | call (f : Flight) (o : Op)
  | finish

/-- What a read of the table may return: the rows in some order, and not all of them if it fails. -/
def LimitTable.Reads (t : LimitTable) (rows : List RateLimit) : Prop :=
  ∃ whole : List RateLimit, whole.Perm t.enabled ∧ rows <+: whole

section
variable (t : LimitTable)

/-- The steps of the process. -/
inductive PacerStep : Pacer → PacerMove → Pacer → Prop where
  | tick {s : Pacer} {now : Rat} (h : s.lim.now ≤ now) :
      PacerStep s .tick { s with lim := s.lim.tick now }
  | reload {s : Pacer} {rows : List RateLimit} (h : t.Reads rows) :
      PacerStep s (.reload rows) { s with lim := s.lim.reload rows }
  | begin {s : Pacer} (a : Attempt) :
      PacerStep s .begin { s with flights := .start a :: s.flights }
  | call {s : Pacer} {before after : List Flight} {f : Flight} {o : Op} {k : o.Ret → Handler Bool}
      {r : o.Ret} {lim : Limiters} {gen : Nat} {held : List (Option Booking)}
      (hflights : s.flights = before ++ f :: after) (hprog : f.prog = .call o k)
      (heffect : Effect s.lim f o r lim gen held) :
      PacerStep s (.call f o)
        { lim := lim
          flights := before ++ f.next k r gen held :: after
          passes := f.handed s.lim.now o ++ s.passes }
  | finish {s : Pacer} {before after : List Flight} {f : Flight} {accepted : Bool}
      (hflights : s.flights = before ++ f :: after) (hprog : f.prog = .pure accepted) :
      PacerStep s .finish
        { s with
          flights := before ++ after
          passes := f.letIn s.lim.now accepted ++ s.passes }

/-- The process, from the snapshot it starts with. -/
def pacer : LTS Pacer PacerMove where
  init s := t.Reads (s.lim.rows s.lim.gen) ∧
    s.lim.buckets s.lim.gen = newBuckets (s.lim.rows s.lim.gen) ∧ s.lim.book = [] ∧
    s.flights = [] ∧ s.passes = []
  step := PacerStep t

end

/-! ## The property and the condition -/

/-- When a limiter admitted it: at the time to act of its token, or on the spot if it has none. -/
def Pass.admitted (p : Pass) (g : Gate) : Rat :=
  ((p.bookings.find? (·.gate = g)).map (·.res.timeToAct)).getD p.time

/-- The bucket that it counts under. -/
def Pass.bucket (t : LimitTable) (g : Gate) (p : Pass) : Option String :=
  ((p.key g).bind (t.limiter g).bucket).map (·.1)

/-- **The property.**  Nothing passes before it is admitted, and for every key with a bucket, at most
    `burst + per_second * T` of what passed under it was admitted within any window of length `T`. -/
structure Pacer.Within (t : LimitTable) (s : Pacer) : Prop where
  due : ∀ p ∈ s.passes, ∀ g, p.admitted g ≤ p.time
  window : ∀ g key name c, (t.limiter g).bucket key = some (name, c) → ∀ start T : Rat, 0 ≤ T →
    ((s.passes.filter fun p => p.bucket t g = some name ∧ start ≤ p.admitted g ∧
      p.admitted g ≤ start + T).length : Rat) ≤ c.burst + c.perSecond * T

/-- **The condition on a step.**  The current snapshot was built from all rows, in their order, and
    so is the next; the buckets are full when they are replaced; a token is reserved in the buckets
    of the current snapshot; and under a domain that is limited a delivery calls `Send` once. -/
structure Pacer.Fair (t : LimitTable) (s : Pacer) (m : PacerMove) : Prop where
  whole : s.lim.rows s.lim.gen = t.enabled
  reload : ∀ rows, m = .reload rows → rows = t.enabled ∧
    ∀ g name b, s.lim.buckets s.lim.gen g name = some b → b.level s.lim.now = b.burst
  reserve : ∀ f g l key, m = .call f (.ask (.reserve g l key)) → f.gen = s.lim.gen
  send : ∀ f p msg, m = .call f (.ask (.send p msg)) →
    f.meter.sends = 0 ∨ (t.limiter .domain).bucket f.attempt.domain = none

/-! ## The books of the limiters -/

/-- A reservation of a bucket that is still in use may be cancelled. -/
def Limiters.Pending (s : Limiters) (e : Booking) : Prop :=
  e.gen = s.gen → ∀ b, s.buckets s.gen e.gate e.name = some b → Core.Pending b s.now e.res

/-- The reservations of a bucket, of whatever snapshot. -/
def live (book : List Booking) (g : Gate) (name : String) : List (Reservation Rat) :=
  (book.filter fun e => e.gate = g ∧ e.name = name).map (·.res)

/-- The buckets of the current snapshot are those of the rows, each with what it was configured
    with; and every reservation of a bucket, of whatever snapshot, is one the current bucket can
    honour. -/
structure Limiters.Kept (t : LimitTable) (s : Limiters) : Prop where
  rows : s.rows s.gen = t.enabled
  config : ∀ g name, (s.buckets s.gen g name).map (fun b => (b.limit, b.burst)) =
    ((t.limiter g).named name).map fun c => (c.perSecond, (c.burst : Rat))
  booked : ∀ g name b, s.buckets s.gen g name = some b → Booked b s.now (live s.book g name)
  gens : ∀ e ∈ s.book, e.gen ≤ s.gen

/-- The reservations of a bucket, booking by booking. -/
theorem live_cons (e : Booking) (book : List Booking) (g : Gate) (name : String) :
    live (e :: book) g name =
      if e.gate = g ∧ e.name = name then e.res :: live book g name else live book g name := by
  unfold live
  by_cases h : e.gate = g ∧ e.name = name
  · rw [if_pos h, List.filter_cons_of_pos (by simpa using h), List.map_cons]
  · rw [if_neg h, List.filter_cons_of_neg (by simpa using h)]

theorem live_append (before after : List Booking) (g : Gate) (name : String) :
    live (before ++ after) g name = live before g name ++ live after g name := by
  unfold live
  rw [List.filter_append, List.map_append]

theorem mem_live {e : Booking} {book : List Booking} (he : e ∈ book) :
    e.res ∈ live book e.gate e.name :=
  List.mem_map_of_mem (List.mem_filter.mpr ⟨he, by simp⟩)

section
variable {t : LimitTable} {s : Limiters}

/-- Every bucket is configured as a row says. -/
theorem LimitTable.named_checks {g : Gate} {name : String} {c : Bucket}
    (h : (t.limiter g).named name = some c) : 0 < c.perSecond ∧ 1 ≤ c.burst := by
  obtain ⟨spec, hspec, -, rfl⟩ := Limiter.exists_spec_of_named h
  rw [Gate.specs_eq] at hspec
  obtain ⟨row, hrow, rfl⟩ := List.mem_map.mp hspec
  exact t.checks row (List.mem_of_mem_filter (List.mem_of_mem_filter hrow))

namespace Limiters

/-- Changing a bucket leaves the others. -/
theorem put_apply {gen gen' : Nat} {g g' : Gate} {name name' : String} {b b' : TokenBucket Rat}
    (h : s.put gen g name b gen' g' name' = some b') :
    (gen' = gen ∧ g' = g ∧ name' = name ∧ b' = b) ∨
      (¬ (gen' = gen ∧ g' = g ∧ name' = name) ∧ s.buckets gen' g' name' = some b') := by
  unfold put at h
  split at h
  · rename_i hsame
    exact .inl ⟨hsame.1, hsame.2.1, hsame.2.2, (Option.some.inj h).symm⟩
  · rename_i hother
    exact .inr ⟨hother, h⟩

/-- A bucket put in the place of one with the same rate and burst. -/
theorem put_config {g : Gate} {name : String} {gen : Nat} {b b' : TokenBucket Rat}
    (hb : s.buckets gen g name = some b) (hlimit : b'.limit = b.limit)
    (hburst : b'.burst = b.burst) (gen' : Nat) (g' : Gate) (name' : String) :
    (s.put gen g name b' gen' g' name').map (fun b => (b.limit, b.burst)) =
      (s.buckets gen' g' name').map fun b => (b.limit, b.burst) := by
  unfold put
  split
  · rename_i hsame
    obtain ⟨rfl, rfl, rfl⟩ := hsame
    rw [hb, Option.map_some, Option.map_some, hlimit, hburst]
  · rfl

namespace Kept

/-- What the rate and the burst of a bucket are. -/
theorem sized (hk : s.Kept t) {g : Gate} {name : String} {b : TokenBucket Rat}
    (hb : s.buckets s.gen g name = some b) : 0 < b.limit ∧ 1 ≤ b.burst := by
  have hconfig := hk.config g name
  rw [hb] at hconfig
  obtain ⟨c, hc, hpair⟩ := Option.map_eq_some_iff.mp hconfig.symm
  obtain ⟨hper, hburst⟩ := LimitTable.named_checks hc
  obtain ⟨hlimit, hcap⟩ := Prod.ext_iff.mp hpair
  have hlimit : c.perSecond = b.limit := hlimit
  have hcap : (c.burst : Rat) = b.burst := hcap
  rw [← hlimit, ← hcap]
  exact ⟨hper, by exact_mod_cast hburst⟩

/-- A row has its bucket. -/
theorem configured (hk : s.Kept t) {g : Gate} {name : String} {c : Bucket}
    (hc : (t.limiter g).named name = some c) : ∃ b, s.buckets s.gen g name = some b ∧
      b.limit = c.perSecond ∧ b.burst = (c.burst : Rat) := by
  have hconfig := hk.config g name
  rw [hc] at hconfig
  obtain ⟨b, hb, hpair⟩ := Option.map_eq_some_iff.mp hconfig
  obtain ⟨hlimit, hburst⟩ := Prod.ext_iff.mp hpair
  exact ⟨b, hb, hlimit, hburst⟩

theorem tick (hk : s.Kept t) {now : Rat} (hnow : s.now ≤ now) : (s.tick now).Kept t :=
  ⟨hk.rows, hk.config, fun g name b hb => (hk.booked g name b hb).tick (hk.sized hb).1 hnow,
    hk.gens⟩

/-- The buckets were full when they were replaced. -/
theorem reload (hk : s.Kept t)
    (hfull : ∀ g name b, s.buckets s.gen g name = some b → b.level s.now = b.burst) :
    (s.reload t.enabled).Kept t := by
  have hnew : (s.reload t.enabled).buckets (s.gen + 1) = newBuckets t.enabled :=
    Function.update_self ..
  refine ⟨Function.update_self .., fun g name => ?_, fun g name b' hb' => ?_, fun e he => ?_⟩
  · show ((s.reload t.enabled).buckets (s.gen + 1) g name).map _ = _
    rw [hnew]
    unfold newBuckets
    rw [Option.map_map]
    rfl
  · have hb' : (s.reload t.enabled).buckets (s.gen + 1) g name = some b' := hb'
    rw [hnew] at hb'
    obtain ⟨c, hc, rfl⟩ := Option.map_eq_some_iff.mp hb'
    have hc : (t.limiter g).named name = some c := hc
    obtain ⟨b, hb, hlimit, hburst⟩ := hk.configured hc
    rw [← hlimit, ← hburst]
    exact (hk.booked g name b hb).renew (hk.sized hb).1 (hfull g name b hb)
  · exact Nat.le_succ_of_le (hk.gens e he)

/-- A token is reserved. -/
theorem reserve (hk : s.Kept t) {g : Gate} {name : String} {b : TokenBucket Rat}
    (hb : s.buckets s.gen g name = some b) : (s.reserve s.gen g name b).Kept t := by
  obtain ⟨hlimit, hburst⟩ := hk.sized hb
  refine ⟨hk.rows, fun g' name' => ?_, fun g' name' b' hb' => ?_,
    List.forall_mem_cons.mpr ⟨Nat.le_refl _, hk.gens⟩⟩
  · exact (put_config hb (TokenBucket.reserve_limit b s.now)
      (TokenBucket.reserve_burst b s.now) ..).trans (hk.config g' name')
  · show Booked b' s.now (live (s.booking s.gen g name b :: s.book) g' name')
    rw [live_cons]
    rcases put_apply hb' with ⟨-, rfl, rfl, rfl⟩ | ⟨hother, hb'⟩
    · rw [if_pos ⟨rfl, rfl⟩]
      exact (hk.booked _ _ b hb).reserve hlimit hburst
    · rw [if_neg fun h => hother ⟨rfl, h.1.symm, h.2.symm⟩]
      exact hk.booked g' name' b' hb'

/-- A reservation that may be cancelled is. -/
theorem cancel (hk : s.Kept t) {e : Booking} {b : TokenBucket Rat} {before after : List Booking}
    (hbook : s.book = before ++ e :: after) (hb : s.buckets e.gen e.gate e.name = some b)
    (hpending : s.Pending e) : (s.cancel e b (before ++ after)).Kept t := by
  have hsub : (before ++ after).Sublist s.book :=
    hbook ▸ (List.Sublist.refl before).append (List.sublist_cons_self e after)
  have hlive : live s.book e.gate e.name =
      live before e.gate e.name ++ e.res :: live after e.gate e.name := by
    rw [hbook, live_append, live_cons, if_pos ⟨rfl, rfl⟩]
  refine ⟨hk.rows, fun g name => ?_, fun g name b' hb' => ?_,
    fun x hx => hk.gens x (hsub.subset hx)⟩
  · exact (put_config hb TokenBucket.cancel_limit TokenBucket.cancel_burst ..).trans
      (hk.config g name)
  · rcases put_apply hb' with ⟨hgen, rfl, rfl, rfl⟩ | ⟨-, hb'⟩
    · have hgen : s.gen = e.gen := hgen
      rw [← hgen] at hb
      have hbooked := hk.booked _ _ b hb
      rw [hlive] at hbooked
      show Booked _ s.now (live (before ++ after) e.gate e.name)
      rw [live_append]
      exact hbooked.cancel (hk.sized hb).1 (hpending hgen.symm b hb)
    · exact (hk.booked g name b' hb').sublist ((hsub.filter _).map _)

end Kept

/-! ### What may still be cancelled -/

theorem Pending.tick {e : Booking} (h : s.Pending e) {now : Rat} (hnow : s.now ≤ now) :
    (s.tick now).Pending e := fun hgen b hb => (h hgen b hb).tick hnow

/-- The buckets of an old snapshot are of no concern. -/
theorem Pending.reload {e : Booking} (hk : s.Kept t) (he : e ∈ s.book) (rows : List RateLimit) :
    (s.reload rows).Pending e := by
  intro hgen
  have hgen : e.gen = s.gen + 1 := hgen
  have hle := hk.gens e he
  omega

theorem Pending.reserve {e : Booking} (h : s.Pending e) (hk : s.Kept t) (he : e ∈ s.book) {g : Gate}
    {name : String} {b : TokenBucket Rat} (hb : s.buckets s.gen g name = some b) :
    (s.reserve s.gen g name b).Pending e := by
  intro hgen b' hb'
  rcases put_apply hb' with ⟨-, hg, hname, rfl⟩ | ⟨-, hb'⟩
  · have hmem := mem_live he
    rw [hg, hname] at hmem
    exact (h hgen b (by rw [hg, hname]; exact hb)).reserve (hk.booked g name b hb) hmem
      (hk.sized hb).1
  · exact h hgen b' hb'

/-- A reservation that has to be waited for may be cancelled. -/
theorem Pending.reserve_self {gen : Nat} {g : Gate} {name : String} {b : TokenBucket Rat}
    (hwait : 0 < (b.reserve s.now).1.timeToAct - s.now) :
    (s.reserve gen g name b).Pending (s.booking gen g name b) := by
  intro hgen b' hb'
  rcases put_apply hb' with ⟨-, -, -, rfl⟩ | ⟨hother, -⟩
  · refine Core.Pending.reserve_self (lt_of_not_ge fun hlevel => ?_)
    rw [TokenBucket.reserve_now b s.now hlevel, sub_self] at hwait
    exact lt_irrefl _ hwait
  · exact absurd ⟨hgen.symm, rfl, rfl⟩ hother

theorem Pending.cancel {x : Booking} (h : s.Pending x) (hk : s.Kept t) {e : Booking}
    {b : TokenBucket Rat} {before after : List Booking} (hbook : s.book = before ++ e :: after)
    (hb : s.buckets e.gen e.gate e.name = some b) (he : s.Pending e) (hx : x ∈ before ++ after) :
    (s.cancel e b (before ++ after)).Pending x := by
  intro hgen b' hb'
  rcases put_apply hb' with ⟨hgen', hg, hname, rfl⟩ | ⟨-, hb'⟩
  · have hgen' : s.gen = e.gen := hgen'
    rw [← hgen'] at hb
    have hbooked := hk.booked _ _ b hb
    rw [hbook, live_append, live_cons, if_pos ⟨rfl, rfl⟩] at hbooked
    have hmem := mem_live hx
    rw [hg, hname, live_append] at hmem
    exact (h hgen b (by rw [hg, hname]; exact hb)).cancel hbooked hmem (hk.sized hb).1
      (he hgen'.symm b hb)
  · exact h hgen b' hb'

end Limiters

end

/-! ## The attempts under way -/

/-- The reservation that a token asked for is: one in the bucket of its key, if there is one. -/
structure Holds (t : LimitTable) (c : Charge) (b : Option Booking) : Prop where
  name : ((t.limiter c.gate).bucket c.key).map (·.1) = b.map (·.name)
  gate : ∀ e, b = some e → e.gate = c.gate

/-- An attempt keeps to its discipline on snapshots of the table; its reservations are of the tokens
    it asked for, and due but for the last one while it waits. -/
structure Flight.Inv (t : LimitTable) (s : Limiters) (f : Flight) : Prop where
  obeys : f.prog.Obeys (metering f.attempt.domain) f.attempt.Fin f.meter
  current : f.meter.Current t
  holds : List.Forall₂ (Holds t) f.meter.asked f.held
  due : f.meter.waiting = false → ∀ e ∈ f.bookings, e.res.timeToAct ≤ s.now
  waits : f.meter.waiting = true → ∃ hs e, f.held = hs ++ [some e] ∧
    (∀ e' ∈ hs.reduceOption, e'.res.timeToAct ≤ s.now) ∧ s.Pending e

/-- What passed had the tokens of its keys, and they were due. -/
structure Pass.Inv (t : LimitTable) (p : Pass) : Prop where
  due : ∀ e ∈ p.bookings, e.res.timeToAct ≤ p.time
  token : ∀ g key name c, p.key g = some key → (t.limiter g).bucket key = some (name, c) →
    ∃ e, p.bookings.find? (·.gate = g) = some e ∧ e.name = name

/-- **The invariant.**  Every reservation belongs to one attempt or one pass. -/
structure Pacer.Inv (t : LimitTable) (s : Pacer) : Prop where
  kept : s.lim.Kept t
  flights : ∀ f ∈ s.flights, f.Inv t s.lim
  passes : ∀ p ∈ s.passes, p.Inv t
  claims : (s.passes.flatMap (·.bookings) : Multiset Booking) +
    (s.flights.flatMap (·.bookings) : List Booking) ≤ (s.lim.book : Multiset Booking)

section
variable {t : LimitTable} {s : Limiters} {f : Flight}

/-- The reservation of the token that was asked for at a gate. -/
theorem find_held {asked : List Charge} {held : List (Option Booking)}
    (h : List.Forall₂ (Holds t) asked held) {g : Gate} {c : Charge} {name : String} {b : Bucket}
    (hc : asked.find? (·.gate = g) = some c)
    (hb : (t.limiter c.gate).bucket c.key = some (name, b)) :
    ∃ e, held.reduceOption.find? (·.gate = g) = some e ∧ e.name = name := by
  induction h with
  | nil => cases hc
  | @cons c' x asked held hx _ ih =>
    by_cases hg : c'.gate = g
    · rw [List.find?_cons_of_pos (by simpa using hg)] at hc
      obtain rfl := Option.some.inj hc
      have hname := hx.name
      rw [hb, Option.map_some] at hname
      obtain ⟨e, rfl, heq⟩ := Option.map_eq_some_iff.mp hname.symm
      refine ⟨e, ?_, heq⟩
      rw [List.reduceOption_cons_of_some,
        List.find?_cons_of_pos (by simpa using (hx.gate e rfl).trans hg)]
    · rw [List.find?_cons_of_neg (by simpa using hg)] at hc
      obtain ⟨e, hfind, hname⟩ := ih hc
      refine ⟨e, ?_, hname⟩
      cases x with
      | none => rw [List.reduceOption_cons_of_none, hfind]
      | some e' =>
        have hother : e'.gate ≠ g := fun h => hg ((hx.gate e' rfl).symm.trans h)
        rw [List.reduceOption_cons_of_some, List.find?_cons_of_neg (by simpa using hother), hfind]

/-- The tokens of a `Send`, gate by gate. -/
theorem Flight.handed_inv (hf : f.Inv t s) {p : Provider} {msg : Message}
    (hpaid : f.meter.Paid f.attempt.domain p.name)
    (hfair : f.meter.sends = 0 ∨ (t.limiter .domain).bucket f.attempt.domain = none) :
    ∀ q ∈ f.handed s.now (.ask (.send p msg)), q.Inv t := by
  intro q hq
  obtain rfl := List.mem_singleton.mp hq
  obtain ⟨hdue, l, l', hl, hl', hasked⟩ := hpaid
  obtain rfl := hf.current.limiters .domain l hl
  obtain rfl := hf.current.limiters .provider l' hl'
  refine ⟨hf.due hdue, fun g key name c hkey hbucket => ?_⟩
  cases g with
  | inbound => cases hkey
  | domain =>
    have hkey : f.attempt.domain = key := Option.some.inj hkey
    subst hkey
    have hfirst : f.meter.sends = 0 :=
      hfair.resolve_right fun hnone => Option.some_ne_none _ (hbucket.symm.trans hnone)
    rw [if_pos hfirst] at hasked
    refine find_held hf.holds (c := ⟨.domain, t.limiter .domain, f.attempt.domain⟩) ?_ hbucket
    rw [hasked]
    rfl
  | provider =>
    have hkey : p.name = key := Option.some.inj hkey
    subst hkey
    refine find_held hf.holds (c := ⟨.provider, t.limiter .provider, p.name⟩) ?_ hbucket
    rw [hasked]
    split <;> rfl

/-- The token of a MAIL. -/
theorem Flight.letIn_inv (hf : f.Inv t s) {accepted : Bool} (hprog : f.prog = .pure accepted) :
    ∀ q ∈ f.letIn s.now accepted, q.Inv t := by
  intro q hq
  have hfin : f.attempt.Fin f.meter accepted := by
    have hobeys := hf.obeys
    rw [hprog] at hobeys
    exact hobeys
  cases accepted with
  | false => cases hq
  | true =>
    obtain rfl := List.mem_singleton.mp hq
    cases hattempt : f.attempt with
    | deliver w =>
      rw [hattempt] at hfin
      cases hfin
    | mail P session sender =>
      rw [hattempt] at hfin
      obtain ⟨hdue, htoken⟩ := hfin rfl
      refine ⟨hf.due hdue, fun g key name c hkey hbucket => ?_⟩
      obtain ⟨l, hl, hasked⟩ := htoken.resolve_left fun hunpoliced =>
        Bool.noConfusion (hunpoliced.symm.trans hf.current.policed)
      obtain rfl := hf.current.limiters .inbound l hl
      have hkey : (Attempt.mail P session sender).mailKey g = some key := hkey
      cases g with
      | inbound =>
        have hkey : session.rateKey P = key := Option.some.inj hkey
        subst hkey
        refine find_held hf.holds (c := ⟨.inbound, t.limiter .inbound, session.rateKey P⟩) ?_ hbucket
        rw [hasked]
        rfl
      | domain => cases hkey
      | provider => cases hkey

/-! ### A call -/

/-- The snapshots that are loaded are of the table. -/
theorem Effect.loads {o : Op} {r : o.Ret} {s' : Limiters} {gen : Nat}
    {held : List (Option Booking)} (h : Effect s f o r s' gen held)
    (hrows : s.rows s.gen = t.enabled) : Loads t.enabled o r := by
  cases h with
  | policy hp => exact ⟨_, rfl, hrows ▸ hp⟩
  | state hst => exact hrows ▸ hst
  | unlimited => trivial
  | reserve => trivial
  | slept => trivial
  | woken => trivial
  | cancel => trivial
  | send => trivial
  | other hother =>
    cases o with
    | ask q =>
      cases q with
      | loadPolicy => cases hother
      | loadState => cases hother
      | _ => trivial
    | _ => trivial

/-- Other calls are not noted. -/
theorem Meter.note_of_unpaced {m : Meter} {o : Op} (h : o.paced = false) (r : o.Ret) :
    m.note o r = m := by
  cases o with
  | ask q =>
    cases q with
    | loadPolicy | loadState | reserve _ _ _ | cancel | sleep _ | send _ _ => cases h
    | _ => rfl
  | _ => rfl

/-- Nor do they hand anything on. -/
theorem Flight.handed_of_unpaced (f : Flight) {o : Op} (h : o.paced = false) (now : Rat) :
    f.handed now o = [] := by
  cases o with
  | ask q =>
    cases q with
    | send _ _ => cases h
    | _ => rfl
  | _ => rfl

theorem nanoseconds_eq_zero {d : Rat} : nanoseconds d = 0 ↔ d ≤ 0 := by
  unfold nanoseconds
  rw [Nat.ceil_eq_zero]
  constructor
  · exact fun h => nonpos_of_mul_nonpos_left h (by norm_num)
  · exact fun h => mul_nonpos_of_nonpos_of_nonneg h (by norm_num)

end

section
variable {t : LimitTable} {s s' : Limiters} {f : Flight} {o : Op} {r : o.Ret} {gen : Nat}
  {held : List (Option Booking)}

/-- What a call leaves, when the attempt keeps to its discipline and its tokens come from the current
    snapshot: the books are kept, what the attempt claims is in them, and what others wait for may
    still be cancelled. -/
structure Effect.Keeps (t : LimitTable) (s : Limiters) (f : Flight) (o : Op) (r : o.Ret)
    (s' : Limiters) (held : List (Option Booking)) (others : Multiset Booking) : Prop where
  now : s'.now = s.now
  kept : s'.Kept t
  holds : List.Forall₂ (Holds t) (f.meter.note o r).asked held
  due : (f.meter.note o r).waiting = false → ∀ e ∈ held.reduceOption, e.res.timeToAct ≤ s.now
  waits : (f.meter.note o r).waiting = true → ∃ hs e, held = hs ++ [some e] ∧
    (∀ e' ∈ hs.reduceOption, e'.res.timeToAct ≤ s.now) ∧ s'.Pending e
  claims : others + ((f.handed s.now o).flatMap (·.bookings) : List Booking) +
    (held.reduceOption : Multiset Booking) ≤ (s'.book : Multiset Booking)
  pending : ∀ e ∈ others, s.Pending e → s'.Pending e

theorem reduceOption_concat (hs : List (Option Booking)) (e : Booking) :
    (hs ++ [some e]).reduceOption = hs.reduceOption ++ [e] := List.reduceOption_append ..

theorem due_concat {hs : List (Option Booking)} {e : Booking} {now : Rat}
    (h : ∀ e' ∈ hs.reduceOption, e'.res.timeToAct ≤ now) (he : e.res.timeToAct ≤ now) :
    ∀ e' ∈ (hs ++ [some e]).reduceOption, e'.res.timeToAct ≤ now := by
  rw [reduceOption_concat]
  exact List.forall_mem_append.mpr ⟨h, List.forall_mem_singleton.mpr he⟩

/-- A call that hands nothing on. -/
theorem claims_unhanded {others claimed book : Multiset Booking} (h : others + claimed ≤ book) :
    others + (([] : List Booking) : Multiset Booking) + claimed ≤ book := by
  rw [Multiset.coe_nil, add_zero]
  exact h

/-- The token that was asked for last is given back. -/
theorem holds_dropLast {asked : List Charge} {hs : List (Option Booking)} {x : Option Booking}
    (h : List.Forall₂ (Holds t) asked (hs ++ [x])) : List.Forall₂ (Holds t) asked.dropLast hs := by
  have hlen : asked.length - 1 = hs.length := by
    rw [h.length_eq, List.length_append, List.length_singleton, Nat.add_sub_cancel]
  rw [List.dropLast_eq_take, hlen]
  exact List.forall₂_take_append asked hs [x] h

/-- **One call.** -/
theorem Effect.keeps (h : Effect s f o r s' gen held) (hk : s.Kept t) (hf : f.Inv t s)
    (hallow : f.meter.Allows f.attempt.domain o)
    (hfair : ∀ g l key, o = .ask (.reserve g l key) → f.gen = s.gen) {others : Multiset Booking}
    (hclaims : others + (f.bookings : Multiset Booking) ≤ (s.book : Multiset Booking)) :
    Effect.Keeps t s f o r s' held others := by
  have hin : ∀ e ∈ others, e ∈ s.book := fun e he =>
    Multiset.mem_coe.mp (Multiset.mem_of_le hclaims (Multiset.mem_add.mpr (.inl he)))
  cases h with
  | policy hp =>
    exact ⟨rfl, hk, hf.holds, hf.due, hf.waits, claims_unhanded hclaims, fun _ _ h => h⟩
  | state hst =>
    exact ⟨rfl, hk, hf.holds, hf.due, hf.waits, claims_unhanded hclaims, fun _ _ h => h⟩
  | @unlimited g l key hnone =>
    obtain ⟨hl, hwait⟩ := hallow
    obtain rfl := hf.current.limiters g l hl
    have hsame : (f.held ++ [none]).reduceOption = f.bookings := by
      rw [List.reduceOption_append]
      exact List.append_nil _
    refine ⟨rfl, hk, List.rel_append hf.holds (.cons ⟨?_, nofun⟩ .nil), fun _ => ?_, nofun, ?_,
      fun _ _ h => h⟩
    · rw [hnone]
      rfl
    · rw [hsame]
      exact hf.due hwait
    · rw [hsame]
      exact claims_unhanded hclaims
  | @reserve g l key name c b hbucket hb =>
    obtain ⟨hl, hwait⟩ := hallow
    obtain rfl := hf.current.limiters g l hl
    have hgen := hfair g _ key rfl
    rw [hgen] at hb
    rw [hgen]
    refine ⟨rfl, hk.reserve hb, List.rel_append hf.holds (.cons ⟨?_, ?_⟩ .nil), fun hnow => ?_,
      fun hwaits => ?_, ?_, fun e he h => h.reserve hk (hin e he) hb⟩
    · rw [hbucket]
      rfl
    · rintro e ⟨⟩
      rfl
    · -- the token is there at once
      have hzero : nanoseconds ((b.reserve s.now).1.timeToAct - s.now) = 0 :=
        Nat.eq_zero_of_not_pos (of_decide_eq_false hnow)
      have hnow := nanoseconds_eq_zero.mp hzero
      exact due_concat (hf.due hwait) (sub_nonpos.mp hnow)
    · have hpos := of_decide_eq_true (p := 0 < nanoseconds _) hwaits
      exact ⟨f.held, _, rfl, hf.due hwait,
        .reserve_self (lt_of_not_ge fun hle => hpos.ne' (nanoseconds_eq_zero.mpr hle))⟩
    · refine claims_unhanded ?_
      rw [reduceOption_concat, ← Multiset.coe_add, ← add_assoc, Multiset.coe_singleton]
      show _ ≤ ((s.booking s.gen g name b :: s.book : List Booking) : Multiset Booking)
      rw [← Multiset.cons_coe, ← Multiset.singleton_add, add_comm]
      exact add_le_add_right hclaims _
  | @slept ns hs e hheld hnow =>
    have hwait : f.meter.waiting = true := hallow
    obtain ⟨hs', e', hheld', hdue, -⟩ := hf.waits hwait
    obtain ⟨rfl, hlast⟩ := List.append_inj' (hheld.symm.trans hheld') rfl
    refine ⟨rfl, hk, hf.holds, fun _ => ?_, fun h => ?_, claims_unhanded hclaims, fun _ _ h => h⟩
    · rw [hheld]
      exact due_concat hdue hnow
    · exact Bool.noConfusion ((Bool.and_false _).symm.trans h)
  | woken =>
    have hwait : f.meter.waiting = true := hallow
    refine ⟨rfl, hk, hf.holds, fun h => ?_, fun _ => hf.waits hwait, claims_unhanded hclaims,
      fun _ _ h => h⟩
    exact Bool.noConfusion (hwait.symm.trans ((Bool.and_true _).symm.trans h))
  | @cancel hs e b before after hheld hbook hb =>
    have hwait : f.meter.waiting = true := hallow
    obtain ⟨hs', e', hheld', hdue, hpending⟩ := hf.waits hwait
    obtain ⟨rfl, hlast⟩ := List.append_inj' (hheld.symm.trans hheld') rfl
    obtain rfl : e = e' := Option.some.inj (List.singleton_inj.mp hlast)
    have hrest : others + (held.reduceOption : Multiset Booking) ≤
        ((before ++ after : List Booking) : Multiset Booking) := by
      have hsplit : (f.bookings : Multiset Booking) = {e} + (held.reduceOption : Multiset Booking) := by
        unfold Flight.bookings
        rw [hheld, reduceOption_concat, ← Multiset.coe_add, Multiset.coe_singleton, add_comm]
      have hrest : (s.book : Multiset Booking) =
          {e} + ((before ++ after : List Booking) : Multiset Booking) := by
        rw [hbook, ← Multiset.coe_add, ← Multiset.coe_add, ← Multiset.cons_coe,
          ← Multiset.singleton_add]
        abel
      rw [hsplit, hrest, add_left_comm] at hclaims
      exact le_of_add_le_add_left hclaims
    refine ⟨rfl, hk.cancel hbook hb hpending, holds_dropLast (hheld ▸ hf.holds), fun _ => hdue, nofun,
      claims_unhanded hrest, fun x hx h => h.cancel hk hbook hb hpending ?_⟩
    exact Multiset.mem_coe.mp (Multiset.mem_of_le hrest (Multiset.mem_add.mpr (.inl hx)))
  | send =>
    refine ⟨rfl, hk, .nil, fun _ => nofun, fun h => ?_, ?_, fun _ _ h => h⟩
    · exact Bool.noConfusion (hallow.due.symm.trans h)
    · show others + (f.bookings ++ [] : List Booking) + (([] : List Booking) : Multiset Booking) ≤ _
      rw [List.append_nil, Multiset.coe_nil, add_zero]
      exact hclaims
  | other hother =>
    have hnote := Meter.note_of_unpaced (m := f.meter) hother r
    have hhanded : f.handed s.now o = [] := f.handed_of_unpaced hother s.now
    refine ⟨rfl, hk, ?_, ?_, ?_, ?_, fun _ _ h => h⟩
    · rw [hnote]
      exact hf.holds
    · rw [hnote]
      exact hf.due
    · rw [hnote]
      exact hf.waits
    · rw [hhanded]
      exact claims_unhanded hclaims

end

/-! ## Steps -/

section
variable {t : LimitTable} {s s' : Pacer}

/-- An attempt is left as it is while others call and time passes. -/
theorem Flight.Inv.frame {f : Flight} {lim lim' : Limiters} (hf : f.Inv t lim)
    (hnow : lim.now ≤ lim'.now) (hpending : ∀ e ∈ f.bookings, lim.Pending e → lim'.Pending e) :
    f.Inv t lim' := by
  refine ⟨hf.obeys, hf.current, hf.holds, fun h e he => (hf.due h e he).trans hnow, fun h => ?_⟩
  obtain ⟨hs, e, hheld, hdue, hwait⟩ := hf.waits h
  refine ⟨hs, e, hheld, fun e' he' => (hdue e' he').trans hnow, hpending e ?_ hwait⟩
  unfold Flight.bookings
  rw [hheld, reduceOption_concat]
  exact List.mem_append_right _ List.mem_cons_self

/-- What the passes and the other attempts claim. -/
def Pacer.others (passes : List Pass) (before after : List Flight) : Multiset Booking :=
  (passes.flatMap (·.bookings) : List Booking) + (before.flatMap (·.bookings) : List Booking) +
    (after.flatMap (·.bookings) : List Booking)

theorem Pacer.claims_split (passes : List Pass) (before after : List Flight) (f : Flight) :
    (passes.flatMap (·.bookings) : Multiset Booking) +
        ((before ++ f :: after).flatMap (·.bookings) : List Booking) =
      Pacer.others passes before after + (f.bookings : Multiset Booking) := by
  unfold Pacer.others
  rw [List.flatMap_append, List.flatMap_cons, ← Multiset.coe_add, ← Multiset.coe_add]
  abel

theorem Pacer.claims_passes (new passes : List Pass) (before after : List Flight) :
    Pacer.others (new ++ passes) before after =
      Pacer.others passes before after + (new.flatMap (·.bookings) : List Booking) := by
  unfold Pacer.others
  rw [List.flatMap_append, ← Multiset.coe_add]
  abel

theorem Pacer.mem_others {passes : List Pass} {before after : List Flight} {f : Flight}
    {e : Booking} (hf : f ∈ before ++ after) (he : e ∈ f.bookings) :
    e ∈ Pacer.others passes before after := by
  unfold Pacer.others
  rcases List.mem_append.mp hf with hf | hf
  · exact Multiset.mem_add.mpr (.inl (Multiset.mem_add.mpr (.inr
      (Multiset.mem_coe.mpr (List.mem_flatMap.mpr ⟨f, hf, he⟩)))))
  · exact Multiset.mem_add.mpr (.inr (Multiset.mem_coe.mpr (List.mem_flatMap.mpr ⟨f, hf, he⟩)))

/-- What an attempt claims is in the book. -/
theorem Pacer.Inv.mem_book (hi : s.Inv t) {f : Flight} (hf : f ∈ s.flights) {e : Booking}
    (he : e ∈ f.bookings) : e ∈ s.lim.book :=
  Multiset.mem_coe.mp (Multiset.mem_of_le hi.claims (Multiset.mem_add.mpr (.inr
    (Multiset.mem_coe.mpr (List.mem_flatMap.mpr ⟨f, hf, he⟩)))))

/-- What a call hands on has its tokens. -/
theorem Flight.Inv.hands {f : Flight} {lim : Limiters} (hf : f.Inv t lim) {o : Op}
    (hallow : f.meter.Allows f.attempt.domain o)
    (hfair : ∀ p msg, o = .ask (.send p msg) →
      f.meter.sends = 0 ∨ (t.limiter .domain).bucket f.attempt.domain = none) :
    ∀ q ∈ f.handed lim.now o, q.Inv t := by
  intro q hq
  cases o with
  | ask query =>
    cases query with
    | send p msg => exact f.handed_inv hf hallow (hfair p msg rfl) q hq
    | _ => cases hq
  | _ => cases hq

/-- **The step.**  A fair step keeps the invariant. -/
theorem PacerStep.keeps {m : PacerMove} (h : PacerStep t s m s') (hok : s.Fair t m)
    (hi : s.Inv t) : s'.Inv t := by
  cases h with
  | tick hnow =>
    refine ⟨hi.kept.tick hnow, fun f hf => ?_, hi.passes, hi.claims⟩
    exact (hi.flights f hf).frame hnow fun e _ h => h.tick hnow
  | reload hreads =>
    obtain ⟨rfl, hfull⟩ := hok.reload _ rfl
    refine ⟨hi.kept.reload hfull, fun f hf => ?_, hi.passes, hi.claims⟩
    exact (hi.flights f hf).frame le_rfl fun e he _ => .reload hi.kept (hi.mem_book hf he) _
  | begin a =>
    refine ⟨hi.kept, List.forall_mem_cons.mpr ⟨?_, hi.flights⟩, hi.passes, hi.claims⟩
    exact ⟨a.program_metered, ⟨nofun, rfl⟩, .nil, fun _ => nofun, nofun⟩
  | @call before after f o k r lim gen held hflights hprog heffect =>
    have hf := hi.flights f (hflights ▸ List.mem_append_right _ List.mem_cons_self)
    have hobeys := hf.obeys
    rw [hprog] at hobeys
    have hclaims := hi.claims
    rw [hflights, Pacer.claims_split] at hclaims
    have hkeeps := heffect.keeps hi.kept hf hobeys.1
      (fun g l key ho => hok.reserve f g l key (ho ▸ rfl)) hclaims
    refine ⟨hkeeps.kept, ?_, ?_, ?_⟩
    · have hothers : ∀ x ∈ before ++ after, x.Inv t lim := by
        intro x hx
        have hsub : (before ++ after).Sublist s.flights :=
          hflights ▸ (List.Sublist.refl before).append (List.sublist_cons_self f after)
        exact (hi.flights x (hsub.subset hx)).frame hkeeps.now.ge
          fun e he => hkeeps.pending e (Pacer.mem_others hx he)
      have hnext : (f.next k r gen held).Inv t lim := by
        refine ⟨hobeys.2 r, hf.current.note (heffect.loads hi.kept.rows), hkeeps.holds, ?_, ?_⟩
        · rw [hkeeps.now]
          exact hkeeps.due
        · rw [hkeeps.now]
          exact hkeeps.waits
      intro x hx
      rcases List.mem_append.mp hx with hx | hx
      · exact hothers x (List.mem_append_left _ hx)
      · rcases List.mem_cons.mp hx with rfl | hx
        · exact hnext
        · exact hothers x (List.mem_append_right _ hx)
    · exact List.forall_mem_append.mpr ⟨hf.hands hobeys.1
        fun p msg ho => hok.send f p msg (ho ▸ rfl), hi.passes⟩
    · rw [Pacer.claims_split, Pacer.claims_passes]
      exact hkeeps.claims
  | @finish before after f accepted hflights hprog =>
    have hf := hi.flights f (hflights ▸ List.mem_append_right _ List.mem_cons_self)
    have hclaims := hi.claims
    rw [hflights, Pacer.claims_split] at hclaims
    have hsub : (before ++ after).Sublist s.flights :=
      hflights ▸ (List.Sublist.refl before).append (List.sublist_cons_self f after)
    refine ⟨hi.kept, fun x hx => hi.flights x (hsub.subset hx),
      List.forall_mem_append.mpr ⟨f.letIn_inv hf hprog, hi.passes⟩, ?_⟩
    have hrest : ((f.letIn s.lim.now accepted ++ s.passes).flatMap (·.bookings) : Multiset Booking) +
        ((before ++ after).flatMap (·.bookings) : List Booking) =
          Pacer.others (f.letIn s.lim.now accepted ++ s.passes) before after := by
      have hflat : (before ++ after).flatMap (·.bookings) =
          before.flatMap (·.bookings) ++ after.flatMap (·.bookings) := List.flatMap_append ..
      unfold Pacer.others
      rw [hflat, ← Multiset.coe_add, add_assoc]
    rw [hrest, Pacer.claims_passes]
    refine le_trans (add_le_add_right ?_ _) hclaims
    cases accepted with
    | false => exact Multiset.zero_le _
    | true => exact (congrArg _ (List.append_nil _)).le

/-- **Every fair run keeps the invariant**, unless it began with a snapshot that lacks a row and so
    could not take a step. -/
theorem Pacer.inv_of_reach (h : Reach (pacer t) (Pacer.Fair t) s) :
    s.Inv t ∨ (s.lim.rows s.lim.gen ≠ t.enabled ∧ s.passes = []) := by
  refine h.invariant (I := fun s => s.Inv t ∨ (s.lim.rows s.lim.gen ≠ t.enabled ∧ s.passes = []))
    (fun s hinit => ?_) fun s m s' _ hi hok hst => .inl ?_
  · obtain ⟨-, hbuckets, hbook, hflights, hpasses⟩ := hinit
    by_cases hwhole : s.lim.rows s.lim.gen = t.enabled
    · refine .inl ⟨⟨hwhole, fun g name => ?_, fun g name b _ => ?_, ?_⟩, ?_, ?_, ?_⟩
      · rw [hbuckets, hwhole]
        unfold newBuckets
        rw [Option.map_map]
        rfl
      · rw [hbook]
        exact Booked.nil
      · rw [hbook]
        exact nofun
      · rw [hflights]
        exact nofun
      · rw [hpasses]
        exact nofun
      · rw [hpasses, hflights]
        exact Multiset.zero_le _
    · exact .inr ⟨hwhole, hpasses⟩
  · rcases hi with hi | ⟨hmissing, -⟩
    · exact PacerStep.keeps hst hok hi
    · exact absurd hok.whole hmissing

/-! ## Windows -/

/-- Counting what has something by what it has. -/
theorem length_filter_le_flatMap {α β : Type} {p : α → Bool} {q : β → Bool} {f : α → List β}
    {l : List α} (h : ∀ a ∈ l, p a = true → ∃ b ∈ f a, q b = true) :
    (l.filter p).length ≤ ((l.flatMap f).filter q).length := by
  induction l with
  | nil => exact Nat.le_refl 0
  | cons a l ih =>
    have hrest := ih fun a' ha' => h a' (List.mem_cons_of_mem _ ha')
    rw [List.flatMap_cons, List.filter_append, List.length_append]
    by_cases hp : p a = true
    · obtain ⟨b, hb, hq⟩ := h a List.mem_cons_self hp
      have hpos := List.length_pos_of_mem (List.mem_filter.mpr ⟨hb, hq⟩)
      rw [List.filter_cons_of_pos hp, List.length_cons]
      omega
    · rw [List.filter_cons_of_neg hp]
      omega

/-- The token a pass was admitted on is one of its reservations. -/
theorem Pass.Inv.admitted {p : Pass} (hp : p.Inv t) {g : Gate} {name : String}
    (hbucket : p.bucket t g = some name) :
    ∃ e ∈ p.bookings, e.gate = g ∧ e.name = name ∧ p.admitted g = e.res.timeToAct := by
  obtain ⟨⟨name', c⟩, hkey, rfl⟩ := Option.map_eq_some_iff.mp hbucket
  obtain ⟨key, hkey, hc⟩ := Option.bind_eq_some_iff.mp hkey
  obtain ⟨e, hfind, hname⟩ := hp.token g key name' c hkey hc
  refine ⟨e, List.mem_of_find?_eq_some hfind, by simpa using List.find?_some hfind, hname, ?_⟩
  unfold Pass.admitted
  rw [hfind]
  rfl

/-- Nothing passes before it is admitted. -/
theorem Pass.Inv.admitted_le {p : Pass} (hp : p.Inv t) (g : Gate) : p.admitted g ≤ p.time := by
  unfold Pass.admitted
  cases hfind : p.bookings.find? (·.gate = g) with
  | none => exact le_rfl
  | some e => exact hp.due e (List.mem_of_find?_eq_some hfind)

/-- The bookings of a bucket that are due in a window, and its reservations that are. -/
theorem length_filter_live (book : List Booking) (g : Gate) (name : String) (start stop : Rat) :
    (book.filter fun e => e.gate = g ∧ e.name = name ∧ start ≤ e.res.timeToAct ∧
        e.res.timeToAct ≤ stop).length =
      ((live book g name).filter fun r => start ≤ r.timeToAct ∧ r.timeToAct ≤ stop).length := by
  unfold live
  rw [List.filter_map, List.length_map, List.filter_filter]
  refine congrArg List.length (List.filter_congr fun e _ => Bool.eq_iff_iff.mpr ?_)
  simp only [Function.comp_apply, Bool.and_eq_true, decide_eq_true_eq]
  exact ⟨fun h => ⟨h.2.2, h.1, h.2.1⟩, fun h => ⟨h.2.1, h.2.2, h.1⟩⟩

/-- What passed under a bucket within a window has as many reservations of it there. -/
theorem Pacer.Inv.passes_le_live (hi : s.Inv t) (g : Gate) (name : String) (start stop : Rat) :
    (s.passes.filter fun p => p.bucket t g = some name ∧ start ≤ p.admitted g ∧
        p.admitted g ≤ stop).length ≤
      ((live s.lim.book g name).filter fun r =>
        start ≤ r.timeToAct ∧ r.timeToAct ≤ stop).length := by
  let inside : Booking → Bool := fun e =>
    e.gate = g ∧ e.name = name ∧ start ≤ e.res.timeToAct ∧ e.res.timeToAct ≤ stop
  have hpasses : (s.passes.filter fun p => p.bucket t g = some name ∧ start ≤ p.admitted g ∧
      p.admitted g ≤ stop).length ≤ ((s.passes.flatMap (·.bookings)).filter inside).length := by
    refine length_filter_le_flatMap fun p hp hin => ?_
    obtain ⟨hbucket, hstart, hend⟩ := of_decide_eq_true hin
    obtain ⟨e, he, hg, hname, hadmitted⟩ := (hi.passes p hp).admitted hbucket
    rw [hadmitted] at hstart hend
    exact ⟨e, he, decide_eq_true ⟨hg, hname, hstart, hend⟩⟩
  have hbook : ((s.passes.flatMap (·.bookings)).filter inside).length ≤
      (s.lim.book.filter inside).length := by
    have hle := Multiset.countP_le_of_le (inside · = true)
      ((Multiset.le_add_right _ _).trans hi.claims)
    rw [Multiset.coe_countP, Multiset.coe_countP, List.countP_eq_length_filter,
      List.countP_eq_length_filter] at hle
    simpa using hle
  exact (hpasses.trans hbook).trans_eq (length_filter_live s.lim.book g name start stop)

/-- **Rate limits hold across reloads** that find the buckets full and leave no attempt on the old
    ones, for deliveries that hand their message on once under a limited domain. -/
theorem rate_limits_hold (h : Reach (pacer t) (Pacer.Fair t) s) : s.Within t := by
  rcases Pacer.inv_of_reach h with hi | ⟨-, hnone⟩
  · refine ⟨fun p hp => (hi.passes p hp).admitted_le, fun g key name c hkey start T hT => ?_⟩
    obtain ⟨b, hb, hlimit, hburst⟩ := hi.kept.configured (Limiter.build_bucket_named hkey)
    obtain ⟨hpos, hone⟩ := hi.kept.sized hb
    have hwindow : (((live s.lim.book g name).filter fun r =>
        start ≤ r.timeToAct ∧ r.timeToAct ≤ start + T).length : Rat) ≤ b.burst + b.limit * T :=
      (hi.kept.booked g name b hb).window List.filter_sublist hpos hone hT
        fun r hr => of_decide_eq_true (List.mem_filter.mp hr).2
    rw [hlimit, hburst] at hwindow
    exact (Nat.cast_le.mpr (hi.passes_le_live g name start (start + T))).trans hwindow
  · -- nothing has happened yet
    refine ⟨by rw [hnone]; exact nofun, fun g key name c hkey start T hT => ?_⟩
    obtain ⟨hper, hburst⟩ := LimitTable.named_checks (Limiter.build_bucket_named hkey)
    have hburst : (0 : Rat) ≤ c.burst := by exact_mod_cast zero_le_one.trans hburst
    rw [hnone]
    exact add_nonneg hburst (mul_nonneg hper.le hT)

end

/-! ## Two MAILs -/

/-- One inbound limit for everybody, one token a second. -/
def oneLimit : LimitTable where
  rows := [⟨"1", .inbound, .global, "*", 1, 1, true⟩]
  checks := by decide
  unique := List.pairwise_singleton ..

/-- The policy that is built of it. -/
def onePolicy : InboundPolicy :=
  (buildInbound .plain).eval fun
    | .getRateLimits => { rows := oneLimit.enabled }
    | o => o.nothing

/-- The bucket of everybody. -/
def everybody : TokenBucket Rat := .new 1 1

theorem everybody_level (now : Rat) : everybody.level now = 1 :=
  TokenBucket.level_new zero_le_one

theorem everybody_acts (now : Rat) : (everybody.reserve now).1.timeToAct = now :=
  TokenBucket.reserve_now everybody now (everybody_level now).ge

/-- A MAIL of `alice`. -/
def aliceAttempt : Attempt := .mail .plain aliceSession "a@s.test"

/-- Its program, once the policy was loaded. -/
def aliceAsks : Option InboundPolicy → Handler Bool
  | none => pure true
  | some p => Ingress.policyCalls .plain aliceSession (domainOf ["a@s.test"]) p >>= fun e =>
    pure e.isNone

/-- Its program, once the bucket has answered. -/
def aliceEnds : Option Nat → Handler Bool
  | none => pure true
  | some delay =>
    if 0 < delay then do
      ask .cancel
      pure false
    else pure true

theorem alice_starts : (Flight.start aliceAttempt).prog = .call (.ask .loadPolicy) aliceAsks := by
  refine congrArg (Prog.call _) (funext fun policy => ?_)
  cases policy <;> rfl

theorem alice_asks : aliceAsks (some onePolicy) =
    .call (.ask (.reserve .inbound onePolicy.limiter "acct:7")) aliceEnds := by
  refine congrArg (Prog.call _) (funext fun delay => ?_)
  cases delay with
  | none => rfl
  | some delay =>
    by_cases hdelay : 0 < delay
    · show (if 0 < delay then _ else _ : Handler (Option SMTPError)) >>= _ = ite (0 < delay) _ _
      rw [if_pos hdelay, if_pos hdelay]
      rfl
    · show (if 0 < delay then _ else _ : Handler (Option SMTPError)) >>= _ = ite (0 < delay) _ _
      rw [if_neg hdelay, if_neg hdelay]
      rfl

/-- Her submission, on a token of everybody. -/
def alicePass (now : Rat) (gen : Nat) : Pass :=
  ⟨now, aliceAttempt.mailKey, [⟨gen, .inbound, "*", (everybody.reserve now).1⟩]⟩

theorem alicePass_bucket (now : Rat) (gen : Nat) :
    (alicePass now gen).bucket oneLimit .inbound = some "*" := by
  have hbucket : (oneLimit.limiter .inbound).bucket "acct:7" = some ("*", ⟨1, 1⟩) := by decide
  exact congrArg (Option.map (·.1)) hbucket

theorem alicePass_admitted (now : Rat) (gen : Nat) :
    (alicePass now gen).admitted .inbound = now := everybody_acts now

namespace Pacer

/-- The process of `oneLimit` as it starts. -/
def start : Pacer := ⟨⟨0, 0, fun _ => oneLimit.enabled, fun _ => newBuckets oneLimit.enabled, []⟩,
  [], []⟩

/-- The process when a MAIL was let in by the bucket of everybody. -/
def served (s : Pacer) : Pacer where
  lim := s.lim.reserve s.lim.gen .inbound "*" everybody
  flights := []
  passes := alicePass s.lim.now s.lim.gen :: s.passes

end Pacer

section
variable {t : LimitTable} {lim lim' : Limiters} {f : Flight} (passes : List Pass)

/-- A call of the only attempt under way. -/
theorem PacerStep.call_alone {o : Op} {k : o.Ret → Handler Bool} {r : o.Ret} {gen : Nat}
    {held : List (Option Booking)} (hprog : f.prog = .call o k)
    (heffect : Effect lim f o r lim' gen held) :
    PacerStep t ⟨lim, [f], passes⟩ (.call f o)
      ⟨lim', [f.next k r gen held], f.handed lim.now o ++ passes⟩ :=
  @PacerStep.call t ⟨lim, [f], passes⟩ [] [] f o k r lim' gen held rfl hprog heffect

theorem PacerStep.finish_alone {accepted : Bool} (hprog : f.prog = .pure accepted) :
    PacerStep t ⟨lim, [f], passes⟩ .finish ⟨lim, [], f.letIn lim.now accepted ++ passes⟩ :=
  @PacerStep.finish t ⟨lim, [f], passes⟩ [] [] f accepted rfl hprog

end

/-- The condition allows the steps of a MAIL that asks the current snapshot. -/
structure AllowsMail (t : LimitTable) (ok : Pacer → PacerMove → Prop) : Prop where
  begin : ∀ s : Pacer, s.lim.rows s.lim.gen = t.enabled → ok s .begin
  load : ∀ (s : Pacer) f, s.lim.rows s.lim.gen = t.enabled → ok s (.call f (.ask .loadPolicy))
  reserve : ∀ (s : Pacer) f g l key, s.lim.rows s.lim.gen = t.enabled → f.gen = s.lim.gen →
    ok s (.call f (.ask (.reserve g l key)))
  finish : ∀ s : Pacer, s.lim.rows s.lim.gen = t.enabled → ok s .finish

theorem Pacer.Fair.mail (t : LimitTable) : AllowsMail t (Pacer.Fair t) where
  begin _ h := by
    refine ⟨h, ?_, ?_, ?_⟩
    · rintro rows ⟨⟩
    · rintro f g l key ⟨⟩
    · rintro f p msg ⟨⟩
  load _ _ h := by
    refine ⟨h, ?_, ?_, ?_⟩
    · rintro rows ⟨⟩
    · rintro f g l key ⟨⟩
    · rintro f p msg ⟨⟩
  reserve _ _ _ _ _ h hgen := by
    refine ⟨h, ?_, ?_, ?_⟩
    · rintro rows ⟨⟩
    · rintro f g l key ⟨⟩
      exact hgen
    · rintro f p msg ⟨⟩
  finish _ h := by
    refine ⟨h, ?_, ?_, ?_⟩
    · rintro rows ⟨⟩
    · rintro f g l key ⟨⟩
    · rintro f p msg ⟨⟩

/-- A MAIL of `alice`, from its first call to its answer, while the bucket of everybody is full. -/
theorem Pacer.admits {ok : Pacer → PacerMove → Prop} {lim : Limiters} {passes : List Pass}
    (hok : AllowsMail oneLimit ok) (hr : Reach (pacer oneLimit) ok ⟨lim, [], passes⟩)
    (hrows : lim.rows lim.gen = oneLimit.enabled)
    (hb : lim.buckets lim.gen .inbound "*" = some everybody) :
    Reach (pacer oneLimit) ok (Pacer.served ⟨lim, [], passes⟩) := by
  have hbuilt : onePolicy.Built (lim.rows lim.gen) := ⟨.plain, _, hrows.symm, rfl⟩
  have hzero : nanoseconds ((everybody.reserve lim.now).1.timeToAct - lim.now) = 0 := by
    rw [everybody_acts, sub_self]
    exact nanoseconds_eq_zero.mpr le_rfl
  have hbucket : onePolicy.limiter.bucket "acct:7" = some ("*", ⟨1, 1⟩) := by decide
  let loaded : Flight :=
    (Flight.start aliceAttempt).next (o := .ask .loadPolicy) aliceAsks (some onePolicy) lim.gen []
  have hload : PacerStep oneLimit ⟨lim, [.start aliceAttempt], passes⟩
      (.call (.start aliceAttempt) (.ask .loadPolicy)) ⟨lim, [loaded], passes⟩ :=
    PacerStep.call_alone passes alice_starts (.policy hbuilt)
  have hreserve := Effect.reserve (f := loaded) (g := .inbound) hbucket hb
  rw [hzero] at hreserve
  have hask := PacerStep.call_alone (t := oneLimit) passes alice_asks hreserve
  have hbegin : Reach (pacer oneLimit) ok ⟨lim, [.start aliceAttempt], passes⟩ :=
    .step hr (hok.begin _ hrows) (.begin aliceAttempt)
  have hloaded : Reach (pacer oneLimit) ok ⟨lim, [loaded], passes⟩ :=
    .step hbegin (hok.load _ _ hrows) hload
  have hasked := Reach.step hloaded (hok.reserve _ _ _ _ _ hrows rfl) hask
  have hanswered : (loaded.next (o := .ask (.reserve .inbound onePolicy.limiter "acct:7")) aliceEnds
      (some 0) lim.gen [some (lim.booking lim.gen .inbound "*" everybody)]).prog = .pure true := rfl
  exact .step hasked (hok.finish _ hrows) (PacerStep.finish_alone passes hanswered)

/-- One MAIL is let in, a second later the limiters are replaced, and another one is. -/
theorem rate_limits_hold_two :
    ∃ s : Pacer, Reach (pacer oneLimit) (Pacer.Fair oneLimit) s ∧ s.passes.length = 2 ∧
      s.Within oneLimit := by
  have hreads : oneLimit.Reads oneLimit.enabled := ⟨_, .refl _, List.prefix_rfl⟩
  have hfirst : Reach (pacer oneLimit) (Pacer.Fair oneLimit) Pacer.start.served :=
    Pacer.admits (Pacer.Fair.mail oneLimit) (.init ⟨hreads, rfl, rfl, rfl, rfl⟩) rfl rfl
  have htick : Reach (pacer oneLimit) (Pacer.Fair oneLimit)
      { Pacer.start.served with lim := Pacer.start.served.lim.tick 1 } := by
    refine .step hfirst (l := .tick) ⟨rfl, ?_, ?_, ?_⟩ (.tick zero_le_one)
    · rintro rows ⟨⟩
    · rintro f g l key ⟨⟩
    · rintro f p msg ⟨⟩
  have hreload : Reach (pacer oneLimit) (Pacer.Fair oneLimit)
      { Pacer.start.served with
        lim := (Pacer.start.served.lim.tick 1).reload oneLimit.enabled } := by
    refine .step htick (l := .reload oneLimit.enabled) ⟨rfl, ?_, ?_, ?_⟩ (.reload hreads)
    · rintro rows ⟨⟩
      refine ⟨rfl, fun g name b hb => ?_⟩
      rcases Limiters.put_apply hb with ⟨-, -, -, rfl⟩ | ⟨-, hb⟩
      · -- the token it took is back
        show min 1 (everybody.level 0 - 1 + max (1 - 0) 0 * 1) = (1 : Rat)
        rw [everybody_level]
        norm_num
      · obtain ⟨c, hc, rfl⟩ := Option.map_eq_some_iff.mp hb
        exact TokenBucket.level_new (LimitTable.named_checks (t := oneLimit) hc).1.le
    · rintro f g l key ⟨⟩
    · rintro f p msg ⟨⟩
  have hsecond := Pacer.admits (Pacer.Fair.mail oneLimit) hreload rfl rfl
  exact ⟨_, hsecond, rfl, rate_limits_hold hsecond⟩

/-- Two MAILs at the same instant, with a reload between them. -/
theorem reload_refills_bucket :
    ¬ ∀ (t : LimitTable) (s : Pacer), Reach (pacer t) anyStep s → s.Within t := by
  intro hclaim
  have hreads : oneLimit.Reads oneLimit.enabled := ⟨_, .refl _, List.prefix_rfl⟩
  have hany : AllowsMail oneLimit anyStep :=
    ⟨fun _ _ => trivial, fun _ _ _ => trivial, fun _ _ _ _ _ _ _ => trivial, fun _ _ => trivial⟩
  have hfirst : Reach (pacer oneLimit) anyStep Pacer.start.served :=
    Pacer.admits hany (.init ⟨hreads, rfl, rfl, rfl, rfl⟩) rfl rfl
  have hreload : Reach (pacer oneLimit) anyStep
      { Pacer.start.served with lim := Pacer.start.served.lim.reload oneLimit.enabled } :=
    .step hfirst (l := .reload oneLimit.enabled) trivial (.reload hreads)
  have hsecond := Pacer.admits hany hreload rfl rfl
  have htwo : ((([alicePass 0 1, alicePass 0 0].filter fun p => p.bucket oneLimit .inbound = some "*" ∧
      0 ≤ p.admitted .inbound ∧ p.admitted .inbound ≤ 0 + 0).length : Nat) : Rat) ≤
        (1 : Int) + 1 * 0 :=
    (hclaim oneLimit _ hsecond).window .inbound "*" "*" ⟨1, 1⟩ (by decide) 0 0 le_rfl
  have hall : ∀ p ∈ [alicePass 0 1, alicePass 0 0], decide (p.bucket oneLimit .inbound = some "*" ∧
      (0 : Rat) ≤ p.admitted .inbound ∧ p.admitted .inbound ≤ 0 + 0) = true := by
    have hone : ∀ gen, decide ((alicePass 0 gen).bucket oneLimit .inbound = some "*" ∧
        (0 : Rat) ≤ (alicePass 0 gen).admitted .inbound ∧
          (alicePass 0 gen).admitted .inbound ≤ 0 + 0) = true := by
      intro gen
      rw [alicePass_bucket, alicePass_admitted]
      exact decide_eq_true ⟨rfl, le_rfl, (add_zero 0).ge⟩
    exact List.forall_mem_cons.mpr ⟨hone 1, List.forall_mem_singleton.mpr (hone 0)⟩
  rw [List.filter_eq_self.mpr hall] at htwo
  norm_num at htwo

end Novamail

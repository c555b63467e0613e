/-
  The pool of one `SMTPProvider`, under any number of sends and closes.

  The mutex guards three sections: take the last idle connection, put one back, empty the pool.
  Everything else a program does to a connection it does with the connection in hand.  The books kept
  beside the sockets say what was run on each connection, with the answers.

  The invariant counts places: a connection is idle or in the hands of a program, in one place only.
-/
import Novamail.Delivery.Pools

namespace Novamail.Wire

open Novamail.Core

/-! ## The service -/

/-- What runs on the instance. -/
inductive PoolTask where
  | send (m : Message) (fuel : Nat)
  | close
  deriving DecidableEq, Repr

/-- The program of a task. -/
def PoolTask.body (E : Env) (p : Ref) (cfg : SMTPConfig) : PoolTask → Wired Unit
  | .send m fuel => (fun _ => ()) <$> smtpSend E.defaultMaxIdle fuel p cfg m
  | .close => closePool p

/-- The sockets, and the commands run on each connection with their answers, oldest first. -/
structure Books where
  net : Net := {}
  log : Nat → List (Verb × Option NetErr) := fun _ => []

/-- A call is entered in the books. -/
def WireOp.enter (log : Nat → List (Verb × Option NetErr)) :
    (o : WireOp) → o.Ret → Nat → List (Verb × Option NetErr)
  | ⟨_, .run c v⟩, e => Function.update log c (log c ++ [(v, e)])
  | _, _ => log

/-- The last command on the connection was a RSET, and it succeeded. -/
def Books.Reset (b : Books) (c : Nat) : Prop := ∃ es, b.log c = es ++ [(.reset, none)]

/-- A program calls on its own instance only, and puts a connection into the pool only right after a
    RSET of it that succeeded. -/
def resetting (p : Ref) : Discipline WireOp.Ret (Option Nat) where
  allow g o := o.ref = p ∧ ∀ c bound, o.cmd = .giveIdle c bound → g = some c
  next _ o r :=
    match o, r with
    | ⟨_, .run c .reset⟩, none => some c
    | _, _ => none

/-- The instance. -/
def own (n : Nat) (cfg : SMTPConfig) : Ref := ⟨n, .smtp cfg⟩

/-- **One `SMTPProvider`.**  Sends and closes start at any time. -/
def smtpPool (E : Env) (n : Nat) (cfg : SMTPConfig) :
    Service Books PoolTask WireOp.Ret Unit Empty Unit (List Held × Option Nat) where
  init s := s = {}
  starts _ _ := True
  body := PoolTask.body E (own n cfg) cfg
  exec s _ o r _ s' := o.Answers s.net r ∧ s' = ⟨o.after s.net r, o.enter s.log r⟩
  world _ _ _ := False
  discipline _ := (holding E).prod (resetting (own n cfg))
  birth _ := ([], none)

/-! ## RSET before the pool -/

section

variable {p : Ref} {α : Type} {fin : Option Nat → α → Prop}

/-- A call that puts nothing into the pool. -/
theorem obeys_resetting {o : Cmd} {f : (WireOp.mk p o).Ret → Wired α} {g : Option Nat}
    (hnot : ∀ c bound, o ≠ .giveIdle c bound)
    (hf : ∀ g r, (f r).Obeys (resetting p) fin g) :
    (Prog.lift (WireOp.mk p o) >>= f).Obeys (resetting p) fin g :=
  ⟨⟨rfl, fun c bound h => absurd h (hnot c bound)⟩, fun r => hf _ r⟩

/-- Any history will do. -/
def Free (m : Wired α) (p : Ref) : Prop := ∀ g, m.Obeys (resetting p) (fun _ _ => True) g

theorem close_free (c : Nat) : Free (close p c) p :=
  fun _ => ⟨⟨rfl, nofun⟩, fun _ => trivial⟩

/-- Close, then a result. -/
theorem close_pure_free (c : Nat) (a : α) : Free (close p c >>= fun _ => pure a) p :=
  fun _ => obeys_resetting nofun fun _ _ => trivial

theorem rcpts_free (c : Nat) (rs : List String) : Free (rcpts p c rs) p := by
  induction rs with
  | nil => exact fun _ => trivial
  | cons r rs ih =>
    intro g
    refine obeys_resetting nofun fun g e => ?_
    cases e with
    | some e => exact trivial
    | none => exact ih g

theorem sendMail_free (c : Nat) (m : Message) : Free (sendMail p c m) p := by
  intro g
  refine obeys_resetting nofun fun g e => ?_
  cases e with
  | some e => exact trivial
  | none =>
    refine (rcpts_free c m.envelope.rcptTo g).bind fun g r _ => ?_
    cases r with
    | some r => exact trivial
    | none => exact obeys_resetting nofun fun _ _ => trivial

theorem dialConn_free (cfg : SMTPConfig) : Free (dialConn p cfg) p := by
  intro g
  refine obeys_resetting nofun fun g r => ?_
  cases r with
  | error e => exact trivial
  | ok c =>
    show Prog.Obeys _ _ _ (if cfg.tlsMode = .starttls then _ else _)
    split
    · refine obeys_resetting nofun fun g e => ?_
      cases e with
      | some e => exact close_pure_free c _ g
      | none => exact trivial
    · exact trivial

theorem greet_free (cfg : SMTPConfig) (c : Nat) : Free (greet p cfg c) p := by
  intro g
  have hhello : (if cfg.helo ≠ "" then run p c (.hello cfg.helo) else pure none : Wired _).Obeys
      (resetting p) (fun _ _ => True) g := by
    split
    · exact ⟨⟨rfl, nofun⟩, fun _ => trivial⟩
    · exact trivial
  refine hhello.bind fun g e _ => ?_
  cases e with
  | some e => exact trivial
  | none =>
    dsimp only
    split
    · exact ⟨⟨rfl, nofun⟩, fun _ => trivial⟩
    · exact trivial

theorem dialReady_free (cfg : SMTPConfig) : Free (dialReady p cfg) p := by
  intro g
  refine (dialConn_free cfg g).bind fun g r _ => ?_
  cases r with
  | error e => exact trivial
  | ok c =>
    refine (greet_free cfg c g).bind fun g e _ => ?_
    cases e with
    | some e => exact close_pure_free c _ g
    | none => exact trivial

theorem acquire_free (cfg : SMTPConfig) (fuel : Nat) : Free (acquire p cfg fuel) p := by
  induction fuel with
  | zero => exact fun _ => trivial
  | succ fuel ih =>
    intro g
    refine obeys_resetting nofun fun g r => ?_
    cases r with
    | none => exact (dialReady_free cfg g).bind fun _ _ _ => trivial
    | some c =>
      refine obeys_resetting nofun fun g e => ?_
      cases e with
      | none => exact trivial
      | some e => exact obeys_resetting nofun fun g _ => ih g

/-- A connection goes back with a RSET just behind it. -/
theorem release_free (bound c : Nat) :
    (release p bound c).Obeys (resetting p) (fun _ _ => True) (some c) := by
  refine ⟨⟨rfl, ?_⟩, fun kept => ?_⟩
  · intro d b h
    cases h
    rfl
  · cases kept with
    | true => exact trivial
    | false => exact close_free c _

theorem smtpSend_free (dflt fuel : Nat) (cfg : SMTPConfig) (m : Message) :
    Free (smtpSend dflt fuel p cfg m) p := by
  intro g
  unfold smtpSend
  split
  · exact trivial
  refine (acquire_free cfg fuel g).bind fun g r _ => ?_
  match r with
  | none => exact trivial
  | some (.error e) => exact trivial
  | some (.ok c) =>
    refine (sendMail_free c m g).bind fun g r _ => ?_
    cases r with
    | some r => exact close_pure_free c _ g
    | none =>
      refine ⟨⟨rfl, nofun⟩, fun e => ?_⟩
      cases e with
      | some e => exact close_pure_free c _ _
      | none => exact (release_free _ c).bind fun _ _ _ => trivial

theorem closePool_free : Free (closePool p) p := by
  have hall : ∀ cs, Free (closeAll p cs) p := by
    intro cs
    induction cs with
    | nil => exact fun _ => trivial
    | cons c cs ih => exact fun g => obeys_resetting nofun fun g _ => ih g
  exact fun g => obeys_resetting nofun fun g cs => hall cs g

end

variable {E : Env} {n : Nat} {cfg : SMTPConfig}

/-- **Every program of the instance** keeps to both disciplines, and ends with empty hands. -/
theorem PoolTask.body_obeys (t : PoolTask) :
    (t.body E (own n cfg) cfg).Obeys ((holding E).prod (resetting (own n cfg)))
      (fun h _ => h.1 = []) ([], none) := by
  cases t with
  | send m fuel =>
    have hsend := (smtpSend_holding (E := E) (p := own n cfg) rfl fuel m).prod
      (smtpSend_free (p := own n cfg) E.defaultMaxIdle fuel cfg m none)
    exact hsend.bind fun _ _ h => h.1
  | close => exact (closePool_holding.prod (closePool_free none)).mono fun _ _ h => h.1

/-! ## Places -/

/-- The instance with its tasks. -/
abbrev PoolState := Pool Books PoolTask WireOp.Ret Unit (List Held × Option Nat)
/-- A task that runs on it. -/
abbrev PoolRun := Running PoolTask WireOp.Ret Unit (List Held × Option Nat)

/-- The connections in hand. -/
def handed (h : List Held) : Multiset Nat := (h.map (·.conn) : List Nat)

/-- The connections a task has in hand. -/
def PoolRun.hand (r : PoolRun) : Multiset Nat := handed r.past.1

/-- Where the connections of an instance are: idle, or in some hand. -/
def PoolState.places (w : PoolState) (p : Ref) : Multiset Nat :=
  (w.shared.net.idle p : Multiset Nat) + w.running.bind PoolRun.hand

section

variable {s : Net} {h : List Held} {o : WireOp} {r : o.Ret} {p : Ref} {c : Nat}

theorem mem_handed : c ∈ handed h ↔ ∃ x ∈ h, x.conn = c := by
  unfold handed
  rw [Multiset.mem_coe, List.mem_map]

/-- Letting go leaves less in hand. -/
theorem handed_eraseP (h : List Held) (f : Held → Bool) : handed (h.eraseP f) ≤ handed h :=
  Multiset.coe_le.mpr ((List.eraseP_sublist.map _).subperm)

/-- What is learnt of the connections does not move them. -/
theorem handed_map (h : List Held) (f : Held → Held) (hf : ∀ x, (f x).conn = x.conn) :
    handed (h.map f) = handed h := by
  unfold handed
  rw [List.map_map]
  exact congrArg _ (List.map_congr_left fun x _ => hf x)

/-- **One call moves connections, and only a dial brings one**, which was nowhere before. -/
theorem WireOp.places_le (ha : o.Answers s r) (hp : Permits E h o) (ho : o.ref = p) :
    ((o.after s r).idle p : Multiset Nat) + handed (o.next h r) ≤ (s.idle p : Multiset Nat) + handed h ∨
      ∃ c, s.conns c = none ∧ (o.after s r).conns c ≠ none ∧
        ((o.after s r).idle p : Multiset Nat) + handed (o.next h r) =
          c ::ₘ ((s.idle p : Multiset Nat) + handed h) := by
  subst ho
  obtain ⟨p, cmd⟩ := o
  have hsame : ∀ (s' : Net) (h' : List Held), s'.idle p = s.idle p → handed h' ≤ handed h →
      (s'.idle p : Multiset Nat) + handed h' ≤ (s.idle p : Multiset Nat) + handed h := by
    intro s' h' hs hh
    rw [hs]
    exact add_le_add_right hh _
  cases cmd with
  | dial addr tls =>
    cases r with
    | error e => exact .inl le_rfl
    | ok c =>
      refine .inr ⟨c, ha, ?_, Multiset.add_cons c (s.idle p : Multiset Nat) (handed h)⟩
      show Function.update s.conns c _ c ≠ none
      rw [Function.update_self]
      exact Option.some_ne_none _
  | run c v =>
    cases v with
    | startTLS cfg =>
      cases r with
      | none =>
        exact .inl (hsame _ _ rfl (handed_map h (fun x => { x with tls := true }) fun _ => rfl).le)
      | some e => exact .inl le_rfl
    | _ => exact .inl le_rfl
  | extension c name =>
    cases r with
    | true => exact .inl le_rfl
    | false =>
      by_cases hname : name = "STARTTLS"
      · subst hname
        exact .inl (hsame _ _ rfl (handed_map h (fun x => { x with bare := true }) fun _ => rfl).le)
      · have hafter : WireOp.after s ⟨p, .extension c name⟩ false = s := if_neg hname
        have hnext : WireOp.next h ⟨p, .extension c name⟩ false = h := if_neg hname
        rw [hafter, hnext]
        exact .inl le_rfl
  | close c => exact .inl (hsame _ _ rfl (handed_eraseP h _))
  | takeIdle =>
    cases r with
    | none =>
      -- an empty pool stays as it is
      have hnil : s.idle p = [] := List.getLast?_eq_none_iff.mp ha.symm
      refine .inl (hsame _ _ ?_ le_rfl)
      show Function.update s.idle p (s.idle p).dropLast p = s.idle p
      rw [Function.update_self, hnil]
      rfl
    | some c =>
      have hlast : (s.idle p).dropLast ++ [c] = s.idle p :=
        List.dropLast_append_getLast? c ha.symm
      left
      show (Function.update s.idle p (s.idle p).dropLast p : Multiset Nat) + (c ::ₘ handed h) ≤ _
      rw [Function.update_self, Multiset.add_cons, ← Multiset.cons_add]
      refine add_le_add_left ?_ _
      conv_rhs => rw [← hlast]
      rw [← Multiset.coe_add, Multiset.coe_singleton, Multiset.add_comm, Multiset.singleton_add]
  | giveIdle c bound =>
    cases r with
    | false => exact .inl le_rfl
    | true =>
      obtain ⟨tls, bare, rfl, -⟩ := hp
      left
      show (Function.update s.idle p (s.idle p ++ [c]) p : Multiset Nat) +
        handed (List.eraseP (fun x : Held => x.conn = c) [⟨p, c, tls, bare⟩]) ≤ _
      rw [Function.update_self, eraseP_held ⟨p, c, tls, bare⟩ [], ← Multiset.coe_add]
      exact (Multiset.add_zero _).le
  | drain =>
    have hr : r = s.idle p := ha
    have hh : h = [] := hp
    left
    subst hr hh
    show (Function.update s.idle p [] p : Multiset Nat) + handed ((s.idle p).map (pooled p)) ≤ _
    have hmap : ((s.idle p).map (pooled p)).map (·.conn) = s.idle p := by
      rw [List.map_map]
      exact List.map_id _
    unfold handed
    rw [Function.update_self, hmap]
    exact (Multiset.add_comm _ _).le
  | token | refresh | lookupMX | reserve => exact .inl le_rfl

/-- A call is entered for a connection in hand. -/
theorem WireOp.enter_of_notMem {log : Nat → List (Verb × Option NetErr)} (hp : Permits E h o)
    (hc : c ∉ handed h) : o.enter log r c = log c := by
  obtain ⟨q, cmd⟩ := o
  cases cmd with
  | run d v =>
    obtain ⟨tls, bare, rfl, -⟩ := hp
    have hne : c ≠ d := by
      rintro rfl
      exact hc (mem_handed.mpr ⟨_, List.mem_singleton_self _, rfl⟩)
    exact Function.update_of_ne hne _ _
  | _ => rfl

/-- A pool that was shut down stays shut down, and empty. -/
theorem WireOp.after_closed (ha : o.Answers s r) (p : Ref) :
    (s.closed p = true → (o.after s r).closed p = true) ∧
      ((s.closed p = true → s.idle p = []) →
        (o.after s r).closed p = true → (o.after s r).idle p = []) := by
  have hsame : ∀ s' : Net, s'.closed = s.closed → s'.idle = s.idle →
      (s.closed p = true → s'.closed p = true) ∧
        ((s.closed p = true → s.idle p = []) → s'.closed p = true → s'.idle p = []) := by
    intro s' hc hi
    rw [hc, hi]
    exact ⟨id, id⟩
  obtain ⟨q, cmd⟩ := o
  cases cmd with
  | dial => cases r with | error | ok => exact hsame _ rfl rfl
  | run d v =>
    cases v with
    | startTLS => cases r with | none | some => exact hsame _ rfl rfl
    | _ => exact hsame _ rfl rfl
  | extension d name =>
    cases r with
    | true => exact hsame _ rfl rfl
    | false =>
      show (_ → (if name = "STARTTLS" then _ else s).closed p = true) ∧
        (_ → (if name = "STARTTLS" then _ else s).closed p = true →
          (if name = "STARTTLS" then _ else s).idle p = [])
      split
      · exact hsame _ rfl rfl
      · exact hsame _ rfl rfl
  | takeIdle =>
    refine ⟨id, fun hempty hclosed => ?_⟩
    show Function.update s.idle q (s.idle q).dropLast p = []
    by_cases hq : p = q
    · subst hq
      rw [Function.update_self, hempty hclosed]
      rfl
    · rw [Function.update_of_ne hq]
      exact hempty hclosed
  | giveIdle d bound =>
    cases r with
    | false => exact hsame _ rfl rfl
    | true =>
      refine ⟨id, fun hempty hclosed => ?_⟩
      show Function.update s.idle q (s.idle q ++ [d]) p = []
      by_cases hq : p = q
      · -- a pool that is shut down takes nothing back
        subst hq
        have hroom : true = !(s.closed p || bound ≤ (s.idle p).length) := ha
        rw [show s.closed p = true from hclosed] at hroom
        cases hroom
      · rw [Function.update_of_ne hq]
        exact hempty hclosed
  | drain =>
    show (_ → Function.update s.closed q true p = true) ∧
      (_ → Function.update s.closed q true p = true → Function.update s.idle q [] p = [])
    by_cases hq : p = q
    · subst hq
      simp
    · rw [Function.update_of_ne hq, Function.update_of_ne hq]
      exact ⟨id, id⟩
  | close | token | refresh | lookupMX | reserve => exact hsame _ rfl rfl

end

/-! ## The invariant -/

/-- What holds of the instance `p` and its tasks. -/
structure PoolState.Kept (E : Env) (p : Ref) (w : PoolState) : Prop where
  own : ∀ q, q ≠ p → w.shared.net.idle q = []
  bound : (w.shared.net.idle p).length ≤ p.provider.bound E
  /-- No connection is in two places. -/
  nodup : (w.places p).Nodup
  there : ∀ c ∈ w.places p, w.shared.net.conns c ≠ none
  accounted : ∀ c, w.shared.net.Open c → c ∈ w.places p
  retired : w.shared.net.closed p = true → w.shared.net.idle p = []
  warm : ∀ c ∈ w.shared.net.idle p, w.shared.Reset c
  /-- A program about to give a connection back has it in hand, reset. -/
  fresh : ∀ r : PoolRun, r ∈ w.running → ∀ c, r.past.2 = some c → c ∈ r.hand ∧ w.shared.Reset c

section

variable {p : Ref} {w : PoolState}

/-- The places around one task. -/
theorem PoolState.places_cons {r : PoolRun} {rs : Multiset PoolRun} (b : Books) :
    PoolState.places ⟨b, r ::ₘ rs⟩ p =
      ((b.net.idle p : Multiset Nat) + r.hand) + rs.bind PoolRun.hand := by
  show (b.net.idle p : Multiset Nat) + (r ::ₘ rs).bind PoolRun.hand = _
  rw [Multiset.cons_bind, Multiset.add_assoc]

/-- A connection in one hand is neither idle nor in another. -/
theorem PoolState.Kept.apart (h : w.Kept E p) {r : PoolRun} {rs : Multiset PoolRun}
    (hr : w.running = r ::ₘ rs) {c : Nat} (hc : c ∈ r.hand) :
    c ∉ w.shared.net.idle p ∧ ∀ r' : PoolRun, r' ∈ rs → c ∉ r'.hand := by
  have hnodup : (PoolState.places ⟨w.shared, r ::ₘ rs⟩ p).Nodup := hr ▸ h.nodup
  rw [PoolState.places_cons, Multiset.nodup_add, Multiset.nodup_add] at hnodup
  obtain ⟨⟨-, -, hidle⟩, -, hrest⟩ := hnodup
  refine ⟨fun hmem => ?_, fun r' hr' hc' => ?_⟩
  · exact Multiset.disjoint_left.mp hidle (Multiset.mem_coe.mpr hmem) hc
  · exact Multiset.disjoint_left.mp hrest (Multiset.mem_add.mpr (.inr hc))
      (Multiset.mem_bind.mpr ⟨r', hr', hc'⟩)

/-- The only call after which a program may give a connection back. -/
theorem resetting_next {g : Option Nat} {o : WireOp} {a : o.Ret} {c : Nat}
    (h : (resetting p).next g o a = some c) :
    ∃ q, o = ⟨q, .run c .reset⟩ ∧ ∀ log, o.enter log a c = log c ++ [(.reset, none)] := by
  obtain ⟨q, cmd⟩ := o
  cases cmd with
  | run d v =>
    cases v with
    | reset =>
      cases a with
      | none =>
        cases h
        exact ⟨q, rfl, fun log => Function.update_self ..⟩
      | some e => cases h
    | _ => cases h
  | _ => cases h

/-- **One call keeps it.** -/
theorem PoolState.Kept.call (h : w.Kept E p) {r : PoolRun} {rs : Multiset PoolRun}
    (hr : w.running = r ::ₘ rs) {o : WireOp} {a : o.Ret} {r' : PoolRun}
    (ha : o.Answers w.shared.net a) (hp : Permits E r.past.1 o) (ho : o.ref = p)
    (hgive : ∀ c bound, o.cmd = .giveIdle c bound → r.past.2 = some c)
    (hpast : r'.past = (o.next r.past.1 a, (resetting p).next r.past.2 o a)) :
    PoolState.Kept E p ⟨⟨o.after w.shared.net a, o.enter w.shared.log a⟩, r' ::ₘ rs⟩ := by
  have hmem : r ∈ w.running := hr ▸ Multiset.mem_cons_self r rs
  have hhand : r'.hand = handed (o.next r.past.1 a) := by
    unfold PoolRun.hand
    rw [hpast]
  have hbefore : w.places p =
      ((w.shared.net.idle p : Multiset Nat) + r.hand) + rs.bind PoolRun.hand := by
    rw [← PoolState.places_cons w.shared, ← hr]
  have hafter : PoolState.places ⟨⟨o.after w.shared.net a, o.enter w.shared.log a⟩, r' ::ₘ rs⟩ p =
      (((o.after w.shared.net a).idle p : Multiset Nat) + handed (o.next r.past.1 a)) +
        rs.bind PoolRun.hand := by
    rw [PoolState.places_cons, hhand]
  have hplaces := WireOp.places_le ha hp ho
  -- a connection that is there stays there
  have hthere : ∀ c, w.shared.net.conns c ≠ none → (o.after w.shared.net a).conns c ≠ none := by
    intro c hc
    obtain ⟨conn, hconn⟩ := Option.ne_none_iff_exists'.mp hc
    obtain ⟨conn', hconn', -⟩ := WireOp.after_conns ha hconn
    rw [hconn']
    exact Option.some_ne_none conn'
  have hown : ∀ q, q ≠ p → (o.after w.shared.net a).idle q = [] := by
    intro q hq
    have hother : ∀ cmd, o ≠ ⟨q, cmd⟩ := by
      rintro cmd rfl
      exact hq ho
    rcases WireOp.idle_cases ha q with hi | ⟨heq, -⟩ | ⟨c, bound, heq, -⟩ | ⟨heq, -⟩
    · rw [hi]
      exact h.own q hq
    · exact absurd heq (hother _)
    · exact absurd heq (hother _)
    · exact absurd heq (hother _)
  have hlog : ∀ c, c ∉ r.hand → o.enter w.shared.log a c = w.shared.log c :=
    fun c hc => WireOp.enter_of_notMem hp hc
  refine ⟨hown, ?_, ?_, ?_, ?_, (WireOp.after_closed ha p).2 h.retired, ?_, ?_⟩
  · -- bound
    show ((o.after w.shared.net a).idle p).length ≤ _
    have hb := h.bound
    rcases WireOp.idle_cases ha p with hi | ⟨-, hi⟩ | ⟨c, bound, rfl, hroom, hi⟩ | ⟨-, hi⟩
    · rw [hi]
      exact hb
    · rw [hi, List.length_dropLast]
      omega
    · obtain ⟨-, -, -, -, rfl⟩ := hp
      rw [hi, List.length_append, List.length_singleton]
      omega
    · rw [hi]
      exact Nat.zero_le _
  · -- nodup
    rw [hafter]
    have hnodup := h.nodup
    rw [hbefore] at hnodup
    rcases hplaces with hle | ⟨c, hnew, -, heq⟩
    · exact Multiset.nodup_of_le (add_le_add_left hle _) hnodup
    · rw [heq, Multiset.cons_add, Multiset.nodup_cons]
      exact ⟨fun hc => h.there c (hbefore ▸ hc) hnew, hnodup⟩
  · -- there
    intro c hc
    rw [hafter] at hc
    rcases hplaces with hle | ⟨d, -, hnew, heq⟩
    · exact hthere c (h.there c (hbefore ▸ Multiset.mem_of_le (add_le_add_left hle _) hc))
    · rw [heq, Multiset.cons_add, Multiset.mem_cons] at hc
      rcases hc with rfl | hc
      · exact hnew
      · exact hthere c (h.there c (hbefore ▸ hc))
  · -- accounted
    intro c hopen
    rw [hafter]
    have hplace : ((∃ x ∈ o.next r.past.1 a, x.conn = c) ∨
        ∃ q, c ∈ (o.after w.shared.net a).idle q) →
        c ∈ (((o.after w.shared.net a).idle p : Multiset Nat) + handed (o.next r.past.1 a)) +
          rs.bind PoolRun.hand := by
      intro hc
      refine Multiset.mem_add.mpr (.inl (Multiset.mem_add.mpr ?_))
      rcases hc with hx | ⟨q, hq⟩
      · exact .inr (mem_handed.mpr hx)
      · by_cases hqp : q = p
        · exact .inl (Multiset.mem_coe.mpr (hqp ▸ hq))
        · rw [hown q hqp] at hq
          exact absurd hq List.not_mem_nil
    rcases WireOp.after_open (h := r.past.1) hopen with hopen' | hx
    · have hc := h.accounted c hopen'
      rw [hbefore, Multiset.mem_add, Multiset.mem_add] at hc
      rcases hc with (hidle | hheld) | hrest
      · exact hplace (WireOp.after_warm ha (Multiset.mem_coe.mp hidle))
      · obtain ⟨x, hx, rfl⟩ := mem_handed.mp hheld
        exact hplace (WireOp.after_held hp hx hopen)
      · exact Multiset.mem_add.mpr (.inr hrest)
    · exact hplace (.inl hx)
  · -- warm
    intro c hc
    show ∃ es, o.enter w.shared.log a c = es ++ [(.reset, none)]
    rcases WireOp.after_idle ha hc with hidle | ⟨bound, rfl⟩
    · have hnot : c ∉ r.hand := fun hheld => (h.apart hr hheld).1 hidle
      rw [hlog c hnot]
      exact h.warm c hidle
    · exact (h.fresh r hmem c (hgive c bound rfl)).2
  · -- fresh
    intro r₁ hr₁ c hc
    show c ∈ r₁.hand ∧ ∃ es, o.enter w.shared.log a c = es ++ [(.reset, none)]
    rcases Multiset.mem_cons.mp hr₁ with rfl | hr₁
    · have hnext : (resetting p).next r.past.2 o a = some c := by
        rw [hpast] at hc
        exact hc
      obtain ⟨q, rfl, henter⟩ := resetting_next hnext
      obtain ⟨tls, bare, hheld, -⟩ := hp
      refine ⟨?_, w.shared.log c, henter w.shared.log⟩
      rw [hhand, hheld]
      exact mem_handed.mpr ⟨_, List.mem_singleton_self _, rfl⟩
    · obtain ⟨hheld, hreset⟩ := h.fresh r₁ (hr ▸ Multiset.mem_cons_of_mem hr₁) c hc
      have hnot : c ∉ r.hand := fun hin => (h.apart hr hin).2 r₁ hr₁ hheld
      rw [hlog c hnot]
      exact ⟨hheld, hreset⟩

end

section

variable {ok : PoolState → Act PoolTask WireOp.Ret Unit Empty Unit (List Held × Option Nat) → Prop}
variable {w : PoolState}

theorem PoolRun.obeys (h : Reach (smtpPool E n cfg).lts ok w) {r : PoolRun} (hr : r ∈ w.running) :
    r.rest.Obeys ((holding E).prod (resetting (own n cfg))) (fun h _ => h.1 = []) r.past :=
  Service.obeys (V := smtpPool E n cfg) (fun _ h _ => h.1 = []) PoolTask.body_obeys h r hr

/-- **The invariant holds** in every state that the instance reaches. -/
theorem pool_kept (h : Reach (smtpPool E n cfg).lts ok w) :
    PoolState.Kept E (own n cfg) w := by
  refine h.invariant (I := PoolState.Kept E (own n cfg)) ?_ ?_
  · rintro ⟨b, rs⟩ ⟨hinit, hquiet⟩
    rw [show b = {} from hinit, show rs = 0 from hquiet]
    refine ⟨fun _ _ => rfl, Nat.zero_le _, Multiset.nodup_zero, ?_, ?_, nofun, nofun, ?_⟩
    · exact fun c hc => absurd hc (Multiset.notMem_zero c)
    · rintro c ⟨conn, hc, -⟩
      cases hc
    · exact fun r hr => absurd hr (Multiset.notMem_zero r)
  · intro w l w' hreach hkept _ hst
    cases hst with
    | @start t ht =>
      -- a task starts with empty hands
      have hplaces : PoolState.places ⟨w.shared, (smtpPool E n cfg).launch t ::ₘ w.running⟩
          (own n cfg) = w.places (own n cfg) := by
        rw [PoolState.places_cons]
        show _ + (0 : Multiset Nat) + _ = _
        rw [Multiset.add_zero]
        rfl
      refine ⟨hkept.own, hkept.bound, ?_, ?_, ?_, hkept.retired, hkept.warm, ?_⟩
      · rw [hplaces]
        exact hkept.nodup
      · rw [hplaces]
        exact hkept.there
      · rw [hplaces]
        exact hkept.accounted
      · intro r hr c hc
        rcases Multiset.mem_cons.mp hr with rfl | hr
        · cases hc
        · exact hkept.fresh r hr c hc
    | @call r rs o k a f s hr hk hx =>
      obtain ⟨ha, rfl⟩ := hx
      have hob := PoolRun.obeys hreach (hr ▸ Multiset.mem_cons_self r rs)
      rw [hk] at hob
      obtain ⟨hp, ho, hgive⟩ := hob.1
      exact hkept.call hr ha hp ho hgive rfl
    | @finish r rs a hr hk =>
      have hob := PoolRun.obeys hreach (hr ▸ Multiset.mem_cons_self r rs)
      rw [hk] at hob
      -- a task ends with empty hands
      have hplaces : w.places (own n cfg) = PoolState.places ⟨w.shared, rs⟩ (own n cfg) := by
        have hcons : PoolState.places ⟨w.shared, r ::ₘ rs⟩ (own n cfg) =
            ((w.shared.net.idle (own n cfg) : Multiset Nat) + PoolRun.hand r) +
              rs.bind PoolRun.hand :=
          PoolState.places_cons w.shared
        rw [← hr] at hcons
        have hempty : r.past.1 = [] := hob
        have hhand : PoolRun.hand r = 0 := by
          unfold PoolRun.hand
          rw [hempty]
          rfl
        rw [hhand, Multiset.add_zero] at hcons
        exact hcons
      refine ⟨hkept.own, hkept.bound, ?_, ?_, ?_, hkept.retired, hkept.warm, ?_⟩
      · rw [← hplaces]
        exact hkept.nodup
      · rw [← hplaces]
        exact hkept.there
      · rw [← hplaces]
        exact hkept.accounted
      · exact fun r' hr' => hkept.fresh r' (hr ▸ Multiset.mem_cons_of_mem hr')
    | world hw => exact False.elim hw

/-- No step opens a pool again. -/
theorem closed_step {w w' : PoolState}
    {l : Act PoolTask WireOp.Ret Unit Empty Unit (List Held × Option Nat)} {p : Ref}
    (hst : (smtpPool E n cfg).Step w l w') (h : w.shared.net.closed p = true) :
    w'.shared.net.closed p = true := by
  cases hst with
  | start => exact h
  | call hr hk hx =>
    obtain ⟨ha, rfl⟩ := hx
    exact (WireOp.after_closed ha p).1 h
  | finish => exact h
  | world hw => exact False.elim hw

/-- A running `Close` is still before its locked section, or the pool is shut down. -/
theorem close_drains (h : Reach (smtpPool E n cfg).lts ok w) : ∀ r ∈ w.running,
    r.task = .close → r.rest = closePool (own n cfg) ∨ w.shared.net.closed (own n cfg) = true := by
  refine Service.running_invariant (V := smtpPool E n cfg)
    (Q := fun b r => r.task = .close →
      r.rest = closePool (own n cfg) ∨ b.net.closed (own n cfg) = true) ?_ ?_ ?_ h
  · rintro w t - - rfl
    exact .inl rfl
  · rintro w r o k a f b - - - hk ⟨ha, rfl⟩ hdrained hclose
    right
    rcases hdrained hclose with hrest | hclosed
    · -- the first call of `Close` is the locked section
      have hcall : (.call ⟨own n cfg, .drain⟩ fun cs => closeAll (own n cfg) cs) = Prog.call o k :=
        hrest.symm.trans hk
      cases hcall
      exact Function.update_self ..
    · exact (WireOp.after_closed ha _).1 hclosed
  · intro w w' l r _ _ hst _ hdrained hclose
    exact (hdrained hclose).imp_right (closed_step hst)

/-- A `Close` that has ended has shut the pool down. -/
theorem closed_of_finish {ls : List (Act PoolTask WireOp.Ret Unit Empty Unit (List Held × Option Nat))}
    (h : Trace (smtpPool E n cfg).lts ok ls w) :
    (∃ r a, .finish r a ∈ ls ∧ r.task = .close) → w.shared.net.closed (own n cfg) = true := by
  refine h.invariant (I := fun ls w => (∃ r a, .finish r a ∈ ls ∧ r.task = .close) →
    w.shared.net.closed (own n cfg) = true) ?_ ?_
  · rintro w - ⟨r, a, hmem, -⟩
    cases hmem
  · rintro ls w l w' htr ih hok hst ⟨r, a, hmem, hclose⟩
    rcases List.mem_append.mp hmem with hmem | hmem
    · exact closed_step hst (ih ⟨r, a, hmem, hclose⟩)
    · cases List.mem_singleton.mp hmem
      refine closed_step hst ?_
      cases hst with
      | finish hr hk =>
        have hmem : r ∈ w.running := hr ▸ Multiset.mem_cons_self r _
        refine (close_drains htr.reach r hmem hclose).resolve_left fun hrest => ?_
        have hpure : (.call ⟨own n cfg, .drain⟩ fun cs => closeAll (own n cfg) cs) = Prog.pure a :=
          hrest.symm.trans hk
        cases hpure

end

/-! ## The pool of an instance -/

/-- The call is on this connection. -/
def WireOp.On (c : Nat) (o : WireOp) : Prop :=
  match o.cmd with
  | .run d _ | .extension d _ | .close d | .giveIdle d _ => d = c
  | _ => False

theorem mem_hand_of_on {h : List Held} {o : WireOp} {c : Nat} (hp : Permits E h o) (ho : o.On c) :
    c ∈ handed h := by
  obtain ⟨q, cmd⟩ := o
  cases cmd with
  | run d v =>
    cases ho
    obtain ⟨tls, bare, rfl, -⟩ := hp
    exact mem_handed.mpr ⟨_, List.mem_singleton_self _, rfl⟩
  | extension d name =>
    cases ho
    obtain ⟨tls, bare, rfl⟩ := hp
    exact mem_handed.mpr ⟨_, List.mem_singleton_self _, rfl⟩
  | close d =>
    cases ho
    obtain ⟨tls, bare, hmem⟩ := hp
    exact mem_handed.mpr ⟨_, hmem, rfl⟩
  | giveIdle d bound =>
    cases ho
    obtain ⟨tls, bare, rfl, -⟩ := hp
    exact mem_handed.mpr ⟨_, List.mem_singleton_self _, rfl⟩
  | _ => exact False.elim ho

/-- **The pool invariant.**  In every run of any sends and closes: the pool keeps to its bound; a
    connection is idle once or in one hand, and a task calls only on what it has in hand; what is
    idle was reset last, with success; a `Close` that has ended has shut the pool down, and such a
    pool is empty; and while no send runs, every connection dialled is idle, closed, or in the hands
    of a running `Close`. -/
theorem smtp_pool_invariant
    {ls : List (Act PoolTask WireOp.Ret Unit Empty Unit (List Held × Option Nat))} {w : PoolState}
    (h : Trace (smtpPool E n cfg).lts anyStep ls w) :
    (w.shared.net.idle (own n cfg)).length ≤ maxIdle E.defaultMaxIdle cfg ∧
    (w.shared.net.idle (own n cfg)).Nodup ∧
    (∀ (r : PoolRun) (rs : Multiset PoolRun), w.running = r ::ₘ rs → ∀ c ∈ r.hand,
      c ∉ w.shared.net.idle (own n cfg) ∧ ∀ r' : PoolRun, r' ∈ rs → c ∉ r'.hand) ∧
    (∀ r : PoolRun, r ∈ w.running → ∀ o k, r.rest = .call o k → ∀ c, o.On c → c ∈ r.hand) ∧
    (∀ c ∈ w.shared.net.idle (own n cfg), w.shared.Reset c) ∧
    ((∃ r a, .finish r a ∈ ls ∧ r.task = .close) → w.shared.net.closed (own n cfg) = true) ∧
    (w.shared.net.closed (own n cfg) = true → w.shared.net.idle (own n cfg) = []) ∧
    ((∀ r ∈ w.running, r.task = .close) → ∀ c conn, w.shared.net.conns c = some conn →
      c ∈ w.shared.net.idle (own n cfg) ∨ conn.isOpen = false ∨
        ∃ r : PoolRun, r ∈ w.running ∧ r.task = .close ∧ c ∈ r.hand) := by
  have hkept := pool_kept h.reach
  refine ⟨hkept.bound, ?_, fun r rs hr c hc => hkept.apart hr hc, ?_, hkept.warm,
    closed_of_finish h, hkept.retired, ?_⟩
  · exact Multiset.coe_nodup.mp (Multiset.nodup_add.mp hkept.nodup).1
  · intro r hr o k hk c hon
    have hob := PoolRun.obeys h.reach hr
    rw [hk] at hob
    exact mem_hand_of_on hob.1.1 hon
  · intro hclose c conn hconn
    cases hopen : conn.isOpen with
    | false => exact .inr (.inl rfl)
    | true =>
      have hplace := hkept.accounted c ⟨conn, hconn, hopen⟩
      rcases Multiset.mem_add.mp hplace with hidle | hhand
      · exact .inl (Multiset.mem_coe.mp hidle)
      · obtain ⟨r, hr, hc⟩ := Multiset.mem_bind.mp hhand
        exact .inr (.inr ⟨r, hr, hclose r hr, hc⟩)

/-! ## A close that is under way -/

/-- A plain smarthost. -/
def plainHost : SMTPConfig :=
  { name := "sink", addr := "sink:25", tlsMode := .none, username := "", password := ""
    minTLSVersion := tls12 }

/-- A task that starts while no other runs. -/
theorem alone_start {b : Books} (h : Reach (smtpPool E n cfg).lts anyStep ⟨b, 0⟩) (t : PoolTask) :
    Reach (smtpPool E n cfg).lts anyStep ⟨b, {⟨t, ([], none), t.body E (own n cfg) cfg⟩}⟩ :=
  have hstart : (smtpPool E n cfg).Step ⟨b, 0⟩ (.start t)
      ⟨b, {⟨t, ([], none), t.body E (own n cfg) cfg⟩}⟩ := .start trivial
  h.step trivial hstart

/-- One send has left its connection warm. -/
theorem warm_reach : ∃ b : Books, b.net.idle (own 0 plainHost) = [0] ∧
    (∃ conn, b.net.conns 0 = some conn ∧ conn.isOpen = true) ∧
    Reach (smtpPool ⟨4, "relay"⟩ 0 plainHost).lts anyStep ⟨b, 0⟩ := by
  have hinit : Reach (smtpPool ⟨4, "relay"⟩ 0 plainHost).lts anyStep ⟨{}, 0⟩ := .init ⟨rfl, rfl⟩
  have h := alone_start hinit (.send note 1)
  have h := Service.Alone.call h none () trivial ⟨rfl, rfl⟩
  have h := Service.Alone.call h (.ok 0) () trivial ⟨rfl, rfl⟩
  have h := Service.Alone.call h none () trivial ⟨trivial, rfl⟩
  have h := Service.Alone.call h none () trivial ⟨trivial, rfl⟩
  have h := Service.Alone.call h none () trivial ⟨trivial, rfl⟩
  have h := Service.Alone.call h none () trivial ⟨trivial, rfl⟩
  have h := Service.Alone.call h true () trivial ⟨rfl, rfl⟩
  exact ⟨_, rfl, ⟨_, rfl, rfl⟩, Service.Alone.finish h trivial⟩

/-- The warm connection satisfies the invariant. -/
theorem smtp_pool_warm : ∃ b : Books, b.net.idle (own 0 plainHost) = [0] ∧ b.Reset 0 := by
  obtain ⟨b, hidle, -, hreach⟩ := warm_reach
  obtain ⟨ls, htrace⟩ := hreach.trace
  obtain ⟨-, -, -, -, hwarm, -⟩ := smtp_pool_invariant htrace
  exact ⟨b, hidle, hwarm 0 (hidle ▸ List.mem_singleton_self 0)⟩

/-- While no send runs, every connection dialled is idle or closed. -/
def PoolState.AllPut (p : Ref) (w : PoolState) : Prop :=
  (∀ r ∈ w.running, r.task = .close) → ∀ c conn, w.shared.net.conns c = some conn →
    c ∈ w.shared.net.idle p ∨ conn.isOpen = false

/-- A `Close` has taken the warm connection out of the pool, and not closed it yet. -/
theorem taken_by_close : ∃ w : PoolState,
    Reach (smtpPool ⟨4, "relay"⟩ 0 plainHost).lts anyStep w ∧ ¬w.AllPut (own 0 plainHost) := by
  obtain ⟨b, hidle, ⟨conn, hconn, hopen⟩, hreach⟩ := warm_reach
  have h := Service.Alone.call (alone_start hreach .close) [0] () trivial ⟨hidle.symm, rfl⟩
  refine ⟨_, h, ?_⟩
  intro hput
  have hempty : Function.update b.net.idle (own 0 plainHost) [] (own 0 plainHost) = [] :=
    Function.update_self ..
  rcases hput (fun r hr => by rw [Multiset.mem_singleton.mp hr]) 0 conn hconn with hmem | hclosed
  · exact List.not_mem_nil (hempty ▸ hmem)
  · rw [hopen] at hclosed
    cases hclosed

end Novamail.Wire

/-
  Playing a handler: an executable run.

  `Exec` leaves the answers open.  `Conf.call` fixes them: reads are answered by an `Oracle`, which
  carries the proof that the world admits its answers, and the luck of each call says whether a
  write fails and which id is drawn.  What is played is a run (`Conf.play_sound`), so a concrete
  execution of the deployment is a computation.  The active body refs alone no oracle can compute:
  the rows are a function on all ids, and only in a world that was reached are the drawn ids known
  to cover them.  A script reads them with a cue of their own.
-/
import Novamail.System.Keys
import Novamail.System.Whole

namespace Novamail

open Novamail.Core

/-- Answers to every query in every world, each one possible. -/
abbrev Oracle (net : Net) := (w : World) → (q : Query) → { r : q.Ret // q.Answers net w r }

/-- What chance decides in one call. -/
structure Luck where
  fate : Fate := .ok
  id : MsgId := ""

/-- Make the next call of a program; none when it has ended or the luck is not possible. -/
def Conf.call {net : Net} (t : Task) (ans : Oracle net) (c : Conf) (l : Luck) :
    Handler Bool → Option (Conf × Handler Bool)
  | .pure _ => none
  | .call (.write w) k =>
    if w.possible c.world l.fate then
      some ({ c with
        world := c.world.after t w l.fate, phase := c.phase.nextWrite l.fate.reported w },
        k l.fate.reported)
    else none
  | .call (.ask q) k =>
    let r := (ans c.world q).1
    some ({ c with world := c.world.record (t.markQuery q r), phase := c.phase.nextQuery q r }, k r)
  | .call (.settle v) k =>
    some ({ world := if v.requeues then c.world.giveBack c.held else c.world, held := none,
            phase := .done }, k ())
  | .call .newID k =>
    if l.id ∈ c.world.ids then none
    else
      some ({ c with world := { c.world with ids := l.id :: c.world.ids }, phase := .drawn l.id },
        k l.id)

/-- The answer to a call, and how the call ended. -/
def Conf.reply {net : Net} (ans : Oracle net) (c : Conf) (l : Luck) : (o : Op) → o.Ret × Fate
  | .write _ => (l.fate.reported, l.fate)
  | .ask q => ((ans c.world q).1, .ok)
  | .settle _ => ((), .ok)
  | .newID => (l.id, .ok)

/-- Run a program to its end, one call for each piece of luck. -/
def Conf.play {net : Net} (t : Task) (ans : Oracle net) (c : Conf) (m : Handler Bool) :
    List Luck → Option (Bool × Conf)
  | [] =>
    match m with
    | .pure a => some (a, c)
    | .call _ _ => none
  | l :: ls =>
    match m with
    | .pure a => some (a, c)
    | .call o k => (c.call t ans l (.call o k)).bind fun n => n.1.play t ans n.2 ls

section
variable {net : Net} {t : Task} {ans : Oracle net}

/-- A call that is made is a call that can be made. -/
theorem Conf.call_sound {c c' : Conf} {l : Luck} {o : Op} {k : o.Ret → Handler Bool}
    {m : Handler Bool} (h : c.call t ans l (.call o k) = some (c', m)) :
    m = k (c.reply ans l o).1 ∧ Exec net t c o (c.reply ans l o).1 (c.reply ans l o).2 c' := by
  cases o with
  | write w =>
    dsimp only [Conf.call] at h
    split at h
    · rename_i hposs
      cases h
      exact ⟨rfl, .write hposs⟩
    · cases h
  | ask q =>
    cases h
    exact ⟨rfl, .ask (ans c.world q).2⟩
  | settle v =>
    cases h
    exact ⟨rfl, .settle⟩
  | newID =>
    dsimp only [Conf.call] at h
    split at h
    · cases h
    · rename_i hnew
      cases h
      exact ⟨rfl, .newID hnew⟩

/-- **What is played is a run.** -/
theorem Conf.play_sound {ls : List Luck} : ∀ {c c' : Conf} {m : Handler Bool} {a : Bool},
    c.play t ans m ls = some (a, c') →
      Prog.Run (fun c o r c' => ∃ f, Exec net t c o r f c') c m a c' := by
  induction ls with
  | nil =>
    intro c c' m a h
    cases m with
    | pure b =>
      cases h
      exact .pure
    | call o k => cases h
  | cons l ls ih =>
    intro c c' m a h
    cases m with
    | pure b =>
      cases h
      exact .pure
    | call o k =>
      obtain ⟨⟨c₁, m₁⟩, hcall, hplay⟩ := Option.bind_eq_some_iff.mp h
      obtain ⟨rfl, hx⟩ := Conf.call_sound hcall
      exact .call ⟨_, hx⟩ (ih hplay)

end

/-! ## Whole handlers -/

/-- A step of the whole-handler system, with its luck. -/
inductive Move where
  | run (t : Task) (luck : List Luck)
  | expire (q : Queue) (w : Wire)

/-- The label of a move. -/
def Move.label : Move → WholeLabel
  | .run t _ => .run t
  | .expire q w => .expire q w

/-- Make a move; none when it is not possible. -/
def World.move (site : Site) (ans : Oracle site.net) (w : World) : Move → Option World
  | .run t luck =>
    if t.delivery.all fun d => decide (d ∈ w.bus) then
      (Conf.play t ans ⟨w.starting t, t.delivery, .start⟩ (t.program site) luck).map fun n =>
        n.2.world.record (t.markEnd n.2.phase n.1)
    else none
  | .expire q wire =>
    if q.isWait && decide ((q, wire) ∈ w.bus) then
      some { w with bus := (.work, wire) ::ₘ w.bus.erase (q, wire) }
    else none

/-- Make some moves. -/
def World.moves (site : Site) (ans : Oracle site.net) (w : World) : List Move → Option World
  | [] => some w
  | m :: ms => (w.move site ans m).bind fun w' => w'.moves site ans ms

section
variable {site : Site} {ans : Oracle site.net}

theorem World.move_sound {w w' : World} {m : Move} (h : w.move site ans m = some w') :
    Whole site w m.label w' := by
  cases m with
  | run t luck =>
    dsimp only [World.move] at h
    split at h
    · rename_i hd
      obtain ⟨⟨a, c⟩, hplay, rfl⟩ := Option.map_eq_some_iff.mp h
      refine .run (fun d hdel => ?_) (Conf.play_sound hplay)
      rw [hdel] at hd
      exact of_decide_eq_true hd
    · cases h
  | expire q wire =>
    dsimp only [World.move] at h
    split at h
    · rename_i hc
      obtain ⟨hq, hm⟩ := Bool.and_eq_true_iff.mp hc
      cases h
      exact .expire hq (of_decide_eq_true hm)
    · cases h

/-- **Moves from an empty installation are a run of whole handlers.** -/
theorem World.moves_reach {ok : World → WholeLabel → Prop} {ms : List Move}
    (hok : ∀ m ∈ ms, ∀ w, ok w m.label) :
    ∀ {w w' : World}, Reach (handlers site) ok w → w.moves site ans ms = some w' →
      Reach (handlers site) ok w' := by
  induction ms with
  | nil =>
    intro w w' hr h
    cases h
    exact hr
  | cons m ms ih =>
    intro w w' hr h
    obtain ⟨w₁, hm, hms⟩ := Option.bind_eq_some_iff.mp h
    have hr₁ : Reach (handlers site) ok w₁ :=
      .step hr (hok m List.mem_cons_self w) (World.move_sound hm)
    exact ih (fun m' hm' => hok m' (List.mem_cons_of_mem _ hm')) hr₁ hms

end

/-! ## Interleavings -/

/-- A deployment with its tasks in a row, so that a script can name them by their place. -/
structure Stage where
  world : World := {}
  procs : List Proc := []

/-- The deployment on a stage. -/
def Stage.cluster (s : Stage) : Cluster := ⟨s.world, s.procs⟩

/-- A step of a script.  A task that steps moves to the front of the row. -/
inductive Cue where
  | start (t : Task)
  /-- The next call of the task at this place, or its end. -/
  | call (i : Nat) (l : Luck)
  /-- The sweep at this place reads the active body refs. -/
  | refs (i : Nat)
  | expire (q : Queue) (w : Wire)
  | lose (i : Nat)
  | crash (i : Nat)

/-- The steps a cue can stand for. -/
def Cue.labels : Cue → Label → Prop
  | .start t, .start t' => t' = t
  | .call _ _, .op _ _ _ _ => True
  | .call _ _, .finish _ _ => True
  | .refs _, .op _ _ _ _ => True
  | .expire q w, .expire q' w' => q' = q ∧ w' = w
  | .lose _, .lose _ => True
  | .crash _, .crash _ => True
  | _, _ => False

/-- The body keys of the live rows, in a world whose rows are all under drawn ids. -/
def World.activeRefs (w : World) : List String := w.ids.filter fun id => w.live id

/-- In such a world they are what `ActiveBodyRefs` returns. -/
theorem World.Keyed.activeRefs {w : World} (h : w.Keyed) (net : Net) :
    Query.Answers net w .activeBodyRefs (some w.activeRefs) := by
  rintro ks ⟨⟩ k
  have hlive : ∀ {id : MsgId} {row : Row}, w.rows id = some row →
      (w.live id = row.status.live) := by
    intro id row hrow
    unfold World.live
    rw [hrow]
    rfl
  constructor
  · intro hk
    obtain ⟨-, hl⟩ := List.mem_filter.mp hk
    cases hrow : w.rows k with
    | none =>
      unfold World.live at hl
      rw [hrow] at hl
      cases hl
    | some row => exact ⟨k, row, hrow, (hlive hrow).symm.trans hl, (h.rows hrow).1⟩
  · rintro ⟨id, row, hrow, hl, rfl⟩
    rw [(h.rows hrow).1]
    exact List.mem_filter.mpr ⟨(h.rows hrow).2, (hlive hrow).trans hl⟩

/-- Make a step; none when it is not possible. -/
def Stage.cue (site : Site) (ans : Oracle site.net) (s : Stage) : Cue → Option Stage
  | .start t =>
    if t.delivery.all fun d => decide (d ∈ s.world.bus) then
      some ⟨s.world.starting t, t.launch site :: s.procs⟩
    else none
  | .call i l =>
    s.procs[i]?.bind fun p =>
      match p.prog with
      | .pure a => some ⟨s.world.record (p.task.markEnd p.phase a), s.procs.eraseIdx i⟩
      | .call o k =>
        ((p.conf s.world).call p.task ans l (.call o k)).map fun n =>
          ⟨n.1.world, p.resume n.1 n.2 :: s.procs.eraseIdx i⟩
  | .refs i =>
    s.procs[i]?.bind fun p =>
      match p.prog with
      | .call (.ask .activeBodyRefs) k =>
        let r := some s.world.activeRefs
        some ⟨s.world.record (p.task.markQuery .activeBodyRefs r),
          p.resume { p.conf s.world with phase := p.phase.nextQuery .activeBodyRefs r } (k r) ::
            s.procs.eraseIdx i⟩
      | _ => none
  | .expire q w =>
    if q.isWait && decide ((q, w) ∈ s.world.bus) then
      some { s with world := { s.world with bus := (.work, w) ::ₘ s.world.bus.erase (q, w) } }
    else none
  | .lose i =>
    s.procs[i]?.bind fun p =>
      if p.held.isSome then
        some ⟨s.world.giveBack p.held, { p with held := none } :: s.procs.eraseIdx i⟩
      else none
  | .crash i =>
    s.procs[i]?.map fun p => ⟨s.world.giveBack p.held, s.procs.eraseIdx i⟩

/-- The label of the step a cue makes. -/
def Stage.label {net : Net} (ans : Oracle net) (s : Stage) : Cue → Option Label
  | .start t => some (.start t)
  | .call i l =>
    s.procs[i]?.map fun p =>
      match p.prog with
      | .pure a => .finish p a
      | .call o _ => .op p o ((p.conf s.world).reply ans l o).1 ((p.conf s.world).reply ans l o).2
  | .refs i =>
    s.procs[i]?.map fun p => .op p (.ask .activeBodyRefs) (some s.world.activeRefs) .ok
  | .expire q w => some (.expire q w)
  | .lose i => s.procs[i]?.map .lose
  | .crash i => s.procs[i]?.map .crash

/-- Follow a script. -/
def Stage.script (site : Site) (ans : Oracle site.net) (s : Stage) : List Cue → Option Stage
  | [] => some s
  | q :: qs => (s.cue site ans q).bind fun s' => s'.script site ans qs

/-- The labels of the steps of a script. -/
def Stage.labels (site : Site) (ans : Oracle site.net) (s : Stage) : List Cue → List Label
  | [] => []
  | q :: qs =>
    (s.label ans q).toList ++ (s.cue site ans q).elim [] fun s' => s'.labels site ans qs

/-- The task at this place makes its next `n` calls; after the first it is in front. -/
def Cue.calls (i : Nat) (id : MsgId) (n : Nat) : List Cue :=
  .call i { id := id } :: List.replicate (n - 1) (.call 0 { id := id })

section
variable {site : Site} {ans : Oracle site.net}

/-- The empty stage. -/
theorem Stage.empty_trace {ok : Cluster → Label → Prop} :
    Trace (Novamail.cluster site) ok [] (Stage.cluster {}) := .init rfl

theorem Stage.empty_reach {ok : Cluster → Label → Prop} :
    Reach (Novamail.cluster site) ok (Stage.cluster {}) := .init rfl

theorem procs_eq_cons {ps : List Proc} {i : Nat} {p : Proc} (h : ps[i]? = some p) :
    (ps : Multiset Proc) = p ::ₘ (ps.eraseIdx i : Multiset Proc) := by
  obtain ⟨hlt, rfl⟩ := List.getElem?_eq_some_iff.mp h
  exact Multiset.coe_eq_coe.mpr (List.getElem_cons_eraseIdx_perm hlt).symm

/-- The label is about a task that satisfies a condition, if it is about a task. -/
def Label.about (good : Task → Bool) : Label → Prop
  | .start t => good t = true
  | .op p _ _ _ | .finish p _ | .lose p | .crash p => good p.task = true
  | .expire _ _ | .tick _ => True

/-- The task a cue starts satisfies a condition. -/
def Cue.starts (good : Task → Bool) : Cue → Bool
  | .start t => good t
  | _ => true

/-- Every task on the stage satisfies a condition. -/
def Stage.All (s : Stage) (good : Task → Bool) : Prop := ∀ p ∈ s.procs, good p.task = true

theorem Stage.All.front {s : Stage} {good : Task → Bool} {i : Nat} {p p' : Proc} (h : s.All good)
    (hp : s.procs[i]? = some p) (ht : p'.task = p.task) (w : World) :
    Stage.All ⟨w, p' :: s.procs.eraseIdx i⟩ good := by
  intro q hq
  rcases List.mem_cons.mp hq with rfl | hq
  · rw [ht]
    exact h p (List.mem_of_getElem? hp)
  · exact h q (List.mem_of_mem_eraseIdx hq)

theorem Stage.cue_sound {s s' : Stage} {q : Cue} {good : Task → Bool} (hkeyed : s.world.Keyed)
    (hall : s.All good) (hgood : q.starts good = true) (h : s.cue site ans q = some s') :
    (∃ l, s.label ans q = some l ∧ q.labels l ∧ l.about good ∧ Step site s.cluster l s'.cluster) ∧
      s'.All good := by
  cases q with
  | start t =>
    dsimp only [cue] at h
    split at h
    · rename_i hd
      cases h
      refine ⟨⟨.start t, rfl, rfl, hgood, .start t fun d hdel => ?_⟩, fun p hp => ?_⟩
      · rw [hdel] at hd
        exact of_decide_eq_true hd
      · rcases List.mem_cons.mp hp with rfl | hp
        · exact hgood
        · exact hall p hp
    · cases h
  | call i l =>
    obtain ⟨p, hp, hrest⟩ := Option.bind_eq_some_iff.mp h
    have hprocs := procs_eq_cons hp
    have hpg : good p.task = true := hall p (List.mem_of_getElem? hp)
    split at hrest
    · rename_i a hk
      cases hrest
      have hlabel : s.label ans (.call i l) = some (.finish p a) := by
        simp only [label, hp, Option.map_some, hk]
      refine ⟨⟨.finish p a, hlabel, trivial, hpg, .finish hprocs hk⟩, fun q hq => ?_⟩
      exact hall q (List.mem_of_mem_eraseIdx hq)
    · rename_i o k hk
      obtain ⟨⟨c, m⟩, hcall, rfl⟩ := Option.map_eq_some_iff.mp hrest
      obtain ⟨rfl, hx⟩ := Conf.call_sound hcall
      have hlabel : s.label ans (.call i l) = some (.op p o ((p.conf s.world).reply ans l o).1
          ((p.conf s.world).reply ans l o).2) := by
        simp only [label, hp, Option.map_some, hk]
      have hst : Step site s.cluster (.op p o _ _)
          ⟨c.world, p.resume c (k _) ::ₘ (s.procs.eraseIdx i : Multiset Proc)⟩ :=
        .op hprocs hk hx
      refine ⟨⟨_, hlabel, trivial, hpg, hst⟩, hall.front hp ?_ _⟩
      rfl
  | refs i =>
    obtain ⟨p, hp, hrest⟩ := Option.bind_eq_some_iff.mp h
    have hpg : good p.task = true := hall p (List.mem_of_getElem? hp)
    split at hrest
    · rename_i k hk
      cases hrest
      let r : Op.Ret (.ask .activeBodyRefs) := some s.world.activeRefs
      let n : Conf :=
        { p.conf s.world with
          world := s.world.record (p.task.markQuery .activeBodyRefs r)
          phase := p.phase.nextQuery .activeBodyRefs r }
      have hst : Step site s.cluster (.op p (.ask .activeBodyRefs) r .ok)
          ⟨n.world, p.resume n (k r) ::ₘ (s.procs.eraseIdx i : Multiset Proc)⟩ :=
        .op (procs_eq_cons hp) hk (.ask (hkeyed.activeRefs site.net))
      have hlabel : s.label ans (.refs i) = some (.op p (.ask .activeBodyRefs) r .ok) := by
        simp only [label, hp, Option.map_some, r]
      refine ⟨⟨.op p (.ask .activeBodyRefs) r .ok, hlabel, trivial, hpg, hst⟩, hall.front hp ?_ _⟩
      rfl
    · cases hrest
  | expire q wire =>
    dsimp only [cue] at h
    split at h
    · rename_i hc
      obtain ⟨hq, hm⟩ := Bool.and_eq_true_iff.mp hc
      cases h
      exact ⟨⟨.expire q wire, rfl, ⟨rfl, rfl⟩, trivial, .expire hq (of_decide_eq_true hm)⟩, hall⟩
    · cases h
  | lose i =>
    obtain ⟨p, hp, hrest⟩ := Option.bind_eq_some_iff.mp h
    split at hrest
    · rename_i hh
      cases hrest
      have hst : Step site s.cluster (.lose p)
          ⟨s.world.giveBack p.held,
            { p with held := none } ::ₘ (s.procs.eraseIdx i : Multiset Proc)⟩ :=
        .lose (procs_eq_cons hp) fun hn => by rw [hn] at hh; cases hh
      have hlabel : s.label ans (.lose i) = some (.lose p) := congrArg (Option.map Label.lose) hp
      have hpg : good p.task = true := hall p (List.mem_of_getElem? hp)
      refine ⟨⟨.lose p, hlabel, trivial, hpg, hst⟩, hall.front hp ?_ _⟩
      rfl
    · cases hrest
  | crash i =>
    obtain ⟨p, hp, rfl⟩ := Option.map_eq_some_iff.mp h
    have hlabel : s.label ans (.crash i) = some (.crash p) := congrArg (Option.map Label.crash) hp
    have hpg : good p.task = true := hall p (List.mem_of_getElem? hp)
    refine ⟨⟨.crash p, hlabel, trivial, hpg, .crash (procs_eq_cons hp)⟩, ?_⟩
    exact fun q hq => hall q (List.mem_of_mem_eraseIdx hq)

/-- **A script is a run of the deployment**, with the labels of its steps.  `good` is what the tasks
    on the stage and those it starts have in common. -/
theorem Stage.script_trace {ok : Cluster → Label → Prop} (good : Task → Bool) {qs : List Cue}
    (hgood : ∀ q ∈ qs, q.starts good = true)
    (hok : ∀ q ∈ qs, ∀ (s : Stage) l c', s.All good → Reach (Novamail.cluster site) ok s.cluster →
      Step site s.cluster l c' → q.labels l → l.about good → ok s.cluster l) :
    ∀ {ls : List Label} {s s' : Stage}, Trace (Novamail.cluster site) ok ls s.cluster →
      s.All good → s.script site ans qs = some s' →
        Trace (Novamail.cluster site) ok (ls ++ s.labels site ans qs) s'.cluster := by
  induction qs with
  | nil =>
    intro ls s s' ht _ h
    cases h
    rw [show s.labels site ans [] = [] from rfl, List.append_nil]
    exact ht
  | cons q qs ih =>
    intro ls s s' ht hall h
    obtain ⟨s₁, hq, hqs⟩ := Option.bind_eq_some_iff.mp h
    obtain ⟨⟨l, hlabel, hl, hab, hst⟩, hall₁⟩ :=
      Stage.cue_sound (keyed ht.reach).world hall (hgood q List.mem_cons_self) hq
    have ht₁ : Trace (Novamail.cluster site) ok (ls ++ [l]) s₁.cluster :=
      .step ht (hok q List.mem_cons_self s l _ hall ht.reach hst hl hab) hst
    have hrest := ih (fun q' hq' => hgood q' (List.mem_cons_of_mem _ hq'))
      (fun q' hq' => hok q' (List.mem_cons_of_mem _ hq')) ht₁ hall₁ hqs
    have hlabels : s.labels site ans (q :: qs) = [l] ++ s₁.labels site ans qs := by
      simp only [labels, hlabel, hq, Option.toList_some, Option.elim_some]
    rw [hlabels, ← List.append_assoc]
    exact hrest

theorem Stage.script_reach {ok : Cluster → Label → Prop} (good : Task → Bool) {qs : List Cue}
    (hgood : ∀ q ∈ qs, q.starts good = true)
    (hok : ∀ q ∈ qs, ∀ (s : Stage) l c', s.All good → Reach (Novamail.cluster site) ok s.cluster →
      Step site s.cluster l c' → q.labels l → l.about good → ok s.cluster l)
    {s s' : Stage} (hr : Reach (Novamail.cluster site) ok s.cluster) (hall : s.All good)
    (h : s.script site ans qs = some s') : Reach (Novamail.cluster site) ok s'.cluster := by
  obtain ⟨ls, ht⟩ := hr.trace
  exact (Stage.script_trace good hgood hok ht hall h).reach

/-- Follow a script for as long as a check holds before each step. -/
def Stage.passing (site : Site) (ans : Oracle site.net) (check : Stage → Bool) (s : Stage) :
    List Cue → Option Stage
  | [] => some s
  | q :: qs =>
    if check s then (s.cue site ans q).bind fun s' => s'.passing site ans check qs else none

/-- A script that passes its check is a run whose steps meet what the check is for. -/
theorem Stage.passing_reach {ok : Cluster → Label → Prop} {check : Stage → Bool} {qs : List Cue}
    (hok : ∀ q ∈ qs, ∀ (s : Stage) l c', check s = true → Step site s.cluster l c' → q.labels l →
      ok s.cluster l) : ∀ {s s' : Stage}, Reach (Novamail.cluster site) ok s.cluster →
      s.passing site ans check qs = some s' → Reach (Novamail.cluster site) ok s'.cluster := by
  induction qs with
  | nil =>
    intro s s' hr h
    cases h
    exact hr
  | cons q qs ih =>
    intro s s' hr h
    unfold Stage.passing at h
    split at h
    · rename_i hcheck
      obtain ⟨s₁, hq, hqs⟩ := Option.bind_eq_some_iff.mp h
      have hall : s.All fun _ => true := fun _ _ => rfl
      obtain ⟨⟨l, -, hl, -, hst⟩, -⟩ := Stage.cue_sound (keyed hr).world hall (by cases q <;> rfl) hq
      exact ih (fun q' hq' => hok q' (List.mem_cons_of_mem _ hq'))
        (.step hr (hok q List.mem_cons_self s l _ hcheck hst hl) hst) hqs
    · cases h

end

/-- A script in which nothing breaks. -/
def Cue.isCalm : Cue → Bool
  | .lose _ | .crash _ => false
  | _ => true

theorem Cue.calm_of_labels {q : Cue} (hq : q.isCalm = true) {c : Cluster} {l : Label}
    (h : q.labels l) : calm c l := by
  cases q <;> cases l <;> trivial

/-- A calm script is a calm run. -/
theorem Stage.script_calm_trace {site : Site} {ans : Oracle site.net} {qs : List Cue} {s : Stage}
    (hcalm : ∀ q ∈ qs, q.isCalm = true) (h : Stage.script site ans {} qs = some s) :
    Trace (Novamail.cluster site) calm (Stage.labels site ans {} qs) s.cluster :=
  Stage.script_trace (fun _ => true) (fun q _ => by cases q <;> rfl)
    (fun q hq _ _ _ _ _ _ hl _ => q.calm_of_labels (hcalm q hq) hl) Stage.empty_trace
    (fun _ _ => rfl) h

theorem Stage.script_calm {site : Site} {ans : Oracle site.net} {qs : List Cue} {s : Stage}
    (hcalm : ∀ q ∈ qs, q.isCalm = true) (h : Stage.script site ans {} qs = some s) :
    Reach (Novamail.cluster site) calm s.cluster := (Stage.script_calm_trace hcalm h).reach

/-! ## Plain answers -/

/-- The answers of a world in which the stores answer, `st` is the routing state, and `send` is
    what the providers reply. -/
def plainOracle {net : Net} (st : RouteState) (send : Provider → Message → SendReply)
    (hsend : ∀ p m, net p m (send p m)) : Oracle net := fun w q =>
  match q with
  | .get key => ⟨w.bodies key, .inr rfl⟩
  | .walk =>
    ⟨(w.ids.filter fun k => (w.bodies k).isSome, true), fun _ h => (List.mem_filter.mp h).2,
      fun h => nomatch h⟩
  | .lastDetail _ => ⟨"", .inl rfl⟩
  | .selectMessage id => ⟨some (w.rows id), .inr rfl⟩
  | .activeBodyRefs => ⟨none, fun _ h => nomatch h⟩
  | .settingInt _ => ⟨none, trivial⟩
  | .alertFrom => ⟨none, trivial⟩
  | .loadState => ⟨st, trivial⟩
  | .loadPolicy => ⟨none, trivial⟩
  | .sign _ body => ⟨some body, trivial⟩
  | .reserve _ l key => ⟨(l.bucket key).map fun _ => 0, Option.isSome_map⟩
  | .cancel => ⟨(), trivial⟩
  | .sleep _ => ⟨true, trivial⟩
  | .send p m => ⟨send p m, hsend p m⟩
  | .inc _ => ⟨(), trivial⟩
  | .now => ⟨"", trivial⟩

/-- An installation with nothing configured. -/
def plainSite (net : Net) : Site := { platform := .plain, host := "relay", net := net }

/-- A network on which a provider may answer anything. -/
def anyReply : Net := fun _ _ _ => True

/-- One provider for every domain, which delivers whatever it is given. -/
def deliveringOracle : Oracle anyReply :=
  plainOracle
    { engine := { dflt := some ["p1"] }
      instances := fun id => if id = "p1" then some (newDirect ⟨"mx", "", tls12⟩) else none }
    (fun _ _ => { outcome := .delivered, detail := "250 ok" }) fun _ _ => trivial

/-- A session that has given this sender and these recipients. -/
def envelopeSession (sender : String) (rcpts : List String) : Ingress.Session :=
  { sender := sender, rcpts := rcpts, rcptN := rcpts.length }

/-- A message from `a@s.test` to `b@r.test`. -/
def oneRecipient : Ingress.Session := envelopeSession "a@s.test" ["b@r.test"]

/-- All calls succeed and the id drawn is this one. -/
def drawing (id : MsgId) (n : Nat) : List Luck := List.replicate n { id := id }

end Novamail

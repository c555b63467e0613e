/-
  Who may still act for a message.

  A stake in a message is a job of it on the broker, a consumer that holds one and has not moved it
  on, or a producer on its way.  `stake id true` counts all of them, `stake id false` only those
  that are not past the DLQ.  No step adds to either count, with three exceptions: a producer draws
  the id, an operator requeues the message, and a delivery is put back after its successor was
  published.  Unlike the ledger this is so whatever else breaks, since it does not count what
  became of the jobs.
-/
import Mathlib.Algebra.Order.BigOperators.Group.Multiset
import Mathlib.Algebra.Order.Group.Nat
import Novamail.System.Custody

namespace Novamail

open Novamail.Core

/-! ## The counts -/

/-- The stake of a job on the broker; in the DLQ it counts only with `far`. -/
def jobStake (id : MsgId) (far : Bool) (d : Queue × Wire) : Nat :=
  (d.2.carries id && (far || d.1 ≠ .dlq)).toNat

/-- The stake of a task; `held` says whether it still holds its delivery. -/
def Task.stake (t : Task) (held : Bool) (ph : Phase) (id : MsgId) (far : Bool) : Nat :=
  ((t.delivers id || (far && t.bounces id)) && held && ph ≠ .moved).toNat + ph.carries id

/-- The stakes on the broker. -/
def World.stake (w : World) (id : MsgId) (far : Bool) : Nat := (w.bus.map (jobStake id far)).sum

/-- The stakes of a bag of tasks. -/
def procsStake (ps : Multiset Proc) (id : MsgId) (far : Bool) : Nat :=
  (ps.map fun p => p.task.stake p.held.isSome p.phase id far).sum

/-- The stakes in a message. -/
def Cluster.stake (c : Cluster) (id : MsgId) (far : Bool) : Nat :=
  c.world.stake id far + procsStake c.procs id far

section
variable {id : MsgId} {far : Bool}

theorem procsStake_cons (p : Proc) (ps : Multiset Proc) (id : MsgId) (far : Bool) :
    procsStake (p ::ₘ ps) id far =
      p.task.stake p.held.isSome p.phase id far + procsStake ps id far := by
  unfold procsStake
  rw [Multiset.map_cons, Multiset.sum_cons]

theorem World.stake_cons {w w' : World} {d : Queue × Wire} (h : w'.bus = d ::ₘ w.bus)
    (id : MsgId) (far : Bool) : w'.stake id far = jobStake id far d + w.stake id far := by
  unfold stake
  rw [h, Multiset.map_cons, Multiset.sum_cons]

theorem World.stake_erase {w w' : World} {d : Queue × Wire} (hd : d ∈ w.bus)
    (h : w'.bus = w.bus.erase d) (id : MsgId) (far : Bool) :
    w.stake id far = jobStake id far d + w'.stake id far := by
  have hw : w.bus = d ::ₘ w'.bus := by rw [h, Multiset.cons_erase hd]
  exact World.stake_cons hw id far

theorem World.stake_congr {w w' : World} (h : w'.bus = w.bus) (id : MsgId) (far : Bool) :
    w'.stake id far = w.stake id far := by
  unfold stake
  rw [h]

/-- The broker after a write. -/
theorem World.stake_after (w : World) (t : Task) (wr : Write) (f : Fate) (id : MsgId)
    (far : Bool) : (w.after t wr f).stake id far =
      (if f.applied then wr.publishes.elim 0 (jobStake id far) else 0) + w.stake id far := by
  have hbus := w.after_bus t wr f
  cases hf : f.applied with
  | false =>
    rw [hf, if_neg Bool.false_ne_true] at hbus
    rw [if_neg Bool.false_ne_true, Nat.zero_add]
    exact World.stake_congr hbus id far
  | true =>
    rw [hf, if_pos rfl] at hbus
    rw [if_pos rfl]
    cases hp : wr.publishes with
    | none =>
      rw [hp] at hbus
      exact (World.stake_congr hbus id far).trans (Nat.zero_add _).symm
    | some d =>
      rw [hp] at hbus
      exact World.stake_cons hbus id far

/-- A task that does not consume has the stake of what it is bringing in. -/
theorem Task.stake_of_not_carries {t : Task} (h : t.carries id = false) (held : Bool)
    (ph : Phase) : t.stake held ph id far = ph.carries id := by
  obtain ⟨hd, hb⟩ := Bool.or_eq_false_iff.mp ((t.carries_eq id).symm.trans h)
  unfold stake
  rw [hd, hb]
  cases far <;> exact Nat.zero_add _

/-- What a task still holds counts for it as much as it does on the broker. -/
theorem Task.stake_delivery {t : Task} {d : Queue × Wire} {ph : Phase} (hd : t.delivery = some d)
    (hph : ph ≠ .moved) : t.stake true ph id far = jobStake id far d + ph.carries id := by
  have hm : decide (ph ≠ .moved) = true := decide_eq_true hph
  unfold stake jobStake
  rw [hm]
  cases t with
  | deliver w =>
    cases hd
    cases hc : w.carries id <;> cases far <;> simp [Task.delivers, Task.bounces, hc]
  | bounce w =>
    cases hd
    cases hc : w.carries id <;> cases far <;> simp [Task.delivers, Task.bounces, hc]
  | _ => cases hd

/-- Without its delivery a task has the stake of what it is bringing in. -/
theorem Task.stake_unheld (t : Task) (ph : Phase) : t.stake false ph id far = ph.carries id := by
  unfold stake
  rw [Bool.and_false, Bool.false_and]
  exact Nat.zero_add _

/-- The stake of a task changes with its phase only. -/
theorem Task.stake_le {t : Task} {held : Bool} {ph ph' : Phase}
    (hc : ph'.carries id ≤ ph.carries id) (hm : ph = .moved → ph' = .moved) :
    t.stake held ph' id far ≤ t.stake held ph id far := by
  unfold stake
  refine Nat.add_le_add (toNat_le_of_imp fun h => ?_) hc
  obtain ⟨hl, hr⟩ := Bool.and_eq_true_iff.mp h
  refine Bool.and_eq_true_iff.mpr ⟨hl, decide_eq_true fun he => ?_⟩
  exact of_decide_eq_true hr (hm he)

end

/-! ## One call -/

/-- The stakes of the broker and of the task together do not grow, for either count. -/
def NoGain (t : Task) (w : World) (held : Option (Queue × Wire)) (ph : Phase) (w' : World)
    (held' : Option (Queue × Wire)) (ph' : Phase) (id : MsgId) : Prop :=
  ∀ far, w'.stake id far + t.stake held'.isSome ph' id far ≤
    w.stake id far + t.stake held.isSome ph id far

section
variable {t : Task} {w : World} {held : Option (Queue × Wire)} {ph ph' : Phase} {id : MsgId}

/-- A call that leaves the broker alone. -/
theorem noGain_quiet {w' : World} (hbus : w'.bus = w.bus) (hc : ph'.carries id ≤ ph.carries id)
    (hm : ph = .moved → ph' = .moved) : NoGain t w held ph w' held ph' id := by
  intro far
  rw [World.stake_congr hbus]
  exact Nat.add_le_add_left (Task.stake_le hc hm) _

theorem World.after_bus_none (w : World) (t : Task) {wr : Write} (f : Fate)
    (hp : wr.publishes = none) : (w.after t wr f).bus = w.bus := by
  rw [World.after_bus, hp]
  split <;> rfl

/-- A verdict that puts nothing back. -/
theorem noGain_settle : NoGain t w held ph w none .done id := by
  intro far
  refine Nat.add_le_add_left ?_ _
  show t.stake false .done id far ≤ _
  rw [Task.stake_unheld]
  exact Nat.zero_le _

/-- What is put back counts as much as it did with the task. -/
theorem stake_giveBack (hheld : held = none ∨ held = t.delivery) (hm : held ≠ none → ph ≠ .moved)
    (far : Bool) : (w.giveBack held).stake id far + ph.carries id =
      w.stake id far + t.stake held.isSome ph id far := by
  cases hh : held with
  | none =>
    show w.stake id far + _ = _ + t.stake false ph id far
    rw [Task.stake_unheld]
  | some d =>
    have hd : t.delivery = some d := by
      rcases hheld with hn | hd
      · exact absurd (hh.symm.trans hn) (Option.some_ne_none d)
      · exact hd.symm.trans hh
    have hcons : (w.giveBack (some d)).stake id far = jobStake id far d + w.stake id far :=
      World.stake_cons rfl id far
    have hown : t.stake true ph id far = jobStake id far d + ph.carries id :=
      Task.stake_delivery hd (hm (hh ▸ Option.some_ne_none d))
    show _ = w.stake id far + t.stake true ph id far
    omega

/-- A verdict that puts the delivery back. -/
theorem noGain_giveBack (hheld : held = none ∨ held = t.delivery) (hm : ph ≠ .moved) :
    NoGain t w held ph (w.giveBack held) none .done id := by
  intro far
  refine le_trans (Nat.add_le_add_left ?_ _) (stake_giveBack hheld (fun _ => hm) far).le
  show t.stake false .done id far ≤ _
  rw [Task.stake_unheld]
  exact Nat.zero_le _

/-- A producer publishes what it was bringing in. -/
theorem noGain_publish_new {wr : Write} (f : Fate) {j : RelayJob}
    (hp : wr.publishes = some (.work, .job j)) (hc : ph'.carries id = 0)
    (hm : ph' ≠ .moved) :
    NoGain t w held (.inserted j.messageID) (w.after t wr f) held ph' id := by
  intro far
  have hjob : jobStake id far (.work, .job j) = (decide (j.messageID = id)).toNat := by
    unfold jobStake
    rw [show ((far || decide (Queue.work ≠ .dlq)) = true) from Bool.or_true far, Bool.and_true]
    rfl
  have hnew : (Phase.inserted j.messageID).carries id = (decide (j.messageID = id)).toNat :=
    Phase.carries_of_pending rfl id
  have hown : t.stake held.isSome ph' id far + (Phase.inserted j.messageID).carries id =
      t.stake held.isSome (.inserted j.messageID) id far := by
    unfold Task.stake
    rw [hc, decide_eq_true hm]
    rfl
  show (w.after t wr f).stake id far + t.stake held.isSome ph' id far ≤ _
  rw [World.stake_after, hp]
  split
  · show jobStake id far _ + _ + _ ≤ _
    omega
  · omega

/-- A worker that still holds its delivery publishes the successor. -/
theorem noGain_successor {j : RelayJob} {q : Queue} {a : Int}
    (hheld : held = none ∨ held = (Task.deliver (.job j)).delivery)
    (hmove : (Task.deliver (.job j)).delivers id = true → held ≠ none) :
    NoGain (.deliver (.job j)) w held .start
      (w.after (.deliver (.job j)) (.publish q { j with attempt := a }) .ok) held .moved id := by
  intro far
  have hstake : (w.after (.deliver (.job j)) (.publish q { j with attempt := a }) .ok).stake id far =
      jobStake id far (q, .job { j with attempt := a }) + w.stake id far :=
    World.stake_after w _ _ .ok id far
  have hmoved : (Task.deliver (.job j)).stake held.isSome .moved id far = 0 := by
    unfold Task.stake
    rw [decide_eq_false (fun h => h rfl), Bool.and_false]
    rfl
  have hle : jobStake id far (q, .job { j with attempt := a }) ≤
      (Task.deliver (.job j)).stake held.isSome .start id far := by
    refine le_trans (toNat_and_le _ _) ?_
    cases hc : (Wire.job j).carries id with
    | false =>
      show ((Wire.job j).carries id).toNat ≤ _
      rw [hc]
      exact Nat.zero_le _
    | true =>
      rcases hheld with hn | hd
      · exact absurd hn (hmove hc)
      · rw [hd]
        show ((Wire.job j).carries id).toNat ≤ (Task.deliver (.job j)).stake true .start id far
        unfold Task.stake
        rw [show (Task.deliver (.job j)).delivers id = true from hc, hc]
        exact Nat.le_add_right _ _
  rw [hstake, hmoved]
  omega

end

/-- **A call adds no stake**, unless it draws the id, or requeues the message, or publishes a
    successor of a delivery that was taken back. -/
theorem Exec.noGain {net : Net} {t : Task} {w : World} {held : Option (Queue × Wire)}
    {ph ph' : Phase} {o : Op} {r : o.Ret} {f : Fate} {n : Conf}
    (hx : Exec net t ⟨w, held, ph⟩ o r f n) (hturn : Turn t ph o r ph') {id : MsgId}
    (hheld : held = none ∨ held = t.delivery) (hdraw : ph' = .drawn id → ph = .drawn id)
    (hmove : t.delivers id = true → ph = .start → held ≠ none)
    (hreq : ∀ j, o = .write (.publishRelayJob j) → t = .requeue j.messageID →
      f.applied = true → j.messageID ≠ id) : NoGain t w held ph n.world n.held ph' id := by
  cases hturn with
  | read =>
    cases hx
    exact noGain_quiet rfl le_rfl fun h => h
  | undelivered | delivered | suppressed | selected | queried | swept =>
    cases hx
    exact noGain_quiet rfl (Nat.zero_le _) nofun
  | @draw new | @redraw j new =>
    cases hx
    refine noGain_quiet rfl ?_ nofun
    have hcar : (Phase.drawn new).carries id = (decide (new = id)).toNat :=
      Phase.carries_of_pending rfl id
    have hne : new ≠ id := fun he => Phase.noConfusion (hdraw (he ▸ rfl))
    rw [hcar, decide_eq_false hne]
    exact Nat.zero_le _
  | put | insertBody | insert =>
    cases hx
    refine noGain_quiet (World.after_bus_none _ _ _ rfl) ?_ nofun
    split
    · exact le_rfl
    · exact Nat.zero_le _
  | oversized | note | close =>
    cases hx
    exact noGain_quiet (World.after_bus_none _ _ _ rfl) (Nat.zero_le _) nofun
  | relayed | bounced | unsent | orphan | attempt | suppress | prune | announce =>
    cases hx
    exact noGain_quiet (World.after_bus_none _ _ _ rfl) le_rfl fun h => h
  | @successor j q a ok ht =>
    cases hx with
    | write hposs =>
      cases f with
      | lost => cases hposs
      | failed => exact noGain_quiet rfl le_rfl nofun
      | ok =>
        subst ht
        exact noGain_successor hheld fun hc => hmove hc rfl
  | submission ht hid | alert ht hid | dsn ht hid =>
    cases hx
    subst hid
    refine noGain_publish_new f rfl ?_ ?_
    · split <;> rfl
    · split <;> exact nofun
  | @requeue row j ok ht =>
    cases hx
    intro far
    have hnone : (if f.applied then jobStake id far (.work, .job j) else 0) = 0 := by
      split
      · rename_i hf
        have hother : (Wire.job j).carries id = false := decide_eq_false (hreq j rfl ht hf)
        show ((Wire.job j).carries id && _).toNat = 0
        rw [hother]
        rfl
      · rfl
    have hstake : (w.after t (.publishRelayJob j) f).stake id far =
        (if f.applied then jobStake id far (.work, .job j) else 0) + w.stake id far :=
      World.stake_after w t (.publishRelayJob j) f id far
    rw [hstake, hnone, Nat.zero_add]
    have hown : t.stake held.isSome .ended id far ≤ t.stake held.isSome (.selected row) id far :=
      Task.stake_le le_rfl nofun
    exact Nat.add_le_add_left hown _
  | ack | garbage =>
    cases hx
    exact noGain_settle
  | retry | regenerate =>
    cases hx
    exact noGain_giveBack hheld nofun

/-! ## Steps -/

/-- An id that was drawn is not drawn again. -/
theorem Exec.not_drawn {net : Net} {t : Task} {w : World} {held : Option (Queue × Wire)}
    {ph ph' : Phase} {o : Op} {r : o.Ret} {f : Fate} {n : Conf}
    (hx : Exec net t ⟨w, held, ph⟩ o r f n) (hturn : Turn t ph o r ph') {id : MsgId}
    (hid : id ∈ w.ids) (hph : ph' = .drawn id) : ph = .drawn id := by
  cases hturn with
  | draw | redraw =>
    cases hx with
    | newID hnew =>
      cases hph
      exact absurd hid hnew
  | read | suppress | prune | announce => exact hph
  | put | insertBody | insert | successor | submission | dsn | alert => split at hph <;> cases hph
  | _ => cases hph

section
variable {site : Site} {ok : Cluster → Label → Prop} {c c' : Cluster} {l : Label} {id : MsgId}
  {far : Bool}

theorem Cluster.stake_cons {p : Proc} {ps : Multiset Proc} (h : c.procs = p ::ₘ ps) (id : MsgId)
    (far : Bool) : c.stake id far =
      c.world.stake id far + (p.task.stake p.held.isSome p.phase id far + procsStake ps id far) := by
  unfold stake
  rw [h, procsStake_cons]

/-- Nobody has a stake in a message that has no job, no consumer and no producer. -/
theorem Cluster.stake_zero (hjobs : ∀ d ∈ c.world.bus, d.2.carries id = false)
    (hprocs : ∀ p ∈ c.procs, p.task.carries id = true → p.held = none)
    (hpending : ∀ p ∈ c.procs, p.phase.pending ≠ some id) : c.stake id far = 0 := by
  have hw : c.world.stake id far = 0 := by
    refine Multiset.sum_eq_zero fun x hx => ?_
    obtain ⟨d, hd, rfl⟩ := Multiset.mem_map.mp hx
    unfold jobStake
    rw [hjobs d hd]
    rfl
  have hp : procsStake c.procs id far = 0 := by
    refine Multiset.sum_eq_zero fun x hx => ?_
    obtain ⟨p, hin, rfl⟩ := Multiset.mem_map.mp hx
    have hcar : p.phase.carries id = 0 := by
      unfold Phase.carries
      rw [decide_eq_false (hpending p hin)]
      rfl
    cases hc : p.task.carries id with
    | false => rw [Task.stake_of_not_carries hc, hcar]
    | true =>
      rw [hprocs p hin hc]
      show p.task.stake false p.phase id far = 0
      rw [Task.stake_unheld, hcar]
  unfold stake
  rw [hw, hp]

/-- Nobody has a stake in an id that was not drawn. -/
theorem Cluster.Keyed.stake_zero (h : c.Keyed) (hid : id ∉ c.world.ids) : c.stake id far = 0 := by
  refine Cluster.stake_zero (fun d hd => ?_) (fun p hp hc => ?_) fun p hp hph => ?_
  · obtain ⟨q, wire⟩ := d
    cases wire with
    | job j => exact decide_eq_false fun he => hid (he ▸ (h.world.jobs hd).drawn)
    | garbage => rfl
  · obtain ⟨j, hj, he⟩ := (Option.any_eq_true _ _).mp hc
    exact absurd (of_decide_eq_true he ▸ ((h.tasks p hp).job hj).drawn) hid
  · exact hid ((h.tasks p hp).pending hph)

/-- **A step adds no stake in a drawn id**, unless it requeues the message, or puts back a delivery
    whose successor was published, or publishes the successor of one that was taken back. -/
theorem Step.stake_le (hr : Reach (cluster site) ok c) (hst : Step site c l c')
    (hid : id ∈ c.world.ids)
    (hbreak : ∀ p, l = .lose p ∨ l = .crash p → p.held ≠ none → p.phase ≠ .moved)
    (hmove : ∀ p ∈ c.procs, p.task.delivers id = true → p.phase = .start → p.held ≠ none)
    (hreq : ∀ p j r f, l = .op p (.write (.publishRelayJob j)) r f →
      p.task = .requeue j.messageID → f.applied = true → j.messageID ≠ id) (far : Bool) :
    c'.stake id far ≤ c.stake id far := by
  cases hst with
  | start t hd =>
    show (c.world.starting t).stake id far + procsStake (t.launch site ::ₘ c.procs) id far ≤ _
    rw [procsStake_cons]
    show _ + (t.stake t.delivery.isSome .start id far + _) ≤ c.world.stake id far + _
    cases hdel : t.delivery with
    | none =>
      have hbus : (c.world.starting t).stake id far = c.world.stake id far := by
        refine World.stake_congr ?_ id far
        unfold World.starting World.handOut
        rw [hdel]
        rfl
      rw [hbus, show (none : Option (Queue × Wire)).isSome = false from rfl, Task.stake_unheld]
      exact (Nat.add_le_add_left (Nat.zero_add _).le _)
    | some d =>
      have hbus : c.world.stake id far =
          jobStake id far d + (c.world.starting t).stake id far := by
        refine World.stake_erase (hd d hdel) ?_ id far
        unfold World.starting World.handOut
        rw [hdel]
        rfl
      have hown : t.stake true .start id far = jobStake id far d + Phase.start.carries id :=
        Task.stake_delivery hdel nofun
      show _ + (t.stake true .start id far + _) ≤ _
      rw [hbus, hown]
      show _ + (jobStake id far d + 0 + _) ≤ _
      omega
  | @op p ps o k r f n hp hk hx =>
    have hin : p ∈ c.procs := hp ▸ Multiset.mem_cons_self _ _
    have hok := procs_ok hr p hin
    have hturn := hok.turn_to hk hx
    have hgain := hx.noGain hturn (hok.held.imp_right And.left) (hx.not_drawn hturn hid)
      (hmove p hin) (fun j ho ht hf => hreq p j (ho ▸ r) f (by subst ho; rfl) ht hf) far
    rw [Cluster.stake_cons hp]
    show n.world.stake id far + procsStake (p.resume n (k r) ::ₘ ps) id far ≤ _
    rw [procsStake_cons]
    show _ + (p.task.stake n.held.isSome n.phase id far + _) ≤ _
    omega
  | @finish p ps ok hp hk =>
    rw [Cluster.stake_cons hp]
    show c.world.stake id far + procsStake ps id far ≤ _
    omega
  | @expire q w hq hm =>
    have herase : c.world.stake id far = jobStake id far (q, w) +
        World.stake { c.world with bus := c.world.bus.erase (q, w) } id far :=
      World.stake_erase hm rfl id far
    have hcons : World.stake { c.world with bus := (.work, w) ::ₘ c.world.bus.erase (q, w) } id far =
        jobStake id far (.work, w) +
          World.stake { c.world with bus := c.world.bus.erase (q, w) } id far :=
      World.stake_cons rfl id far
    have hsame : jobStake id far (.work, w) = jobStake id far (q, w) := by
      cases q <;> first | rfl | cases hq
    show World.stake { c.world with bus := (.work, w) ::ₘ c.world.bus.erase (q, w) } id far +
      procsStake c.procs id far ≤ c.world.stake id far + procsStake c.procs id far
    omega
  | @lose p ps hp hh =>
    have hin : p ∈ c.procs := hp ▸ Multiset.mem_cons_self _ _
    have hback : (c.world.giveBack p.held).stake id far + p.phase.carries id =
        c.world.stake id far + p.task.stake p.held.isSome p.phase id far :=
      stake_giveBack ((procs_ok hr p hin).held.imp_right And.left) (hbreak p (.inl rfl)) far
    rw [Cluster.stake_cons hp]
    show _ + procsStake ({ p with held := none } ::ₘ ps) id far ≤ _
    rw [procsStake_cons]
    show _ + (p.task.stake false p.phase id far + _) ≤ _
    rw [Task.stake_unheld]
    dsimp only
    omega
  | @crash p ps hp =>
    have hin : p ∈ c.procs := hp ▸ Multiset.mem_cons_self _ _
    have hback : (c.world.giveBack p.held).stake id far + p.phase.carries id =
        c.world.stake id far + p.task.stake p.held.isSome p.phase id far :=
      stake_giveBack ((procs_ok hr p hin).held.imp_right And.left) (hbreak p (.inr rfl)) far
    rw [Cluster.stake_cons hp]
    show (c.world.giveBack p.held).stake id far + procsStake ps id far ≤ _
    omega
  | tick => exact le_rfl

/-- Those before the DLQ are among all. -/
theorem Cluster.stake_mono (c : Cluster) (id : MsgId) : c.stake id false ≤ c.stake id true := by
  have hjob : ∀ d, jobStake id false d ≤ jobStake id true d := by
    intro d
    refine toNat_le_of_imp fun h => ?_
    exact Bool.and_eq_true_iff.mpr ⟨(Bool.and_eq_true_iff.mp h).1, rfl⟩
  have htask : ∀ p : Proc, p.task.stake p.held.isSome p.phase id false ≤
      p.task.stake p.held.isSome p.phase id true := by
    intro p
    refine Nat.add_le_add_right (toNat_le_of_imp fun h => ?_) _
    obtain ⟨h, hm⟩ := Bool.and_eq_true_iff.mp h
    obtain ⟨h, hh⟩ := Bool.and_eq_true_iff.mp h
    have hd : p.task.delivers id = true := by simpa using h
    rw [hd, hh, hm]
    rfl
  exact Nat.add_le_add (Multiset.sum_map_le_sum_map _ _ fun d _ => hjob d)
    (Multiset.sum_map_le_sum_map _ _ fun p _ => htask p)

/-- A running task has its stake in the deployment. -/
theorem Cluster.le_stake {p : Proc} (hin : p ∈ c.procs) (id : MsgId) (far : Bool) :
    p.task.stake p.held.isSome p.phase id far ≤ c.stake id far := by
  obtain ⟨ps, hp⟩ := Multiset.exists_cons_of_mem hin
  rw [Cluster.stake_cons hp]
  omega

/-- So has a job on the broker. -/
theorem Cluster.job_le_stake {d : Queue × Wire} (hd : d ∈ c.world.bus) (id : MsgId) (far : Bool) :
    jobStake id far d ≤ c.stake id far := by
  have herase : c.world.stake id far = jobStake id far d +
      World.stake { c.world with bus := c.world.bus.erase d } id far :=
    World.stake_erase hd rfl id far
  unfold stake
  omega

/-- The stake of a worker that has not moved its job on. -/
theorem Task.stake_worker {t : Task} {ph : Phase} (ht : t.delivers id = true) (hm : ph ≠ .moved)
    (far : Bool) : 0 < t.stake true ph id far := by
  unfold stake
  rw [ht, decide_eq_true hm]
  exact Nat.lt_of_lt_of_le Nat.zero_lt_one (Nat.le_add_right _ _)

/-- The stake of a producer on its way. -/
theorem Task.stake_pending {t : Task} {ph : Phase} {held : Bool} (hph : ph.pending = some id)
    (far : Bool) : 0 < t.stake held ph id far := by
  have hc : ph.carries id = 1 := by rw [Phase.carries_of_pending hph, decide_eq_true rfl]; rfl
  unfold stake
  omega

/-- A bounce generator that holds its delivery counts among all only. -/
theorem Cluster.stake_bounce {p : Proc} (hin : p ∈ c.procs) (ht : p.task.bounces id = true)
    (hh : p.held ≠ none) (hm : p.phase ≠ .moved) : c.stake id false < c.stake id true := by
  obtain ⟨ps, hp⟩ := Multiset.exists_cons_of_mem hin
  have hrest : Cluster.stake ⟨c.world, ps⟩ id false ≤ Cluster.stake ⟨c.world, ps⟩ id true :=
    Cluster.stake_mono ⟨c.world, ps⟩ id
  have hdel : p.task.delivers id = false := by
    cases htask : p.task with
    | bounce w => rfl
    | _ =>
      rw [htask] at ht
      cases ht
  have hfalse : p.task.stake p.held.isSome p.phase id false = p.phase.carries id := by
    unfold Task.stake
    rw [hdel]
    exact Nat.zero_add _
  have htrue : p.task.stake p.held.isSome p.phase id true = 1 + p.phase.carries id := by
    unfold Task.stake
    rw [ht, Option.isSome_iff_ne_none.mpr hh, decide_eq_true hm, hdel]
    rfl
  rw [Cluster.stake_cons hp, Cluster.stake_cons hp, hfalse, htrue]
  unfold Cluster.stake at hrest
  dsimp only at hrest
  omega

/-- A step draws at most one message under a new id. -/
theorem Step.stake_new (hr : Reach (cluster site) ok c) (hok : ok c l) (hst : Step site c l c')
    (hid : id ∉ c.world.ids) (far : Bool) : c'.stake id far ≤ 1 := by
  have hkeys := keyed hr
  have hold : c.stake id far = 0 := hkeys.stake_zero hid
  by_cases hid' : id ∈ c'.world.ids
  · cases hst with
    | @op p ps o k r f n hp hk hx =>
      have hin : p ∈ c.procs := hp ▸ Multiset.mem_cons_self _ _
      cases hx with
      | newID hnew =>
        rcases List.mem_cons.mp hid' with rfl | hmem
        · rw [Cluster.stake_cons hp] at hold
          have hnone : p.task.carries id = false := by
            cases hc : p.task.carries id with
            | false => rfl
            | true =>
              obtain ⟨j, hj, he⟩ := (Option.any_eq_true _ _).mp hc
              exact absurd (of_decide_eq_true he ▸ ((hkeys.tasks p hin).job hj).drawn) hid
          show c.world.stake id far + procsStake (_ ::ₘ ps) id far ≤ 1
          rw [procsStake_cons]
          show _ + (p.task.stake p.held.isSome (.drawn id) id far + _) ≤ 1
          rw [Task.stake_of_not_carries hnone, Phase.carries_of_pending rfl, decide_eq_true rfl]
          show _ + (1 + _) ≤ 1
          omega
        · exact absurd hmem hid
      | write =>
        dsimp only at hid'
        rw [World.after_ids] at hid'
        exact absurd hid' hid
      | ask => exact absurd hid' hid
      | settle =>
        dsimp only at hid'
        split at hid' <;> exact absurd hid' hid
    | start | finish | expire | lose | crash | tick => exact absurd hid' hid
  · exact ((keyed (.step hr hok hst)).stake_zero hid').le.trans (Nat.zero_le _)

/-- A requeue publishes one job. -/
theorem Step.stake_requeue {p : Proc} {j : RelayJob} {r : Bool} {f : Fate}
    (hst : Step site c (.op p (.write (.publishRelayJob j)) r f) c')
    (ht : p.task = .requeue j.messageID) (hph : ∀ id, p.phase.pending ≠ some id) (id : MsgId)
    (far : Bool) : c'.stake id far ≤ 1 + c.stake id far := by
  cases hst with
  | @op _ ps _ k _ _ n hp hk hx =>
    cases hx with
    | write hposs =>
      rw [Cluster.stake_cons hp]
      show (c.world.after p.task (.publishRelayJob j) f).stake id far +
        procsStake (p.resume _ _ ::ₘ ps) id far ≤ _
      rw [procsStake_cons]
      show _ + (p.task.stake p.held.isSome (p.phase.nextWrite f.reported (.publishRelayJob j)) id far
        + _) ≤ _
      have hstake : (c.world.after p.task (.publishRelayJob j) f).stake id far =
          (if f.applied then jobStake id far (.work, .job j) else 0) + c.world.stake id far :=
        World.stake_after _ _ (.publishRelayJob j) f id far
      have hone : (if f.applied then jobStake id far (.work, .job j) else 0) ≤ 1 := by
        split
        · exact Bool.toNat_le _
        · exact Nat.zero_le _
      have hend : p.phase.nextWrite f.reported (.publishRelayJob j) = .ended := by
        cases hp' : p.phase with
        | inserted i => exact absurd (by rw [hp']; rfl) (hph i)
        | _ => rfl
      have hown : p.task.stake p.held.isSome .ended id far = 0 := by
        rw [Task.stake_of_not_carries (by rw [ht]; rfl)]
        rfl
      rw [hstake, hend, hown]
      omega

end

end Novamail

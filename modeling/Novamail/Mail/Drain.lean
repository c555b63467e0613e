/-
  Getting everything off the broker.

  Any delivery that is on the broker can be taken off: a handler has a run that ends, and so that
  what it leaves behind weighs less (`exists_takes`).  A delivery that finds no route defers its job,
  a dead letter is answered once, a TTL expires.  Which run a handler takes is up to what it asks:
  the snapshot may hold a route or none, signing may work or not.  A job whose body is gone has no
  such run.  Every worker hands it back whatever the answers are, nobody stores the body again, and
  it goes round for ever (`Cluster.Lost.step`).  So some answers empty the broker exactly when no
  body is missing (`drainable_tfae`).  That all answers do is not said: where signing always fails,
  a job goes round with its body in the store.
-/
import Mathlib.Tactic.TFAE
import Novamail.Mail.Bodies
import Novamail.Mail.Work
import Novamail.System.Whole

namespace Novamail

open Novamail.Core

/-- The weight of a job on the broker: two for each ack it may still lead to, one for its TTL, and
    one for being there. -/
def weigh (d : Queue × Wire) : Nat := 2 * effortOf d + d.1.isWait.toNat + 1

/-! ## Letting a handler run -/

/-- From here the program can end, uninterrupted, so. -/
def CanEnd {α : Type} (net : Net) (t : Task) (c : Conf) (m : Handler α) (P : α → Conf → Prop) :
    Prop :=
  ∃ a c', Prog.Run (fun c o r c' => ∃ f, Exec net t c o r f c') c m a c' ∧ P a c'

namespace CanEnd

variable {α β : Type} {net : Net} {t : Task} {c : Conf} {P : α → Conf → Prop}

theorem pure {a : α} (h : P a c) : CanEnd net t c (Pure.pure a) P := ⟨a, c, .pure, h⟩

theorem call {o : Op} {r : o.Ret} {f : Fate} {c' : Conf} {k : o.Ret → Handler α}
    (hx : Exec net t c o r f c') (h : CanEnd net t c' (k r) P) :
    CanEnd net t c (.call o k) P := by
  obtain ⟨a, n, hrun, hn⟩ := h
  exact ⟨a, n, .call ⟨f, hx⟩ hrun, hn⟩

theorem bind {m : Handler α} {f : α → Handler β} {Q : β → Conf → Prop}
    (h : CanEnd net t c m fun a c' => CanEnd net t c' (f a) Q) : CanEnd net t c (m >>= f) Q := by
  obtain ⟨a, n, hrun, hn⟩ := h
  induction hrun with
  | pure => exact hn
  | call head _ ih =>
    obtain ⟨fate, hx⟩ := head
    exact call hx (ih hn)

/-- A query that is answered so. -/
theorem ask {q : Query} {f : q.Ret → Handler α} (r : q.Ret) (hr : q.Answers net c.world r)
    (h : CanEnd net t { c with
      world := c.world.record (t.markQuery q r), phase := c.phase.nextQuery q r } (f r) P) :
    CanEnd net t c (Novamail.ask q >>= f) P := call (.ask hr) h

/-- A write that fails, without effect. -/
theorem fail {wr : Write} {f : Bool → Handler α}
    (h : CanEnd net t { c with
      world := c.world.after t wr .failed, phase := c.phase.nextWrite false wr } (f false) P) :
    CanEnd net t c (write wr >>= f) P := call (.write (f := .failed) rfl) h

/-- A write that is done. -/
theorem done {wr : Write} {f : Bool → Handler α} (hwr : wr.enabled c.world = true)
    (h : CanEnd net t { c with
      world := c.world.after t wr .ok, phase := c.phase.nextWrite true wr } (f true) P) :
    CanEnd net t c (write wr >>= f) P := call (.write (f := .ok) hwr) h

/-- The verdict is the last call. -/
theorem settle {v : Verdict} {P : Unit → Conf → Prop}
    (h : P () { world := if v.requeues then c.world.giveBack c.held else c.world
                held := none, phase := .done }) : CanEnd net t c (Novamail.settle v) P :=
  call .settle (pure h)

theorem mono {m : Handler α} {Q : α → Conf → Prop} (h : CanEnd net t c m P)
    (himp : ∀ a n, P a n → Q a n) : CanEnd net t c m Q := by
  obtain ⟨a, n, hrun, hn⟩ := h
  exact ⟨a, n, hrun, himp a n hn⟩

/-- An id that is free. -/
theorem newID {f : MsgId → Handler α} {id : MsgId} (hid : id ∉ c.world.ids)
    (h : CanEnd net t { c with
      world := { c.world with ids := id :: c.world.ids }, phase := .drawn id } (f id) P) :
    CanEnd net t c (Novamail.newID >>= f) P := call (.newID hid) h

end CanEnd

/-! ## What a delivery can leave behind -/

/-- A job that is to be delivered has its body in the store. -/
def Deliverable (w : World) (d : Queue × Wire) : Prop :=
  ∀ j, d.2 = .job j → d.1 ≠ .dlq → (w.bodies j.bodyRef.key).isSome = true

/-- The broker has got these jobs, which can be delivered, and no body is gone. -/
structure Yields (w : World) (news : Multiset (Queue × Wire)) (w' : World) : Prop where
  bus : w'.bus = news + w.bus
  bodies : ∀ k, (w.bodies k).isSome = true → (w'.bodies k).isSome = true
  news : ∀ d ∈ news, Deliverable w' d

section
variable {net : Net} {t : Task} {c : Conf} {w w' : World} {j : RelayJob}

theorem Yields.nothing (hbus : w'.bus = w.bus) (hbodies : w'.bodies = w.bodies) :
    Yields w 0 w' where
  bus := by rw [hbus, zero_add]
  bodies k hk := by rw [hbodies, hk]
  news d hd := absurd hd (Multiset.notMem_zero d)

theorem deliverable_singleton {q : Queue} (hb : (w.bodies j.bodyRef.key).isSome = true) :
    ∀ d ∈ ({(q, .job j)} : Multiset (Queue × Wire)), Deliverable w d := by
  rintro d hd j' hj' -
  cases Multiset.mem_singleton.mp hd
  cases hj'
  exact hb

theorem chain_empty (hints : RoutingHints) : ({} : RouteState).chain hints = [] :=
  List.filterMap_eq_nil_iff.mpr fun _ _ => rfl

/-- The queue that a deferred job goes to. -/
def deferredTo (attempt : Int) : Queue := ((tierForAttempt attempt).map (·.queue)).getD .dlq

/-- The job of the next attempt. -/
def RelayJob.next (j : RelayJob) : RelayJob := { j with attempt := j.attempt + 1 }

/-- A deferral whose attempt is not recorded. -/
theorem canEnd_defer (detail : String) (hb : (c.world.bodies j.bodyRef.key).isSome = true) :
    CanEnd net t c (Delivery.defer_ j detail) fun _ n =>
      Yields c.world {(deferredTo j.next.attempt, .job j.next)} n.world := by
  have hyields : ∀ {n : Conf} {q : Queue}, n.world.bodies = c.world.bodies →
      n.world.bus = (q, .job j.next) ::ₘ c.world.bus →
        Yields c.world {(q, .job j.next)} n.world := by
    intro n q hbodies hbus
    refine ⟨hbus, fun k hk => by rw [hbodies, hk], deliverable_singleton ?_⟩
    rw [hbodies]
    exact hb
  unfold Delivery.defer_
  refine .ask () trivial (.fail ?_)
  unfold deferredTo
  cases htier : tierForAttempt j.next.attempt with
  | some tier =>
    simp only [show tierForAttempt (j.attempt + 1) = some tier from htier]
    exact .done rfl (.settle (hyields rfl rfl))
  | none =>
    simp only [show tierForAttempt (j.attempt + 1) = none from htier]
    exact .done rfl (.settle (hyields rfl rfl))

/-- A delivery that finds no route. -/
theorem canEnd_deliver (hb : (c.world.bodies j.bodyRef.key).isSome = true) :
    CanEnd net t c (Delivery.handle (.job j)) fun _ n =>
      Yields c.world {(deferredTo j.next.attempt, .job j.next)} n.world := by
  obtain ⟨b, hget⟩ := Option.isSome_iff_exists.mp hb
  -- a worker that has loaded no configuration: it neither signs nor finds a provider
  unfold Delivery.handle Delivery.handleJob Delivery.materialize
  refine .bind (.ask (some b) (.inr hget.symm) (.ask ({} : RouteState) trivial (.pure ?_)))
  refine .ask ({} : RouteState) trivial ?_
  simp only [chain_empty, List.isEmpty_nil, if_true]
  refine (canEnd_defer _ ?_).mono ?_
  · exact hb
  · intro a n h
    exact ⟨h.bus, h.bodies, h.news⟩

/-- The suppressions of a dead letter, none of them written. -/
theorem canEnd_suppressAll (detail : String) (rcpts : List String) {P : Unit → Conf → Prop}
    (hP : ∀ n : Conf, n.world.bus = c.world.bus → n.world.bodies = c.world.bodies →
      n.world.rows = c.world.rows → n.world.ids = c.world.ids → P () n) :
    CanEnd net t c (Dsn.suppressAll detail rcpts) P := by
  induction rcpts generalizing c with
  | nil => exact .pure (hP c rfl rfl rfl rfl)
  | cons r rs ih =>
    unfold Dsn.suppressAll
    exact .fail (ih fun n hbus hbodies hrows hids => hP n hbus hbodies hrows hids)

/-- A dead letter that is not answered. -/
theorem canEnd_bounce {host : String}
    (hown : j.envelope.mailFrom = "" ∨ j.dsnSuppress = true) :
    CanEnd net t c (Dsn.handle host (.job j)) fun _ n => Yields c.world 0 n.world := by
  have hlast : ∀ {n : Conf}, n.world.bus = c.world.bus → n.world.bodies = c.world.bodies →
      CanEnd net t n (do
        ask (.inc .suppressed)
        let _ ← write (.delete j.bodyRef.key)
        settle .ack) fun _ n => Yields c.world 0 n.world :=
    fun hbus hbodies => .ask () trivial (.fail (.settle (.nothing hbus hbodies)))
  unfold Dsn.handle Dsn.handleJob
  refine .ask "" (.inl rfl) (.fail ?_)
  by_cases hmail : j.envelope.mailFrom = ""
  · simp only [hmail, ne_eq, not_true_eq_false, if_false, true_or, if_true]
    exact hlast rfl rfl
  · simp only [hmail, ne_eq, not_false_eq_true, if_true, hown.resolve_left hmail, or_true]
    refine .bind (canEnd_suppressAll _ _ fun n hbus hbodies _ _ => .fail ?_)
    exact hlast hbus hbodies

theorem exists_free (ids : List MsgId) : ∃ id, id ∉ ids := by
  have hlong : ∃ n, ∀ id ∈ ids, id.toList.length < n := by
    induction ids with
    | nil => exact ⟨0, List.forall_mem_nil _⟩
    | cons id ids ih =>
      obtain ⟨n, hn⟩ := ih
      refine ⟨n + id.toList.length + 1, List.forall_mem_cons.mpr ⟨by omega, fun i hi => ?_⟩⟩
      have hlt := hn i hi
      omega
  obtain ⟨n, hn⟩ := hlong
  refine ⟨String.ofList (List.replicate n 'a'), fun hin => ?_⟩
  have hlt := hn _ hin
  rw [String.toList_ofList, List.length_replicate] at hlt
  omega

/-- A dead letter that is answered: the bounce is stored, recorded and published. -/
theorem canEnd_answer {host : String} (hw : c.world.Keyed) (hmail : j.envelope.mailFrom ≠ "")
    (hown : ¬j.dsnSuppress = true) :
    CanEnd net t c (Dsn.handle host (.job j)) fun _ n =>
      ∃ id, Yields c.world {(.work, .job (Dsn.dsnJob j id))} n.world := by
  obtain ⟨id, hid⟩ := exists_free c.world.ids
  have hrow : c.world.rows id = none := by
    cases hr : c.world.rows id with
    | none => rfl
    | some row => exact absurd (hw.rows hr).2 hid
  unfold Dsn.handle Dsn.handleJob
  refine .ask "" (.inl rfl) (.fail ?_)
  simp only [hmail, ne_eq, not_false_eq_true, if_true, hown]
  refine .bind (canEnd_suppressAll _ _ fun n hbus hbodies hrows hids => .fail ?_)
  have hfree : id ∉ n.world.ids := by
    rw [hids]
    exact hid
  unfold Dsn.bounce
  refine .newID hfree (.ask "" trivial (.done rfl ?_))
  refine .done ?_ (.done rfl (.fail (.ask () trivial (.settle ⟨id, ?_⟩))))
  · show (n.world.rows id).isNone = true
    rw [hrows]
    show (c.world.rows id).isNone = true
    rw [hrow]
    rfl
  · refine ⟨congrArg (Multiset.cons _) hbus, fun k hk => ?_, ?_⟩
    · show (Function.update n.world.bodies id (some _) k).isSome = true
      by_cases hki : k = id
      · subst hki
        rw [Function.update_self]
        rfl
      · rw [Function.update_of_ne hki, hbodies]
        exact hk
    · refine deliverable_singleton ?_
      show (Function.update n.world.bodies id (some _) id).isSome = true
      rw [Function.update_self]
      rfl

end

/-! ## Taking one delivery off -/

/-- A delivery has become these jobs, which can be delivered, and no body is gone. -/
structure Takes (w : World) (d : Queue × Wire) (news : Multiset (Queue × Wire)) (w' : World) :
    Prop where
  bus : w'.bus = news + w.bus.erase d
  bodies : ∀ k, (w.bodies k).isSome = true → (w'.bodies k).isSome = true
  news : ∀ d ∈ news, Deliverable w' d

/-- The label of a consumer's run, or of an expiry. -/
def WholeLabel.consumes (l : WholeLabel) : Prop := ∀ t, l = .run t → t.delivery.isSome = true

section
variable {site : Site} {w w' : World} {d : Queue × Wire} {j : RelayJob}

/-- A consumer that can end so takes its delivery off. -/
theorem CanEnd.takes {t : Task} {m : Handler Unit} {news : Multiset (Queue × Wire)}
    (ht : t.delivery = some d) (hd : d ∈ w.bus)
    (hprog : t.program site = m >>= fun _ => Pure.pure true)
    (h : CanEnd site.net t ⟨w.starting t, t.delivery, .start⟩ m fun _ n =>
      Yields (w.starting t) news n.world) (hnews : (news.map weigh).sum < weigh d) :
    ∃ l w' news, Whole site w l w' ∧ l.consumes ∧ Takes w d news w' ∧
      (news.map weigh).sum < weigh d := by
  have hend : CanEnd site.net t ⟨w.starting t, t.delivery, .start⟩ (t.program site) fun _ n =>
      Yields (w.starting t) news n.world := by
    rw [hprog]
    exact .bind (h.mono fun _ _ hn => .pure hn)
  obtain ⟨a, n, hrun, hn⟩ := hend
  refine ⟨.run t, _, news, .run (fun d' hd' => ?_) hrun, fun t' ht' => ?_,
    ⟨?_, hn.bodies, hn.news⟩, hnews⟩
  · rw [ht] at hd'
    cases hd'
    exact hd
  · cases ht'
    rw [ht]
    rfl
  · show n.world.bus = _
    rw [hn.bus]
    show news + (w.handOut t.delivery).bus = _
    rw [ht]
    rfl

theorem weigh_job {q : Queue} (hq : q ≠ .dlq) (j : RelayJob) :
    weigh (q, .job j) = 2 * (tries j.attempt + j.afterwards) + q.isWait.toNat + 1 := by
  rw [weigh, effortOf_job hq]

/-- The next attempt weighs less. -/
theorem weigh_next (j : RelayJob) :
    weigh (deferredTo j.next.attempt, .job j.next) < weigh (.work, .job j) := by
  have hpos := tries_pos j.attempt
  rw [weigh_job (q := .work) (by decide)]
  unfold deferredTo
  cases htier : tierForAttempt j.next.attempt with
  | some tier =>
    have hwait := tierForAttempt_isWait htier
    have htries : 1 + tries j.next.attempt ≤ tries j.attempt := tries_tier htier
    show weigh (tier.queue, .job j.next) < _
    rw [weigh_job (fun h => by rw [h] at hwait; cases hwait), hwait]
    show 2 * (tries j.next.attempt + j.afterwards) + 1 + 1 <
      2 * (tries j.attempt + j.afterwards) + 0 + 1
    omega
  | none =>
    show 2 * j.afterwards + 0 + 1 < 2 * (tries j.attempt + j.afterwards) + 0 + 1
    omega

/-- A bounce weighs less than the dead letter that it answers. -/
theorem weigh_bounce (hmail : j.envelope.mailFrom ≠ "") (id : MsgId) :
    weigh (.work, .job (Dsn.dsnJob j id)) < weigh (.dlq, .job j) := by
  have hafter : j.afterwards = 6 := if_neg hmail
  show 2 * (4 + 1) + 0 + 1 < 2 * j.afterwards + 0 + 1
  omega

variable (site) in
/-- **Any delivery can be taken off**, for jobs that weigh less together. -/
theorem exists_takes (hw : w.Keyed) (hd : d ∈ w.bus) (hready : Deliverable w d) :
    ∃ l w' news, Whole site w l w' ∧ l.consumes ∧ Takes w d news w' ∧
      (news.map weigh).sum < weigh d := by
  obtain ⟨q, wire⟩ := d
  by_cases hq : q.isWait = true
  · -- its TTL expires
    have hne : q ≠ .dlq := by
      rintro rfl
      cases hq
    refine ⟨_, _, {(.work, wire)}, .expire hq hd, ?_, ⟨rfl, fun _ hk => hk, ?_⟩, ?_⟩
    · intro t ht
      cases ht
    · rintro d' hd' j hj -
      cases Multiset.mem_singleton.mp hd'
      exact hready j hj hne
    · rw [Multiset.map_singleton, Multiset.sum_singleton, weigh, weigh, hq]
      cases wire with
      | garbage =>
        show 2 * 0 + 0 + 1 < 2 * effortOf (q, .garbage) + 1 + 1
        omega
      | job j =>
        rw [effortOf_job hne, effortOf_job (q := .work) (by decide)]
        show _ + 0 + 1 < _ + 1 + 1
        omega
  · have hcases : q = .work ∨ q = .dlq := by
      cases q with
      | work => exact .inl rfl
      | dlq => exact .inr rfl
      | wait30s | wait5m | wait30m => exact absurd rfl hq
    rcases hcases with rfl | rfl
    · cases wire with
      | garbage =>
        exact CanEnd.takes (t := .deliver .garbage) (m := Delivery.handle .garbage) rfl hd rfl
          (.settle (.nothing rfl rfl)) (Nat.succ_pos _)
      | job j =>
        have hbody : (w.bodies j.bodyRef.key).isSome = true :=
          hready j rfl (fun h => by cases h)
        refine CanEnd.takes (t := .deliver (.job j)) (m := Delivery.handle (.job j)) rfl hd rfl
          (canEnd_deliver hbody) ?_
        rw [Multiset.map_singleton, Multiset.sum_singleton]
        exact weigh_next j
    · cases wire with
      | garbage =>
        exact CanEnd.takes (t := .bounce .garbage) (m := Dsn.handle site.host .garbage) rfl hd rfl
          (.settle (.nothing rfl rfl)) (Nat.succ_pos _)
      | job j =>
        by_cases hown : j.envelope.mailFrom = "" ∨ j.dsnSuppress = true
        · exact CanEnd.takes (t := .bounce (.job j)) (m := Dsn.handle site.host (.job j)) rfl hd rfl
            (canEnd_bounce hown) (Nat.succ_pos _)
        · obtain ⟨hmail, hkeep⟩ := not_or.mp hown
          have hkeyed : (w.starting (.bounce (.job j))).Keyed :=
            hw.of_subset (fun _ hm => Multiset.mem_of_mem_erase hm) rfl rfl fun _ hi => hi
          have hend : CanEnd site.net (.bounce (.job j))
              ⟨w.starting (.bounce (.job j)), some (.dlq, .job j), .start⟩
              (Dsn.handle site.host (.job j)) fun _ n => ∃ id,
                Yields (w.starting (.bounce (.job j))) {(.work, .job (Dsn.dsnJob j id))} n.world :=
            canEnd_answer hkeyed hmail hkeep
          obtain ⟨a, n, hrun, id, hyields⟩ := hend
          refine CanEnd.takes (t := .bounce (.job j)) (m := Dsn.handle site.host (.job j)) rfl hd
            rfl ⟨a, n, hrun, hyields⟩ ?_
          rw [Multiset.map_singleton, Multiset.sum_singleton]
          exact weigh_bounce hmail id

/-! ## Draining the broker -/

/-- Only consumers run, and nothing breaks. -/
def consuming (c : Cluster) (l : Label) : Prop :=
  calm c l ∧ ∀ t, l = .start t → t.delivery.isSome = true

theorem permits_consuming : Permits consuming := fun _ _ h hs => ⟨h, fun t ht => absurd ht (hs t)⟩

theorem Deliverable.mono (h : Deliverable w d)
    (hbodies : ∀ k, (w.bodies k).isSome = true → (w'.bodies k).isSome = true) : Deliverable w' d :=
  fun j hj hq => hbodies _ (h j hj hq)

theorem Takes.deliverable {news : Multiset (Queue × Wire)} (h : Takes w d news w')
    (hready : ∀ d ∈ w.bus, Deliverable w d) : ∀ d ∈ w'.bus, Deliverable w' d := by
  intro d' hd'
  rw [h.bus] at hd'
  rcases Multiset.mem_add.mp hd' with hnew | hold
  · exact h.news d' hnew
  · exact (hready d' (Multiset.mem_of_mem_erase hold)).mono h.bodies

/-- What is on the broker weighs less then. -/
theorem Takes.lighter {news : Multiset (Queue × Wire)} (h : Takes w d news w') (hd : d ∈ w.bus)
    (hnews : (news.map weigh).sum < weigh d) :
    (w'.bus.map weigh).sum < (w.bus.map weigh).sum := by
  have hsplit : (w.bus.map weigh).sum = weigh d + ((w.bus.erase d).map weigh).sum := by
    conv_lhs => rw [← Multiset.cons_erase hd]
    rw [Multiset.map_cons, Multiset.sum_cons]
  rw [h.bus, Multiset.map_add, Multiset.sum_add, hsplit]
  omega

/-- The consumers can get everything off the broker. -/
theorem exists_drain {ok : Cluster → Label → Prop} (hok : ∀ c l, consuming c l → ok c l)
    (hr : Reach (cluster site) anyStep ⟨w, 0⟩) (hready : ∀ d ∈ w.bus, Deliverable w d) :
    ∃ w', Steps (cluster site) ok ⟨w, 0⟩ ⟨w', 0⟩ ∧ w'.bus = 0 := by
  -- every delivery that is taken off makes what is on the broker lighter
  induction hn : (w.bus.map weigh).sum using Nat.strong_induction_on generalizing w with
  | _ n ih =>
    by_cases hempty : w.bus = 0
    · exact ⟨w, .refl _, hempty⟩
    · obtain ⟨d, hd⟩ := Multiset.exists_mem_of_ne_zero hempty
      obtain ⟨l, w1, news, hstep, hl, htakes, hnews⟩ :=
        exists_takes site (keyed hr).world hd (hready d hd)
      have hsteps : Steps (cluster site) ok ⟨w, 0⟩ ⟨w1, 0⟩ := by
        refine Whole.steps (fun c l h hs => hok c l (permits_consuming c l h hs)) hstep ?_
        intro t ht c
        refine hok _ _ ⟨trivial, fun t' ht' => ?_⟩
        cases ht'
        exact hl t ht
      have hany : Steps (cluster site) anyStep ⟨w, 0⟩ ⟨w1, 0⟩ :=
        Whole.steps (fun _ _ _ _ => trivial) hstep fun _ _ _ => trivial
      have hlighter := htakes.lighter hd hnews
      rw [hn] at hlighter
      obtain ⟨w', hrest, hbus⟩ := ih _ hlighter (hr.trans hany) (htakes.deliverable hready) rfl
      exact ⟨w', hsteps.trans hrest, hbus⟩

end

/-! ## A job without its body -/

/-- What is left of a delivery whose body could not be read. -/
def handingBack : Handler Bool := .call (.settle (.nack true)) fun _ => .pure true

section
variable {site : Site} {c c' : Cluster} {l : Label} {j : RelayJob}

variable (site) in
/-- The job is still to be delivered: it is on the broker, or a worker has it that has not read its
    body. -/
def Cluster.AtLarge (c : Cluster) (j : RelayJob) : Prop :=
  (∃ q, q ≠ Queue.dlq ∧ (q, .job j) ∈ c.world.bus) ∨
    ∃ p ∈ c.procs, p.held = some (.work, .job j) ∧
      (p.prog = (Task.deliver (.job j)).program site ∨ p.prog = handingBack)

variable (site) in
/-- The body of a job is gone, nobody is about to store it, and the job is still to be delivered. -/
structure Cluster.Lost (c : Cluster) (j : RelayJob) : Prop where
  drawn : j.bodyRef.key ∈ c.world.ids
  gone : c.world.bodies j.bodyRef.key = none
  unstored : ∀ p ∈ c.procs, p.phase.pending ≠ some j.bodyRef.key
  atLarge : c.AtLarge site j

/-- A delivery starts by reading the body, and hands the job back when there is none. -/
theorem program_deliver (site : Site) (j : RelayJob) : ∃ k : Option Bytes → Handler Bool,
    (Task.deliver (.job j)).program site = .call (.ask (.get j.bodyRef.key)) k ∧
      k none = handingBack := ⟨_, rfl, rfl⟩

/-- A task stores a body under the id of the message it is bringing in. -/
theorem Turn.pending_of_stores {t : Task} {ph ph' : Phase} {wr : Write} {r : Bool} {k : String}
    {b : Bytes} (h : Turn t ph (.write wr) r ph') (hs : wr = .put k b ∨ wr = .insertBody k b) :
    ph.pending = some k := by
  rcases hs with rfl | rfl
  · cases h with
    | put => rfl
  · cases h with
    | insertBody => rfl

/-- A lost body is not stored again. -/
theorem Cluster.Lost.still_gone (hl : c.Lost site j) (hr : Reach (cluster site) anyStep c)
    (h : Step site c l c') : c'.world.bodies j.bodyRef.key = none := by
  by_contra hback
  have hthere : (c'.world.bodies j.bodyRef.key).isSome = true := Option.ne_none_iff_isSome.mp hback
  rcases h.body_cases hthere with hold | ⟨p, wr, r, f, rfl, -, b, hput⟩
  · rw [hl.gone] at hold
    cases hold
  · obtain ⟨hin, hturn⟩ := Step.turn hr h
    exact hl.unstored p hin (hturn.pending_of_stores hput)

theorem Cluster.Lost.still_unstored (hl : c.Lost site j) (hr : Reach (cluster site) anyStep c)
    (h : Step site c l c') : ∀ p ∈ c'.procs, p.phase.pending ≠ some j.bodyRef.key := by
  intro p' hp' hpending
  rcases h.proc_cases hp' with hp | ⟨t, -, rfl, -⟩ | ⟨p, o, k, r, f, n, -, hp, hk, hx, rfl⟩ |
    ⟨p, hp, -, rfl⟩
  · exact hl.unstored p' hp hpending
  · cases hpending
  · have hturn := (procs_ok hr p hp).turn_to hk hx
    rcases hx.pending_cases hturn hpending with hbefore | hfresh
    · exact hl.unstored p hp hbefore
    · exact hfresh hl.drawn
  · exact hl.unstored p hp hpending

/-- What a worker gives back is on the broker. -/
theorem Cluster.AtLarge.of_giveBack {w : World} {ps : Multiset Proc} {p : Proc}
    (hheld : p.held = some (.work, .job j)) : Cluster.AtLarge site ⟨w.giveBack p.held, ps⟩ j := by
  rw [hheld]
  exact .inl ⟨.work, by decide, Multiset.mem_cons_self _ _⟩

/-- A worker that has the job hands it back: it finds no body. -/
theorem Cluster.Lost.worker_at_large (hl : c.Lost site j) (h : Step site c l c') {p : Proc}
    (hp : p ∈ c.procs) (hheld : p.held = some (.work, .job j))
    (hprog : p.prog = (Task.deliver (.job j)).program site ∨ p.prog = handingBack) :
    c'.AtLarge site j := by
  obtain ⟨k, hstart, hnone⟩ := program_deliver site j
  rcases h.proc_kept hp with hkept | ⟨o, k', r, f, n, rfl, hk, hx, hworld, hp'⟩ | ⟨b, rfl, hk⟩ |
    rfl | rfl
  · exact .inr ⟨p, hkept, hheld, hprog⟩
  · rcases hprog with hprog | hprog
    · -- it asks for the body, and whatever the store is like there is none
      rw [hprog, hstart] at hk
      cases hk
      cases hx with
      | ask hanswers =>
        have hr : r = none := by
          rcases hanswers with hanswers | hanswers
          · exact hanswers
          · exact hanswers.trans hl.gone
        subst hr
        exact .inr ⟨_, hp', hheld, .inr hnone⟩
    · -- it hands the job back
      rw [hprog] at hk
      cases hk
      cases hx with
      | settle =>
        refine .inl ⟨.work, by decide, ?_⟩
        rw [hworld]
        show _ ∈ (c.world.giveBack p.held).bus
        rw [hheld]
        exact Multiset.mem_cons_self _ _
  · rcases hprog with hprog | hprog
    · rw [hprog, hstart] at hk
      cases hk
    · rw [hprog] at hk
      cases hk
  · cases h with
    | lose => exact .of_giveBack hheld
  · cases h with
    | crash => exact .of_giveBack hheld

/-- **A job without its body is never got rid of.** -/
theorem Cluster.Lost.step (hl : c.Lost site j) (hr : Reach (cluster site) anyStep c)
    (h : Step site c l c') : c'.Lost site j where
  drawn := h.ids_subset hl.drawn
  gone := hl.still_gone hr h
  unstored := hl.still_unstored hr h
  atLarge := by
    rcases hl.atLarge with ⟨q, hq, hmem⟩ | ⟨p, hp, hheld, hprog⟩
    · rcases h.job_kept hmem with hkept | ⟨-, hwork⟩ | ⟨t, hdel, hin⟩
      · exact .inl ⟨q, hq, hkept⟩
      · exact .inl ⟨.work, by decide, hwork⟩
      · -- only a delivery takes a job off a queue that is not the DLQ
        cases t with
        | deliver w =>
          cases hdel
          exact .inr ⟨_, hin, rfl, .inl rfl⟩
        | bounce w =>
          cases hdel
          exact absurd rfl hq
        | _ => cases hdel
    · exact hl.worker_at_large h hp hheld hprog

theorem Cluster.Lost.steps {ok : Cluster → Label → Prop} (hl : c.Lost site j)
    (hr : Reach (cluster site) anyStep c) (h : Steps (cluster site) ok c c') : c'.Lost site j := by
  induction h with
  | refl => exact hl
  | head _ hst _ ih => exact ih (hl.step hr hst) (hr.step trivial hst)

/-- A run that ends with nothing on the broker and nothing running began with every body there. -/
theorem deliverable_of_drained {ok : Cluster → Label → Prop} (hr : Reach (cluster site) anyStep c)
    (hidle : c.procs = 0) (h : Steps (cluster site) ok c c') (hbus : c'.world.bus = 0)
    (hover : c'.procs = 0) : ∀ d ∈ c.world.bus, Deliverable c.world d := by
  rintro ⟨q, wire⟩ hd j rfl hq
  by_contra hgone
  have hknown := (keyed hr).world.jobs hd
  have hlost : c.Lost site j :=
    { drawn := by
        rw [hknown.key]
        exact hknown.drawn
      gone := Option.not_isSome_iff_eq_none.mp hgone
      unstored := fun p hp => by
        rw [hidle] at hp
        exact absurd hp (Multiset.notMem_zero p)
      atLarge := .inl ⟨q, hq, hd⟩ }
  rcases (hlost.steps hr h).atLarge with ⟨q', -, hmem⟩ | ⟨p, hp, -⟩
  · rw [hbus] at hmem
    exact Multiset.notMem_zero _ hmem
  · rw [hover] at hp
    exact Multiset.notMem_zero p hp

/-- **The broker can be emptied exactly when no body is missing.**  With nothing running, these say
    the same: every job that is still to be delivered has its body in the store; the consumers,
    undisturbed, get everything off the broker for some answers to what they ask; some run at all
    does, whatever else happens in it. -/
theorem drainable_tfae (hr : Reach (cluster site) anyStep c) (hidle : c.procs = 0) :
    [∀ d ∈ c.world.bus, Deliverable c.world d,
      ∃ c', Steps (cluster site) consuming c c' ∧ c'.world.bus = 0 ∧ c'.procs = 0,
      ∃ c', Steps (cluster site) anyStep c c' ∧ c'.world.bus = 0 ∧ c'.procs = 0].TFAE := by
  obtain ⟨w, ps⟩ := c
  obtain rfl : ps = 0 := hidle
  tfae_have 1 → 2 := by
    intro hready
    obtain ⟨w', hsteps, hbus⟩ := exists_drain (fun _ _ h => h) hr hready
    exact ⟨⟨w', 0⟩, hsteps, hbus, rfl⟩
  tfae_have 1 → 3 := by
    intro hready
    obtain ⟨w', hsteps, hbus⟩ := exists_drain (fun _ _ _ => trivial) hr hready
    exact ⟨⟨w', 0⟩, hsteps, hbus, rfl⟩
  tfae_have 2 → 1 := by
    rintro ⟨c', hsteps, hbus, hover⟩
    exact deliverable_of_drained hr rfl hsteps hbus hover
  tfae_have 3 → 1 := by
    rintro ⟨c', hsteps, hbus, hover⟩
    exact deliverable_of_drained hr rfl hsteps hbus hover
  tfae_finish

end

/-- After a message was requeued and one of its two jobs delivered, the other stays. -/
theorem drainable_requeued : ∃ c, Reach (cluster (plainSite anyReply)) anyStep c ∧
    c.procs = 0 ∧ c.world.bus ≠ 0 ∧
      ¬∃ c', Steps (cluster (plainSite anyReply)) anyStep c c' ∧ c'.world.bus = 0 ∧
        c'.procs = 0 := by
  have hplay : (Stage.script (plainSite anyReply) deliveringOracle {} requeuedDeliveredScript).any
      (fun s => s.procs.isEmpty &&
        ((.work, .job (Ingress.relayJob (envelopeSession "a@s.test" ["b@r.test"]) "m1")) ∈
          s.world.bus ∧ s.world.bodies "m1" = none)) = true := by decide
  obtain ⟨s, hs, hend⟩ := (Option.any_eq_true _ _).mp hplay
  obtain ⟨hempty, hend⟩ := Bool.and_eq_true_iff.mp hend
  obtain ⟨hmem, hgone⟩ := of_decide_eq_true hend
  have hr : Reach (cluster (plainSite anyReply)) anyStep s.cluster :=
    Stage.script_reach Task.serves (by decide) (fun _ _ _ _ _ _ _ _ _ _ => trivial)
      Stage.empty_reach (fun p hp => absurd hp List.not_mem_nil) hs
  have hidle : s.cluster.procs = 0 := congrArg _ (List.isEmpty_iff.mp hempty)
  refine ⟨s.cluster, hr, hidle, fun h => ?_, fun hdrain => ?_⟩
  · rw [show s.world.bus = 0 from h] at hmem
    exact Multiset.notMem_zero _ hmem
  · have hready := ((drainable_tfae hr hidle).out 2 0).mp hdrain
    have hbody : (s.world.bodies "m1").isSome = true :=
      hready _ hmem _ rfl (fun h => by cases h)
    rw [hgone] at hbody
    cases hbody

end Novamail

/-
  The suppression list, from the row to the RCPT.

  An address is put on the list by one statement, read by another, lowercased by both and by the
  lookup, and between the two the ingress keeps a snapshot.  `Door` is the tables with the snapshot;
  its steps are the statements that change the list, a reload, and whatever else happens to the
  tables.

  What a reload reads of an address is when its rows expire (`marks`).  The insert of an address
  adds a row that does not expire, and when there is a row already it leaves the expiry as it is.
-/
import Novamail.Core.System
import Novamail.Ingress.Session

namespace Novamail

open Novamail.Core

/-! ## The tables and the snapshot -/

/-- The configuration tables, and the inbound policy the ingress has built. -/
structure Door where
  db : ConfigDb := {}
  policy : Option InboundPolicy := none

/-- What happens to them. -/
inductive DoorAct where
  /-- `AddSuppression`, or the insert of the Admin API, succeeds. -/
  | add (address : String) (reason : SuppressReason) (source : String) (detail : Option String)
  /-- `DELETE /api/suppressions/:address`. -/
  | remove (address : String)
  /-- `buildInbound`, and whether its read of the suppressions failed. -/
  | reload (failed : Bool)
  /-- Time passes, or another table changes. -/
  | other

/-- The tables with another suppression list. -/
def ConfigDb.withSuppressions (db : ConfigDb) (rows : List Suppression) : ConfigDb :=
  { db with suppressions := rows }

inductive Door.Step (P : Platform) : Door → DoorAct → Door → Prop where
  | add {g : Door} {a : String} {reason : SuppressReason} {source : String}
      {detail : Option String} :
      Step P g (.add a reason source detail)
        { g with db := g.db.withSuppressions (Write.upsert (lower a)
          (Write.suppressionRow (lower a) reason source detail) g.db.suppressions) }
  | remove {g : Door} {a : String} :
      Step P g (.remove a)
        { g with db := g.db.withSuppressions (g.db.suppressions.filter (·.address ≠ lower a)) }
  | reload {g : Door} (o : Outage g.db) :
      Step P g (.reload (o.fails .getSuppressions))
        { g with policy := some ((buildInbound P).eval o.ans) }
  | other {g : Door} {db : ConfigDb} (hs : db.suppressions = g.db.suppressions)
      (hc : g.db.clock ≤ db.clock) : Step P g .other { g with db := db }

/-! ## When the rows of an address expire -/

/-- The expiries of the rows of an address, given lowercased. -/
def marks (k : String) (rows : List Suppression) : List (Option Nat) :=
  (rows.filter fun s => lower s.address = k).map (·.expiresAt)

/-- A row with this expiry still counts. -/
def unexpired (clock : Nat) (e : Option Nat) : Bool := e.all (clock < ·)

theorem marks_cons (k : String) (s : Suppression) (rows : List Suppression) :
    marks k (s :: rows) =
      if lower s.address = k then s.expiresAt :: marks k rows else marks k rows := by
  unfold marks
  by_cases h : lower s.address = k
  · simp [h]
  · simp [h]

/-- The address has a row. -/
def listed (k : String) (rows : List Suppression) : Prop := ∃ s ∈ rows, s.address = k

/-- The row of an upsert: it has the address, and the expiry of the row that was there. -/
structure Refreshes (x : String) (f : Option Suppression → Suppression) : Prop where
  new : (f none).address = x ∧ (f none).expiresAt = none
  old : ∀ s : Suppression, s.address = x →
    (f (some s)).address = x ∧ (f (some s)).expiresAt = s.expiresAt

theorem suppressionRow_refreshes (x : String) (reason : SuppressReason) (source : String)
    (detail : Option String) : Refreshes x (Write.suppressionRow x reason source detail) where
  new := ⟨rfl, rfl⟩
  old s hs := by
    cases detail with
    | none => exact ⟨hs, rfl⟩
    | some d => exact ⟨hs, rfl⟩

/-- The upsert of an address adds a row that does not expire, or leaves every expiry as it is. -/
theorem marks_upsert {k x : String} {f : Option Suppression → Suppression} (hf : Refreshes x f)
    (rows : List Suppression) :
    (listed x rows ∧ marks k (Write.upsert x f rows) = marks k rows) ∨
      (¬ listed x rows ∧ marks k (Write.upsert x f rows) =
        marks k rows ++ if lower x = k then [none] else []) := by
  induction rows with
  | nil =>
    have hnone : ¬ listed x [] := by
      rintro ⟨s, hs, -⟩
      cases hs
    refine .inr ⟨hnone, ?_⟩
    show marks k [f none] = _
    rw [marks_cons, hf.new.1, hf.new.2]
    rfl
  | cons s rows ih =>
    unfold Write.upsert
    by_cases hs : s.address = x
    · obtain ⟨haddr, hexp⟩ := hf.old s hs
      refine .inl ⟨⟨s, List.mem_cons_self, hs⟩, ?_⟩
      rw [if_pos hs, marks_cons, marks_cons, haddr, hexp, hs]
    · have hlisted : listed x (s :: rows) ↔ listed x rows := by
        unfold listed
        simp [hs]
      rw [if_neg hs, marks_cons, marks_cons, hlisted]
      refine ih.imp ?_ ?_
      · rintro ⟨hin, heq⟩
        exact ⟨hin, by rw [heq]⟩
      · rintro ⟨hnot, heq⟩
        refine ⟨hnot, ?_⟩
        rw [heq]
        by_cases hk : lower s.address = k
        · rw [if_pos hk, if_pos hk]
          rfl
        · rw [if_neg hk, if_neg hk]

/-- After the upsert the address has a row, and so has every address that had one. -/
theorem listed_upsert {k x : String} {f : Option Suppression → Suppression} (hf : Refreshes x f)
    {rows : List Suppression} (h : listed k rows ∨ k = x) : listed k (Write.upsert x f rows) := by
  induction rows with
  | nil =>
    rcases h with ⟨_, hs, -⟩ | rfl
    · cases hs
    · exact ⟨_, List.mem_cons_self, hf.new.1⟩
  | cons s rows ih =>
    unfold Write.upsert
    by_cases hs : s.address = x
    · rw [if_pos hs]
      rcases h with ⟨s', hs', haddr⟩ | rfl
      · rcases List.mem_cons.mp hs' with rfl | hs'
        · exact ⟨_, List.mem_cons_self, (hf.old s' hs).1.trans (hs.symm.trans haddr)⟩
        · exact ⟨s', List.mem_cons_of_mem _ hs', haddr⟩
      · exact ⟨_, List.mem_cons_self, (hf.old s hs).1⟩
    · rw [if_neg hs]
      have hrest : s.address = k ∨ listed k rows ∨ k = x := by
        rcases h with ⟨s', hs', haddr⟩ | hk
        · rcases List.mem_cons.mp hs' with rfl | hs'
          · exact .inl haddr
          · exact .inr (.inl ⟨s', hs', haddr⟩)
        · exact .inr (.inr hk)
      rcases hrest with haddr | hrest
      · exact ⟨s, List.mem_cons_self, haddr⟩
      · obtain ⟨s', hs', haddr⟩ := ih hrest
        exact ⟨s', List.mem_cons_of_mem _ hs', haddr⟩

/-! ## Between the insert and the reload -/

/-- The address has a row, and its rows expire then. -/
def Door.Marked (g : Door) (k : String) (es : List (Option Nat)) : Prop :=
  listed k g.db.suppressions ∧ marks k g.db.suppressions = es

section
variable {P : Platform} {g g' : Door} {a : String} {es : List (Option Nat)}

/-- The insert of an address. -/
theorem Door.Step.added {reason : SuppressReason} {source : String} {detail : Option String}
    (h : Door.Step P g (.add a reason source detail) g') :
    (listed (lower a) g.db.suppressions ∧
        g'.Marked (lower a) (marks (lower a) g.db.suppressions)) ∨
      (¬ listed (lower a) g.db.suppressions ∧
        g'.Marked (lower a) (marks (lower a) g.db.suppressions ++ [none])) := by
  cases h with
  | add =>
    have hf := suppressionRow_refreshes (lower a) reason source detail
    have hin : listed (lower a) (Write.upsert (lower a) _ g.db.suppressions) :=
      listed_upsert hf (.inr rfl)
    rcases marks_upsert (k := lower a) hf g.db.suppressions with ⟨hold, heq⟩ | ⟨hnew, heq⟩
    · exact .inl ⟨hold, hin, heq⟩
    · rw [if_pos (lower_lower a)] at heq
      exact .inr ⟨hnew, hin, heq⟩

/-- Nothing but a delete of the address changes when its rows expire. -/
theorem Door.Step.marked {e : DoorAct} (h : Door.Step P g e g')
    (he : ∀ b, e = .remove b → lower b ≠ lower a) (hm : g.Marked (lower a) es) :
    g'.Marked (lower a) es := by
  obtain ⟨hin, heq⟩ := hm
  cases h with
  | @add b reason source detail =>
    have hf := suppressionRow_refreshes (lower b) reason source detail
    refine ⟨listed_upsert hf (.inl hin), ?_⟩
    rcases marks_upsert (k := lower a) hf g.db.suppressions with ⟨-, hsame⟩ | ⟨hnew, hsame⟩
    · exact hsame.trans heq
    · have hne : lower (lower b) ≠ lower a := by
        rw [lower_lower]
        intro hb
        exact hnew (hb ▸ hin)
      rw [if_neg hne, List.append_nil] at hsame
      exact hsame.trans heq
  | @remove b =>
    have hne := he b rfl
    obtain ⟨s, hs, haddr⟩ := hin
    refine ⟨⟨s, List.mem_filter.mpr ⟨hs, ?_⟩, haddr⟩, ?_⟩
    · exact decide_eq_true fun hb => hne (hb.symm.trans haddr)
    · rw [← heq]
      show List.map _ (List.filter _ (List.filter _ _)) = _
      rw [List.filter_filter]
      refine congrArg (List.map _) (List.filter_congr fun s hs => ?_)
      by_cases hk : lower s.address = lower a
      · have hb : s.address ≠ lower b := by
          intro hb
          rw [hb, lower_lower] at hk
          exact hne hk
        simp [hk, hb]
      · simp [hk]
  | reload o => exact ⟨hin, heq⟩
  | other hs => exact ⟨hs ▸ hin, hs ▸ heq⟩

/-! ## What a snapshot refuses -/

/-- A RCPT under the snapshot is refused with 550 for the list, and for nothing else. -/
theorem rcpt_refuses (policy : Option InboundPolicy) (s : Ingress.Session) (addr : String)
    (notify : List Ingress.Notify) :
    ((Ingress.rcpt policy s addr notify).1 = some Ingress.errSuppressed ↔
        ∃ p, policy = some p ∧ lower addr ∈ p.suppressed) ∧
      ((Ingress.rcpt policy s addr notify).1 = none ↔
        ¬ ∃ p, policy = some p ∧ lower addr ∈ p.suppressed) := by
  unfold Ingress.rcpt
  cases policy with
  | none => simp
  | some p =>
    by_cases h : lower addr ∈ p.suppressed
    · simp [h]
    · simp [h]

/-- A snapshot has the addresses of rows that were there and had not expired. -/
theorem Door.Step.reloaded {failed : Bool} (h : Door.Step P g (.reload failed) g') :
    ∃ p, g'.policy = some p ∧
      (∀ k, k ∈ p.suppressed → ∃ e ∈ marks k g.db.suppressions, unexpired g.db.clock e = true) ∧
      (failed = false → ∀ k, (∃ e ∈ marks k g.db.suppressions, unexpired g.db.clock e = true) →
        k ∈ p.suppressed) := by
  cases h with
  | reload o =>
    have hmem : ∀ k, k ∈ (g.db.answer .getSuppressions).rows.map lower ↔
        ∃ e ∈ marks k g.db.suppressions, unexpired g.db.clock e = true := by
      intro k
      simp only [ConfigDb.answer, marks, unexpired, List.mem_map, List.mem_filter,
        decide_eq_true_eq]
      constructor
      · rintro ⟨_, ⟨s, ⟨hs, hexp⟩, rfl⟩, rfl⟩
        exact ⟨s.expiresAt, ⟨s, ⟨hs, rfl⟩, rfl⟩, hexp⟩
      · rintro ⟨_, ⟨s, ⟨hs, hk⟩, rfl⟩, hexp⟩
        exact ⟨s.address, ⟨s, ⟨hs, hexp⟩, rfl⟩, hk⟩
    refine ⟨_, rfl, ?_, ?_⟩
    · intro k hk
      rw [buildInbound_eval] at hk
      obtain ⟨x, hx, rfl⟩ := List.mem_map.mp hk
      have hread : x ∈ (g.db.answer .getSuppressions).rows := by
        cases hf : o.fails .getSuppressions with
        | false =>
          rw [← o.healthy _ hf]
          exact hx
        | true => exact (o.broken _ hf).2.subset hx
      exact (hmem _).mp (List.mem_map_of_mem hread)
    · intro hf k hk
      rw [buildInbound_eval]
      show k ∈ (o.ans .getSuppressions).rows.map lower
      rw [o.healthy _ hf]
      exact (hmem k).mpr hk

theorem Door.Step.policy_eq {e : DoorAct} (h : Door.Step P g e g') (he : ∀ b, e ≠ .reload b) :
    g'.policy = g.policy := by
  cases h with
  | reload o => exact absurd rfl (he _)
  | add | remove | other => rfl

/-! ## The round trip -/

/-- Putting the address on this list now refuses it at this time: it has no row, or one of its rows
    has not expired by then. -/
def ConfigDb.Refusable (db : ConfigDb) (a : String) (time : Nat) : Prop :=
  (∀ s ∈ db.suppressions, s.address ≠ lower a) ∨
    ∃ s ∈ db.suppressions, lower s.address = lower a ∧ unexpired time s.expiresAt = true

/-- **The suppression round trip**, exactly when the row that was there has not expired by the
    reload.  `g` is any state of the tables; the address is put on the list, other things happen but
    no delete of the address, the policy is rebuilt without a read error, and more happens but no
    reload: then every RCPT of the address is refused, whatever its case, if and only if that row
    has no expiry or a later one.  And no reload, not even one that fails, makes a RCPT refuse an
    address all of whose rows have expired. -/
theorem suppression_round_trip {g₁ g₂ g₃ g₄ : Door} {reason : SuppressReason} {source : String}
    {detail : Option String} {mid post : List DoorAct}
    (hadd : Door.Step P g (.add a reason source detail) g₁)
    (hmid : Path (Door.Step P) g₁ mid g₂) (hno : ∀ b, .remove b ∈ mid → lower b ≠ lower a)
    (hreload : Door.Step P g₂ (.reload false) g₃)
    (hpost : Path (Door.Step P) g₃ post g₄) (hlast : ∀ failed, .reload failed ∉ post) :
    ((∀ s addr notify, lower addr = lower a →
        (Ingress.rcpt g₄.policy s addr notify).1 = some Ingress.errSuppressed) ↔
      g.db.Refusable a g₂.db.clock) ∧
    ∀ (g g' : Door) failed, Door.Step P g (.reload failed) g' → ∀ s addr notify,
      (∀ r ∈ g.db.suppressions, lower r.address = lower addr →
        unexpired g.db.clock r.expiresAt = false) →
      (Ingress.rcpt g'.policy s addr notify).1 = none := by
  constructor
  · obtain ⟨p, hp, hin, hall⟩ := hreload.reloaded
    have hpolicy : g₄.policy = some p := by
      have hkeep := hpost.keeps (I := fun g => g.policy = g₃.policy)
        (fun e he s s' hst hs => (hst.policy_eq fun b hb => hlast b (hb ▸ he)).trans hs) rfl
      exact hkeep.trans hp
    have hrefused : (∀ s addr notify, lower addr = lower a →
        (Ingress.rcpt g₄.policy s addr notify).1 = some Ingress.errSuppressed) ↔
          ∃ e ∈ marks (lower a) g₂.db.suppressions, unexpired g₂.db.clock e = true := by
      rw [hpolicy]
      constructor
      · intro h
        obtain ⟨q, hq, hmem⟩ := (rcpt_refuses _ {} a []).1.mp (h {} a [] rfl)
        cases hq
        exact hin _ hmem
      · intro hmark s addr notify haddr
        exact (rcpt_refuses _ s addr notify).1.mpr ⟨p, rfl, haddr ▸ hall rfl _ hmark⟩
    have hmarked : ∀ es, g₁.Marked (lower a) es → marks (lower a) g₂.db.suppressions = es :=
      fun es hes => (hmid.keeps (I := fun g => g.Marked (lower a) es)
        (fun e he s s' hst hs => hst.marked (fun b hb => hno b (hb ▸ he)) hs) hes).2
    have hmem : (∃ e ∈ marks (lower a) g.db.suppressions, unexpired g₂.db.clock e = true) ↔
        ∃ s ∈ g.db.suppressions, lower s.address = lower a ∧
          unexpired g₂.db.clock s.expiresAt = true := by
      simp only [marks, List.mem_map, List.mem_filter, decide_eq_true_eq]
      constructor
      · rintro ⟨_, ⟨s, ⟨hs, hk⟩, rfl⟩, he⟩
        exact ⟨s, hs, hk, he⟩
      · rintro ⟨s, hs, hk, he⟩
        exact ⟨_, ⟨s, ⟨hs, hk⟩, rfl⟩, he⟩
    rw [hrefused]
    rcases hadd.added with ⟨⟨s, hs, haddr⟩, hes⟩ | ⟨hnew, hes⟩
    · -- the row that was there keeps its expiry
      rw [hmarked _ hes, hmem]
      exact ⟨.inr, fun h => h.resolve_left fun hnone => hnone s hs haddr⟩
    · -- a new row, which does not expire
      rw [hmarked _ hes]
      refine iff_of_true ⟨none, List.mem_append_right _ (List.mem_singleton.mpr rfl), rfl⟩ ?_
      exact .inl fun s hs haddr => hnew ⟨s, hs, haddr⟩
  · intro g g' failed h s addr notify hexp
    obtain ⟨p, hp, hin, -⟩ := h.reloaded
    refine (rcpt_refuses _ s addr notify).2.mpr ?_
    rintro ⟨q, hq, hmem⟩
    cases hp.symm.trans hq
    obtain ⟨e, he, hlive⟩ := hin _ hmem
    obtain ⟨r, hr, rfl⟩ := List.mem_map.mp he
    obtain ⟨hr, hk⟩ := List.mem_filter.mp hr
    rw [hexp r hr (of_decide_eq_true hk)] at hlive
    cases hlive

end

/-! ## A row that has expired -/

/-- A hard bounce of `b@r.test` that expired at 5; it is now 10. -/
def expiredGate : Door where
  db :=
    { suppressions := [⟨"b@r.test", .hardBounce, "dsn", "", some 5⟩]
      clock := 10 }

/-- A reload in which nothing fails. -/
def Outage.none (db : ConfigDb) : Outage db where
  fails _ := false
  ans := db.answer
  healthy _ _ := rfl
  broken _ h := nomatch h

/-- On an empty list the address is refused. -/
theorem suppression_round_trip_new : ∃ g₁ g₃ : Door,
    Door.Step .plain {} (.add "B@r.test" .hardBounce "dsn" (some "550")) g₁ ∧
    Door.Step .plain g₁ (.reload false) g₃ ∧
      ((∀ s addr notify, lower addr = lower "B@r.test" →
        (Ingress.rcpt g₃.policy s addr notify).1 = some Ingress.errSuppressed) ↔
          ConfigDb.Refusable {} "B@r.test" 0) :=
  ⟨_, _, .add, .reload (.none _),
    (suppression_round_trip .add (.nil _) (fun _ h => nomatch h) (.reload (.none _)) (.nil _)
      fun _ h => nomatch h).1⟩

/-- **An insert does not revive an expired row**: the address bounced again, was put on the list
    again, and is accepted. -/
theorem expired_row_accepted :
    ¬ ∀ (P : Platform) (g g₁ g₂ : Door) (a : String) (reason : SuppressReason) (source : String)
      (detail : Option String), Door.Step P g (.add a reason source detail) g₁ →
        Door.Step P g₁ (.reload false) g₂ → ∀ s addr notify, lower addr = lower a →
          (Ingress.rcpt g₂.policy s addr notify).1 = some Ingress.errSuppressed := by
  intro hclaim
  have hrefused := hclaim .plain expiredGate _ _ "b@r.test" .hardBounce "dsn" (some "550") .add
    (.reload (.none _)) {} "b@r.test" [] rfl
  revert hrefused
  decide

end Novamail

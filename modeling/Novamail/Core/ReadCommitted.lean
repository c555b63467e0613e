/-
  Transactions that replace all rows of a partition, under READ COMMITTED.

  A transaction deletes the rows of its partition, inserts its own one after another, and commits.
  The deletion sees the rows that were committed when it started; it waits for a row that another
  transaction has deleted and not yet committed, and passes over one that is gone by then.  It does
  not see what was committed meanwhile.  An insertion waits while another transaction holds its key,
  and fails if a committed row has it, or if the table does not take such a row at all.  So two replacements of one partition may interleave, and
  nothing but the primary key stands between them.

  If all transactions of a partition insert one common key, the `anchor`, that is enough: whatever
  the interleaving and the failures, the partition holds the rows of the last transaction that has
  committed (`table_of_trace`), as if each transaction had taken place at its commit.
-/
import Mathlib.Logic.Function.Basic
import Mathlib.Data.List.Perm.Basic
import Novamail.Core.System

namespace Novamail.Core.ReadCommitted

/-! ## The transactions -/

/-- What each transaction is for, and which rows the columns of the table take. -/
structure Plan (Tx Part Key Val : Type) where
  part : Tx → Part
  rows : Tx → List (Key × Val)
  takes : Val → Prop

/-- A version of a row: which transaction wrote it, and what. -/
structure Version (Tx Key Val : Type) where
  owner : Tx
  row : Key × Val
  deriving DecidableEq

/-- Where a transaction is. -/
inductive Phase (Tx Key Val : Type) where
  | idle
  /-- Deleting: the versions that it saw and has not come to, and those that it has deleted. -/
  | deleting (pending marked : List (Version Tx Key Val))
  | inserting (done rest : List (Key × Val)) (marked : List (Version Tx Key Val))
  /-- Committed or rolled back. -/
  | ended

/-- The committed versions, and the transactions. -/
structure State (Tx Key Val : Type) where
  live : List (Version Tx Key Val)
  phase : Tx → Phase Tx Key Val

/-- What a transaction does next. -/
inductive Event (Tx : Type) where
  | start (t : Tx) | visit (t : Tx) | deleted (t : Tx) | insert (t : Tx) | commit (t : Tx)
  | abort (t : Tx)

/-- The transaction that does it. -/
def Event.tx {Tx : Type} : Event Tx → Tx
  | start t | visit t | deleted t | insert t | commit t | abort t => t

section

variable {Tx Part Key Val : Type}

namespace Phase

def pending : Phase Tx Key Val → List (Version Tx Key Val)
  | .deleting vs _ => vs
  | _ => []

def marked : Phase Tx Key Val → List (Version Tx Key Val)
  | .deleting _ vs => vs
  | .inserting _ _ vs => vs
  | _ => []

/-- The keys that it has inserted. -/
def keys : Phase Tx Key Val → List Key
  | .inserting done _ _ => done.map (·.1)
  | _ => []

end Phase

/-- The versions that a transaction writes, if it is one. -/
def content (plan : Plan Tx Part Key Val) : Option Tx → List (Version Tx Key Val)
  | none => []
  | some t => (plan.rows t).map (Version.mk t)

theorem owner_of_mem_content {plan : Plan Tx Part Key Val} {o : Option Tx}
    {v : Version Tx Key Val} (h : v ∈ content plan o) : v.owner ∈ o := by
  cases o with
  | none => cases h
  | some t =>
    obtain ⟨r, -, rfl⟩ := List.mem_map.mp h
    rfl

variable [DecidableEq Part]

/-- The committed versions of a partition. -/
def State.table (plan : Plan Tx Part Key Val) (s : State Tx Key Val) (p : Part) :
    List (Version Tx Key Val) :=
  s.live.filter fun v => plan.part v.owner = p

theorem mem_table {plan : Plan Tx Part Key Val} {s : State Tx Key Val} {v : Version Tx Key Val}
    {p : Part} : v ∈ s.table plan p ↔ v ∈ s.live ∧ plan.part v.owner = p := by
  rw [State.table, List.mem_filter, decide_eq_true_eq]

/-- The last commit on each partition, after one more event. -/
def advance (plan : Plan Tx Part Key Val) (last : Part → Option Tx) : Event Tx → Part → Option Tx
  | .commit t => Function.update last (plan.part t) (some t)
  | _ => last

/-- The last transaction on a partition that has committed. -/
def lastCommit (plan : Plan Tx Part Key Val) (es : List (Event Tx)) : Part → Option Tx :=
  es.foldl (advance plan) fun _ => none

theorem lastCommit_concat (plan : Plan Tx Part Key Val) (es : List (Event Tx)) (e : Event Tx) :
    lastCommit plan (es ++ [e]) = advance plan (lastCommit plan es) e := List.foldl_concat ..

section

variable [DecidableEq Tx]

/-- One transaction goes on. -/
def State.move (s : State Tx Key Val) (t : Tx) (ph : Phase Tx Key Val) : State Tx Key Val :=
  ⟨s.live, Function.update s.phase t ph⟩

theorem move_self (s : State Tx Key Val) (t : Tx) (ph : Phase Tx Key Val) :
    (s.move t ph).phase t = ph := by
  show Function.update s.phase t ph t = ph
  rw [Function.update_self]

theorem move_ne {t u : Tx} (s : State Tx Key Val) (ph : Phase Tx Key Val) (h : u ≠ t) :
    (s.move t ph).phase u = s.phase u := by
  show Function.update s.phase t ph u = s.phase u
  rw [Function.update_of_ne h]

theorem move_move (s : State Tx Key Val) (t : Tx) (ph ph' : Phase Tx Key Val) :
    (s.move t ph).move t ph' = s.move t ph' := by
  rw [State.move, State.move, State.move, Function.update_idem]

/-- No other transaction holds a row or a key. -/
def Quiet (s : State Tx Key Val) (t : Tx) : Prop :=
  ∀ u, u ≠ t → (s.phase u).marked = [] ∧ (s.phase u).keys = []

theorem Quiet.move {s : State Tx Key Val} {t : Tx} (h : Quiet s t) (ph : Phase Tx Key Val) : Quiet (s.move t ph) t := by
  intro u hu
  rw [move_ne s ph hu]
  exact h u hu

section

variable [DecidableEq Key] [DecidableEq Val]

/-- One transaction commits: what it has deleted goes, and what it has inserted comes. -/
def State.commit (s : State Tx Key Val) (t : Tx) (done : List (Key × Val))
    (marked : List (Version Tx Key Val)) : State Tx Key Val where
  live := (s.live.filter fun v => v ∉ marked) ++ done.map (Version.mk t)
  phase := Function.update s.phase t .ended

theorem commit_self (s : State Tx Key Val) (t : Tx) (done : List (Key × Val))
    (marked : List (Version Tx Key Val)) : (s.commit t done marked).phase t = .ended := by
  show Function.update s.phase t .ended t = .ended
  rw [Function.update_self]

theorem commit_ne {t u : Tx} (s : State Tx Key Val) (done : List (Key × Val))
    (marked : List (Version Tx Key Val)) (h : u ≠ t) :
    (s.commit t done marked).phase u = s.phase u := by
  show Function.update s.phase t .ended u = s.phase u
  rw [Function.update_of_ne h]

/-- One step of one transaction. -/
inductive Step (plan : Plan Tx Part Key Val) :
    State Tx Key Val → Event Tx → State Tx Key Val → Prop where
  | start {s : State Tx Key Val} {t : Tx} {seen : List (Version Tx Key Val)}
      (h : s.phase t = .idle) (hseen : seen.Perm (s.table plan (plan.part t))) :
      Step plan s (.start t) (s.move t (.deleting seen []))
  /-- The version is there, and no other transaction has it. -/
  | mark {s : State Tx Key Val} {t : Tx} {v : Version Tx Key Val}
      {vs marked : List (Version Tx Key Val)} (h : s.phase t = .deleting (v :: vs) marked)
      (hlive : v ∈ s.live) (hfree : ∀ u, u ≠ t → v ∉ (s.phase u).marked) :
      Step plan s (.visit t) (s.move t (.deleting vs (v :: marked)))
  /-- The transaction that had it has committed. -/
  | skip {s : State Tx Key Val} {t : Tx} {v : Version Tx Key Val}
      {vs marked : List (Version Tx Key Val)} (h : s.phase t = .deleting (v :: vs) marked)
      (hgone : v ∉ s.live) :
      Step plan s (.visit t) (s.move t (.deleting vs marked))
  | deleted {s : State Tx Key Val} {t : Tx} {marked : List (Version Tx Key Val)}
      (h : s.phase t = .deleting [] marked) :
      Step plan s (.deleted t) (s.move t (.inserting [] (plan.rows t) marked))
  /-- The table takes the row, no committed row has the key but one that the transaction has
      deleted, it has not inserted the key, and no other transaction under way has. -/
  | insert {s : State Tx Key Val} {t : Tx} {r : Key × Val} {done rest : List (Key × Val)}
      {marked : List (Version Tx Key Val)} (h : s.phase t = .inserting done (r :: rest) marked)
      (htakes : plan.takes r.2)
      (hlive : ∀ v ∈ s.table plan (plan.part t), v.row.1 = r.1 → v ∈ marked)
      (hown : r.1 ∉ done.map (·.1))
      (hothers : ∀ u, u ≠ t → plan.part u = plan.part t → r.1 ∉ (s.phase u).keys) :
      Step plan s (.insert t) (s.move t (.inserting (done ++ [r]) rest marked))
  | commit {s : State Tx Key Val} {t : Tx} {done : List (Key × Val)}
      {marked : List (Version Tx Key Val)} (h : s.phase t = .inserting done [] marked) :
      Step plan s (.commit t) (s.commit t done marked)
  /-- An insertion failed, or a statement, or the connection; or a deadlock was broken. -/
  | abort {s : State Tx Key Val} {t : Tx} (h : s.phase t ≠ .ended) :
      Step plan s (.abort t) (s.move t .ended)

/-- All interleavings, from the empty table. -/
def system (plan : Plan Tx Part Key Val) : LTS (State Tx Key Val) (Event Tx) where
  init s := s.live = [] ∧ ∀ t, s.phase t = .idle
  step := Step plan

end

end

/-! ## What holds in every interleaving -/

/-- What a transaction saw: the rows of one earlier transaction on the partition, or none.  Of
    these, it is still to come to some, it has deleted some, and the others are gone. -/
def Saw (plan : Plan Tx Part Key Val) (s : State Tx Key Val) (t : Tx) : Prop :=
  ∃ o : Option Tx, (∀ a ∈ o, (s.phase a = .ended ∧ plan.part a = plan.part t)) ∧
    (∀ v ∈ (s.phase t).pending, v ∈ content plan o) ∧
    (∀ v ∈ (s.phase t).marked, v ∈ content plan o) ∧
    ∀ v ∈ content plan o, v ∈ (s.phase t).pending ∨ v ∈ (s.phase t).marked ∨ v ∉ s.live

/-- The invariant of all interleavings. -/
structure Inv (plan : Plan Tx Part Key Val) (anchor : Part → Key) (last : Part → Option Tx)
    (s : State Tx Key Val) : Prop where
  table : ∀ p, s.table plan p = content plan (last p)
  ended : ∀ p, ∀ t ∈ last p, s.phase t = .ended ∧ plan.part t = p
  saw : ∀ t, Saw plan s t
  /-- What is deleted and not yet committed is still there, and one transaction has it. -/
  marked_live : ∀ t, ∀ v ∈ (s.phase t).marked, v ∈ s.live
  marked_once : ∀ t u v, v ∈ (s.phase t).marked → v ∈ (s.phase u).marked → t = u
  rows : ∀ t done rest marked, s.phase t = .inserting done rest marked →
    done ++ rest = plan.rows t
  /-- A transaction that has inserted the anchor has deleted every committed row. -/
  anchored : ∀ t, anchor (plan.part t) ∈ (s.phase t).keys →
    ∀ v ∈ s.table plan (plan.part t), v ∈ (s.phase t).marked
  /-- One transaction on a partition at a time has inserted the anchor. -/
  single : ∀ t u, plan.part t = plan.part u → anchor (plan.part t) ∈ (s.phase t).keys →
    anchor (plan.part t) ∈ (s.phase u).keys → t = u

variable {plan : Plan Tx Part Key Val} {anchor : Part → Key} {last : Part → Option Tx}
  {s : State Tx Key Val} {t : Tx}

theorem Inv.init (hlive : s.live = []) (hidle : ∀ t, s.phase t = .idle) :
    Inv plan anchor (fun _ => none) s := by
  have hpending : ∀ t, (s.phase t).pending = [] := fun t => by rw [hidle t]; rfl
  have hmarked : ∀ t, (s.phase t).marked = [] := fun t => by rw [hidle t]; rfl
  have hkeys : ∀ t, (s.phase t).keys = [] := fun t => by rw [hidle t]; rfl
  constructor
  · intro p
    rw [State.table, hlive]
    rfl
  · intro p t ht
    cases ht
  · intro t
    refine ⟨none, ?_, ?_, ?_, ?_⟩
    · intro a ha
      cases ha
    · intro v hv
      rw [hpending] at hv
      cases hv
    · intro v hv
      rw [hmarked] at hv
      cases hv
    · intro v hv
      cases hv
  · intro t v hv
    rw [hmarked] at hv
    cases hv
  · intro t u v hv
    rw [hmarked] at hv
    cases hv
  · intro t done rest marked h
    rw [hidle] at h
    cases h
  · intro t ht
    rw [hkeys] at ht
    cases ht
  · intro t u _ ht
    rw [hkeys] at ht
    cases ht

/-- A committed version is one of the last transaction on its partition. -/
theorem Inv.owner_eq (h : Inv plan anchor last s) {v : Version Tx Key Val} (hv : v ∈ s.live) :
    v.owner ∈ last (plan.part v.owner) := by
  have hmem : v ∈ s.table plan (plan.part v.owner) := mem_table.mpr ⟨hv, rfl⟩
  rw [h.table] at hmem
  exact owner_of_mem_content hmem

/-- A committed version is one that its transaction was to write. -/
theorem Inv.mem_content (h : Inv plan anchor last s) {v : Version Tx Key Val} (hv : v ∈ s.live) :
    v ∈ content plan (some v.owner) := by
  have hmem : v ∈ s.table plan (plan.part v.owner) := mem_table.mpr ⟨hv, rfl⟩
  rw [h.table, Option.mem_def.mp (h.owner_eq hv)] at hmem
  exact hmem

/-- What a transaction has deleted is of its partition. -/
theorem Inv.part_of_marked (h : Inv plan anchor last s) {v : Version Tx Key Val}
    (hv : v ∈ (s.phase t).marked) : plan.part v.owner = plan.part t := by
  obtain ⟨o, ho, -, hmarked, -⟩ := h.saw t
  exact (ho _ (owner_of_mem_content (hmarked v hv))).2

/-- A transaction that is through with its deletion has deleted the rows of the last transaction, if
    it has deleted any of them. -/
theorem Inv.all_marked (h : Inv plan anchor last s) (hpending : (s.phase t).pending = [])
    {v : Version Tx Key Val} (hv : v ∈ s.table plan (plan.part t))
    (hm : v ∈ (s.phase t).marked) : ∀ w ∈ s.table plan (plan.part t), w ∈ (s.phase t).marked := by
  intro w hw
  obtain ⟨o, -, -, hmarked, hall⟩ := h.saw t
  have hwlast := hw
  rw [h.table] at hv hwlast
  have howner : o = last (plan.part t) :=
    (owner_of_mem_content (hmarked v hm)).trans (owner_of_mem_content hv).symm
  rcases hall w (howner ▸ hwlast) with hp | hm | hgone
  · rw [hpending] at hp
    cases hp
  · exact hm
  · exact absurd (mem_table.mp hw).1 hgone

variable [DecidableEq Tx]

/-- **A step that commits nothing**: what the new phase of its transaction has to meet. -/
theorem Inv.move (h : Inv plan anchor last s) {ph : Phase Tx Key Val} (hnew : s.phase t ≠ .ended)
    (hsaw : ∃ o : Option Tx, (∀ a ∈ o, s.phase a = .ended ∧ plan.part a = plan.part t) ∧
      (∀ v ∈ ph.pending, v ∈ content plan o) ∧ (∀ v ∈ ph.marked, v ∈ content plan o) ∧
      ∀ v ∈ content plan o, v ∈ ph.pending ∨ v ∈ ph.marked ∨ v ∉ s.live)
    (hmarked : ∀ v ∈ ph.marked, v ∈ s.live ∧ ∀ u, u ≠ t → v ∉ (s.phase u).marked)
    (hrows : ∀ done rest marked, ph = .inserting done rest marked → done ++ rest = plan.rows t)
    (hanchor : anchor (plan.part t) ∈ ph.keys →
      (∀ v ∈ s.table plan (plan.part t), v ∈ ph.marked) ∧
      ∀ u, u ≠ t → plan.part u = plan.part t → anchor (plan.part t) ∉ (s.phase u).keys) :
    Inv plan anchor last (s.move t ph) := by
  have hended : ∀ a, s.phase a = .ended → (s.move t ph).phase a = .ended := by
    intro a ha
    by_cases hat : a = t
    · exact absurd (hat ▸ ha) hnew
    · rw [move_ne s ph hat, ha]
  constructor
  · exact h.table
  · intro p a ha
    exact ⟨hended a (h.ended p a ha).1, (h.ended p a ha).2⟩
  · intro u
    by_cases hu : u = t
    · subst hu
      obtain ⟨o, ho, hrest⟩ := hsaw
      unfold Saw
      rw [move_self]
      exact ⟨o, fun a ha => ⟨hended a (ho a ha).1, (ho a ha).2⟩, hrest⟩
    · obtain ⟨o, ho, hrest⟩ := h.saw u
      unfold Saw
      rw [move_ne s ph hu]
      exact ⟨o, fun a ha => ⟨hended a (ho a ha).1, (ho a ha).2⟩, hrest⟩
  · intro u v hv
    by_cases hu : u = t
    · subst hu
      rw [move_self] at hv
      exact (hmarked v hv).1
    · rw [move_ne s ph hu] at hv
      exact h.marked_live u v hv
  · intro a b v ha hb
    by_cases hat : a = t
    · by_cases hbt : b = t
      · rw [hat, hbt]
      · subst hat
        rw [move_self] at ha
        rw [move_ne s ph hbt] at hb
        exact absurd hb ((hmarked v ha).2 b hbt)
    · rw [move_ne s ph hat] at ha
      by_cases hbt : b = t
      · subst hbt
        rw [move_self] at hb
        exact absurd ha ((hmarked v hb).2 a hat)
      · rw [move_ne s ph hbt] at hb
        exact h.marked_once a b v ha hb
  · intro u done rest marked hu
    by_cases hut : u = t
    · subst hut
      rw [move_self] at hu
      exact hrows done rest marked hu
    · rw [move_ne s ph hut] at hu
      exact h.rows u done rest marked hu
  · intro u hu
    by_cases hut : u = t
    · subst hut
      rw [move_self] at hu ⊢
      exact (hanchor hu).1
    · rw [move_ne s ph hut] at hu ⊢
      exact h.anchored u hu
  · intro a b hab ha hb
    by_cases hat : a = t
    · by_cases hbt : b = t
      · rw [hat, hbt]
      · subst hat
        rw [move_self] at ha
        rw [move_ne s ph hbt] at hb
        exact absurd hb ((hanchor ha).2 b hbt hab.symm)
    · rw [move_ne s ph hat] at ha
      by_cases hbt : b = t
      · subst hbt
        rw [move_self, hab] at hb
        exact absurd (hab ▸ ha) ((hanchor hb).2 a hat hab)
      · rw [move_ne s ph hbt] at hb
        exact h.single a b hab ha hb

/-- An insertion: the anchor can be inserted only when every committed row is deleted. -/
theorem Inv.insert (h : Inv plan anchor last s)
    (hanchor : ∀ t, anchor (plan.part t) ∈ (plan.rows t).map (·.1))
    {r : Key × Val} {done rest : List (Key × Val)} {marked : List (Version Tx Key Val)}
    (hph : s.phase t = .inserting done (r :: rest) marked)
    (hlive : ∀ v ∈ s.table plan (plan.part t), v.row.1 = r.1 → v ∈ marked)
    (hothers : ∀ u, u ≠ t → plan.part u = plan.part t → r.1 ∉ (s.phase u).keys) :
    Inv plan anchor last (s.move t (.inserting (done ++ [r]) rest marked)) := by
  have hmarked : (s.phase t).marked = marked := by rw [hph]; rfl
  have hpending : (s.phase t).pending = [] := by rw [hph]; rfl
  have hkeys : (s.phase t).keys = done.map (·.1) := by rw [hph]; rfl
  refine h.move (fun heq => by cases hph.symm.trans heq) ?_ ?_ ?_ ?_
  · obtain ⟨o, ho, -, hm, hall⟩ := h.saw t
    rw [hmarked] at hm hall
    rw [hpending] at hall
    exact ⟨o, ho, List.forall_mem_nil _, hm, hall⟩
  · intro v hv
    have hv' : v ∈ (s.phase t).marked := hmarked ▸ hv
    exact ⟨h.marked_live t v hv', fun u hu huv => hu (h.marked_once u t v huv hv')⟩
  · rintro done' rest' marked' heq
    cases heq
    rw [List.append_assoc]
    exact h.rows t done (r :: rest) marked hph
  · intro hin
    have hin' : anchor (plan.part t) ∈ done.map (·.1) ++ [r.1] := by
      rw [Phase.keys, List.map_append] at hin
      exact hin
    rcases List.mem_append.mp hin' with hold | hnew
    · -- the anchor was there before
      have hold' : anchor (plan.part t) ∈ (s.phase t).keys := hkeys ▸ hold
      refine ⟨hmarked ▸ h.anchored t hold', fun u hu hpart hin' => hu ?_⟩
      exact h.single u t hpart (hpart ▸ hin') (hpart ▸ hold')
    · have hr : anchor (plan.part t) = r.1 := List.mem_singleton.mp hnew
      refine ⟨?_, fun u hu hpart => hr ▸ hothers u hu hpart⟩
      intro v hv
      -- the row of the last transaction with the anchor as its key was deleted, so all were
      have hlast := hv
      rw [h.table] at hlast
      have howner := owner_of_mem_content hlast
      have hpart := (h.ended _ _ howner).2
      obtain ⟨r₀, hr₀, hkey⟩ := List.mem_map.mp (hanchor v.owner)
      have hmem : Version.mk v.owner r₀ ∈ s.table plan (plan.part t) := by
        rw [h.table, Option.mem_def.mp howner]
        exact List.mem_map_of_mem hr₀
      have hdel : Version.mk v.owner r₀ ∈ (s.phase t).marked := by
        rw [hmarked]
        exact hlive _ hmem (hkey.trans ((congrArg anchor hpart).trans hr))
      exact hmarked ▸ h.all_marked hpending hmem hdel v hv

variable [DecidableEq Key] [DecidableEq Val]

/-- **A commit** puts the rows of its transaction in the place of those that were there. -/
theorem Inv.commit (h : Inv plan anchor last s)
    (hanchor : ∀ t, anchor (plan.part t) ∈ (plan.rows t).map (·.1))
    {done : List (Key × Val)} {marked : List (Version Tx Key Val)}
    (hph : s.phase t = .inserting done [] marked) :
    Inv plan anchor (Function.update last (plan.part t) (some t)) (s.commit t done marked) := by
  have hmarked : (s.phase t).marked = marked := by rw [hph]; rfl
  have hkeys : (s.phase t).keys = done.map (·.1) := by rw [hph]; rfl
  have hdone : done = plan.rows t := by
    have hrows := h.rows t done [] marked hph
    rwa [List.append_nil] at hrows
  have hin : anchor (plan.part t) ∈ (s.phase t).keys := by
    rw [hkeys, hdone]
    exact hanchor t
  have hended : ∀ a, s.phase a = .ended → (s.commit t done marked).phase a = .ended := by
    intro a ha
    by_cases hat : a = t
    · rw [hat, commit_self]
    · rw [commit_ne s done marked hat, ha]
  -- the table of the partition is replaced, and no other is touched
  have htable : ∀ p, (s.commit t done marked).table plan p =
      content plan (Function.update last (plan.part t) (some t) p) := by
    intro p
    rw [State.table, State.commit, List.filter_append, List.filter_filter]
    by_cases hp : p = plan.part t
    · subst hp
      rw [Function.update_self, hdone]
      have hnone : (s.live.filter fun v => decide (plan.part v.owner = plan.part t) &&
          decide (v ∉ marked)) = [] := by
        refine List.filter_eq_nil_iff.mpr ?_
        intro v hv hboth
        obtain ⟨hpart, hnot⟩ := Bool.and_eq_true_iff.mp hboth
        refine of_decide_eq_true hnot ?_
        exact hmarked ▸ h.anchored t hin v (mem_table.mpr ⟨hv, of_decide_eq_true hpart⟩)
      rw [hnone, List.nil_append]
      refine List.filter_eq_self.mpr ?_
      intro v hv
      obtain ⟨r, -, rfl⟩ := List.mem_map.mp hv
      exact decide_eq_true rfl
    · rw [Function.update_of_ne hp, ← h.table]
      have hnone : (done.map (Version.mk t)).filter (fun v => decide (plan.part v.owner = p)) =
          [] := by
        refine List.filter_eq_nil_iff.mpr ?_
        intro v hv hpart
        obtain ⟨r, -, rfl⟩ := List.mem_map.mp hv
        exact hp (of_decide_eq_true hpart).symm
      rw [hnone, List.append_nil]
      refine List.filter_congr ?_
      intro v hv
      by_cases hpart : plan.part v.owner = p
      · have hnot : v ∉ marked := by
          intro hm
          refine hp (hpart.symm.trans ?_)
          exact h.part_of_marked (hmarked.symm ▸ hm)
        rw [decide_eq_true hnot, Bool.and_true]
      · rw [decide_eq_false hpart, Bool.false_and]
  constructor
  · exact htable
  · intro p a ha
    by_cases hp : p = plan.part t
    · subst hp
      rw [Function.update_self] at ha
      cases ha
      exact ⟨commit_self .., rfl⟩
    · rw [Function.update_of_ne hp] at ha
      exact ⟨hended a (h.ended p a ha).1, (h.ended p a ha).2⟩
  · intro u
    by_cases hu : u = t
    · subst hu
      unfold Saw
      rw [commit_self]
      exact ⟨none, fun a ha => absurd ha (Option.not_mem_none a), List.forall_mem_nil _,
        List.forall_mem_nil _, List.forall_mem_nil _⟩
    · obtain ⟨o, ho, hpending, hm, hall⟩ := h.saw u
      unfold Saw
      rw [commit_ne s done marked hu]
      refine ⟨o, fun a ha => ⟨hended a (ho a ha).1, (ho a ha).2⟩, hpending, hm, ?_⟩
      intro v hv
      rcases hall v hv with hvp | hvm | hgone
      · exact .inl hvp
      · exact .inr (.inl hvm)
      · -- what is gone does not come back: its transaction has ended
        refine .inr (.inr fun hback => ?_)
        rcases List.mem_append.mp hback with hold | hnew
        · exact hgone (List.mem_filter.mp hold).1
        · obtain ⟨r, -, rfl⟩ := List.mem_map.mp hnew
          have hover := (ho t (owner_of_mem_content hv)).1
          rw [hph] at hover
          cases hover
  · intro u v hv
    by_cases hu : u = t
    · subst hu
      rw [commit_self] at hv
      cases hv
    · rw [commit_ne s done marked hu] at hv
      refine List.mem_append_left _ (List.mem_filter.mpr ⟨h.marked_live u v hv, ?_⟩)
      exact decide_eq_true fun hm => hu (h.marked_once u t v hv (hmarked.symm ▸ hm))
  · intro a b v ha hb
    by_cases hat : a = t
    · subst hat
      rw [commit_self] at ha
      cases ha
    · by_cases hbt : b = t
      · subst hbt
        rw [commit_self] at hb
        cases hb
      · rw [commit_ne s done marked hat] at ha
        rw [commit_ne s done marked hbt] at hb
        exact h.marked_once a b v ha hb
  · intro u done' rest' marked' hu
    by_cases hut : u = t
    · subst hut
      rw [commit_self] at hu
      cases hu
    · rw [commit_ne s done marked hut] at hu
      exact h.rows u done' rest' marked' hu
  · intro u hu
    by_cases hut : u = t
    · subst hut
      rw [commit_self] at hu
      cases hu
    · rw [commit_ne s done marked hut] at hu ⊢
      by_cases hpart : plan.part u = plan.part t
      · exact absurd (h.single u t hpart hu (hpart ▸ hin)) hut
      · rw [htable, Function.update_of_ne hpart, ← h.table]
        exact h.anchored u hu
  · intro a b hab ha hb
    by_cases hat : a = t
    · subst hat
      rw [commit_self] at ha
      cases ha
    · by_cases hbt : b = t
      · subst hbt
        rw [commit_self] at hb
        cases hb
      · rw [commit_ne s done marked hat] at ha
        rw [commit_ne s done marked hbt] at hb
        exact h.single a b hab ha hb

variable {s' : State Tx Key Val} {e : Event Tx} {es : List (Event Tx)}
  {ok : State Tx Key Val → Event Tx → Prop}

/-- Every step keeps the invariant. -/
theorem Inv.step (h : Inv plan anchor last s)
    (hanchor : ∀ t, anchor (plan.part t) ∈ (plan.rows t).map (·.1)) (hst : Step plan s e s') :
    Inv plan anchor (advance plan last e) s' := by
  cases hst with
  | @start t seen hph hseen =>
    refine h.move (fun heq => by cases hph.symm.trans heq) ?_ (List.forall_mem_nil _) (fun _ _ _ heq => by cases heq)
      (fun hin => absurd hin List.not_mem_nil)
    refine ⟨last (plan.part t), fun a ha => h.ended _ a ha, ?_, List.forall_mem_nil _, ?_⟩
    · intro v hv
      exact h.table (plan.part t) ▸ hseen.mem_iff.mp hv
    · intro v hv
      exact .inl (hseen.mem_iff.mpr ((h.table (plan.part t)).symm ▸ hv))
  | @mark t v vs marked hph hlive hfree =>
    have hold : (s.phase t).marked = marked := by rw [hph]; rfl
    have hpend : (s.phase t).pending = v :: vs := by rw [hph]; rfl
    obtain ⟨o, ho, hp, hm, hall⟩ := h.saw t
    rw [hold] at hm hall
    rw [hpend] at hp hall
    refine h.move (fun heq => by cases hph.symm.trans heq) ?_ ?_ (fun _ _ _ heq => by cases heq)
      (fun hin => absurd hin List.not_mem_nil)
    · refine ⟨o, ho, fun w hw => hp w (List.mem_cons_of_mem v hw), ?_, ?_⟩
      · exact List.forall_mem_cons.mpr ⟨hp v List.mem_cons_self, hm⟩
      · intro w hw
        rcases hall w hw with hin | hin | hgone
        · rcases List.mem_cons.mp hin with rfl | hin
          · exact .inr (.inl List.mem_cons_self)
          · exact .inl hin
        · exact .inr (.inl (List.mem_cons_of_mem v hin))
        · exact .inr (.inr hgone)
    · refine List.forall_mem_cons.mpr ⟨⟨hlive, hfree⟩, ?_⟩
      intro w hw
      have hw' : w ∈ (s.phase t).marked := hold.symm ▸ hw
      exact ⟨h.marked_live t w hw', fun u hu huw => hu (h.marked_once u t w huw hw')⟩
  | @skip t v vs marked hph hgone =>
    have hold : (s.phase t).marked = marked := by rw [hph]; rfl
    have hpend : (s.phase t).pending = v :: vs := by rw [hph]; rfl
    obtain ⟨o, ho, hp, hm, hall⟩ := h.saw t
    rw [hold] at hm hall
    rw [hpend] at hp hall
    refine h.move (fun heq => by cases hph.symm.trans heq) ?_ ?_ (fun _ _ _ heq => by cases heq)
      (fun hin => absurd hin List.not_mem_nil)
    · refine ⟨o, ho, fun w hw => hp w (List.mem_cons_of_mem v hw), hm, ?_⟩
      intro w hw
      rcases hall w hw with hin | hin | hgone'
      · rcases List.mem_cons.mp hin with rfl | hin
        · exact .inr (.inr hgone)
        · exact .inl hin
      · exact .inr (.inl hin)
      · exact .inr (.inr hgone')
    · intro w hw
      have hw' : w ∈ (s.phase t).marked := hold.symm ▸ hw
      exact ⟨h.marked_live t w hw', fun u hu huw => hu (h.marked_once u t w huw hw')⟩
  | @deleted t marked hph =>
    have hold : (s.phase t).marked = marked := by rw [hph]; rfl
    have hpend : (s.phase t).pending = [] := by rw [hph]; rfl
    obtain ⟨o, ho, -, hm, hall⟩ := h.saw t
    rw [hold] at hm hall
    rw [hpend] at hall
    refine h.move (fun heq => by cases hph.symm.trans heq) ⟨o, ho, List.forall_mem_nil _, hm, hall⟩ ?_ ?_
      (fun hin => absurd hin List.not_mem_nil)
    · intro w hw
      have hw' : w ∈ (s.phase t).marked := hold.symm ▸ hw
      exact ⟨h.marked_live t w hw', fun u hu huw => hu (h.marked_once u t w huw hw')⟩
    · rintro done rest marked' heq
      cases heq
      rfl
  | insert hph _ hlive hown hothers => exact h.insert hanchor hph hlive hothers
  | commit hph => exact h.commit hanchor hph
  | abort hph =>
    refine h.move hph ⟨none, fun a ha => absurd ha (Option.not_mem_none a), ?_⟩
      (List.forall_mem_nil _) (fun _ _ _ heq => by cases heq)
      (fun hin => absurd hin List.not_mem_nil)
    exact ⟨List.forall_mem_nil _, List.forall_mem_nil _, List.forall_mem_nil _⟩

theorem inv_of_trace (hanchor : ∀ t, anchor (plan.part t) ∈ (plan.rows t).map (·.1))
    (h : Trace (system plan) ok es s) : Inv plan anchor (lastCommit plan es) s := by
  refine h.invariant (I := fun es s => Inv plan anchor (lastCommit plan es) s) ?_ ?_
  · rintro s ⟨hlive, hidle⟩
    exact Inv.init hlive hidle
  · intro es s e s' _ ih _ hst
    rw [lastCommit_concat]
    exact ih.step hanchor hst

/-- **Replacements do not mix.**  In every interleaving each partition holds exactly the rows of the
    last transaction on it that has committed. -/
theorem table_of_trace (hanchor : ∀ t, anchor (plan.part t) ∈ (plan.rows t).map (·.1))
    (h : Trace (system plan) ok es s) (p : Part) :
    s.table plan p = content plan (lastCommit plan es p) :=
  (inv_of_trace hanchor h).table p

/-! ## Who commits -/

/-- A transaction has not inserted one key twice. -/
theorem nodup_keys (h : Trace (system plan) ok es s) (t : Tx) : (s.phase t).keys.Nodup := by
  refine h.reach.invariant (I := fun s => ∀ t, (s.phase t).keys.Nodup) ?_ ?_ t
  · rintro s ⟨-, hidle⟩ t
    rw [hidle t]
    exact List.nodup_nil
  · intro s e s' _ ih _ hst u
    have hmove : ∀ t ph, (ph : Phase Tx Key Val).keys.Nodup →
        ((s.move t ph).phase u).keys.Nodup := by
      intro t ph hph
      by_cases hu : u = t
      · rw [hu, move_self]
        exact hph
      · rw [move_ne s ph hu]
        exact ih u
    cases hst with
    | start | mark | skip | deleted | abort => exact hmove _ _ List.nodup_nil
    | @insert t r done rest marked hph _ hlive hown hothers =>
      refine hmove _ _ ?_
      have hdone := ih t
      rw [hph] at hdone
      rw [Phase.keys, List.map_append]
      refine List.nodup_append.mpr ⟨hdone, List.pairwise_singleton _ _, ?_⟩
      intro a ha b hb heq
      rw [heq, List.mem_singleton.mp hb] at ha
      exact hown ha
    | @commit t done marked hph =>
      by_cases hu : u = t
      · rw [hu, commit_self]
        exact List.nodup_nil
      · rw [commit_ne s done marked hu]
        exact ih u

/-- What a transaction has inserted, the table takes. -/
theorem takes_done (h : Trace (system plan) ok es s) (t : Tx) : ∀ done rest marked,
    s.phase t = .inserting done rest marked → ∀ r ∈ done, plan.takes r.2 := by
  refine h.reach.invariant (I := fun s => ∀ t done rest marked,
    s.phase t = .inserting done rest marked → ∀ r ∈ done, plan.takes r.2) ?_ ?_ t
  · rintro s ⟨-, hidle⟩ t done rest marked hph
    rw [hidle t] at hph
    cases hph
  · intro s e s' _ ih _ hst u
    have hmove : ∀ t ph, (∀ done rest marked, ph = Phase.inserting done rest marked →
        ∀ r ∈ done, plan.takes r.2) → ∀ done rest marked,
          (s.move t ph).phase u = .inserting done rest marked → ∀ r ∈ done, plan.takes r.2 := by
      intro t ph hph done rest marked hu
      by_cases hut : u = t
      · rw [hut, move_self] at hu
        exact hph done rest marked hu
      · rw [move_ne s ph hut] at hu
        exact ih u done rest marked hu
    cases hst with
    | start | mark | skip | abort => exact hmove _ _ fun _ _ _ h => by cases h
    | deleted =>
      refine hmove _ _ fun done rest marked h => ?_
      cases h
      exact List.forall_mem_nil _
    | @insert t r done rest marked hph htakes =>
      refine hmove _ _ fun done' rest' marked' h => ?_
      cases h
      intro r' hr'
      rcases List.mem_append.mp hr' with hr' | hr'
      · exact ih t done _ marked hph r' hr'
      · rw [List.mem_singleton.mp hr']
        exact htakes
    | @commit t done marked hph =>
      intro done' rest' marked' hu
      by_cases hut : u = t
      · rw [hut, commit_self] at hu
        cases hu
      · rw [commit_ne s done marked hut] at hu
        exact ih u done' rest' marked' hu

variable (plan) in
/-- The deletion, while nobody else holds a row. -/
theorem visit_all (vs : List (Version Tx Key Val)) {marked : List (Version Tx Key Val)}
    (hph : s.phase t = .deleting vs marked) (hlive : ∀ v ∈ vs, v ∈ s.live) (hquiet : Quiet s t) :
    Path (Step plan) s (vs.map fun _ => .visit t)
      (s.move t (.deleting [] (vs.reverse ++ marked))) := by
  induction vs generalizing s marked with
  | nil =>
    have hsame : s.move t (.deleting [] marked) = s := by
      rw [State.move, ← hph, Function.update_eq_self]
    show Path _ s [] (s.move t (.deleting [] marked))
    rw [hsame]
    exact .nil s
  | cons v vs ih =>
    obtain ⟨hv, hvs⟩ := List.forall_mem_cons.mp hlive
    have hfree : ∀ u, u ≠ t → v ∉ (s.phase u).marked := by
      intro u hu
      rw [(hquiet u hu).1]
      exact List.not_mem_nil
    have hrest := ih (s := s.move t (.deleting vs (v :: marked))) (move_self ..) hvs
      (hquiet.move _)
    rw [move_move] at hrest
    rw [List.reverse_cons, List.append_assoc]
    exact .cons (.mark hph hv hfree) hrest

variable (plan) in
/-- The insertions, while nobody else holds a key and every committed row is deleted. -/
theorem insert_all (rest : List (Key × Val)) {done : List (Key × Val)}
    {marked : List (Version Tx Key Val)} (hph : s.phase t = .inserting done rest marked)
    (htakes : ∀ r ∈ rest, plan.takes r.2) (htable : ∀ v ∈ s.table plan (plan.part t), v ∈ marked)
    (hkeys : ((done ++ rest).map (·.1)).Nodup) (hquiet : Quiet s t) :
    Path (Step plan) s (rest.map fun _ => .insert t)
      (s.move t (.inserting (done ++ rest) [] marked)) := by
  induction rest generalizing s done with
  | nil =>
    have hsame : s.move t (.inserting done [] marked) = s := by
      rw [State.move, ← hph, Function.update_eq_self]
    rw [List.append_nil, hsame]
    exact .nil s
  | cons r rest ih =>
    have hown : r.1 ∉ done.map (·.1) := by
      intro hin
      rw [List.map_append] at hkeys
      exact (List.nodup_append.mp hkeys).2.2 _ hin _ (List.mem_cons_self ..) rfl
    have hothers : ∀ u, u ≠ t → plan.part u = plan.part t → r.1 ∉ (s.phase u).keys := by
      intro u hu _
      rw [(hquiet u hu).2]
      exact List.not_mem_nil
    obtain ⟨hr, htakes⟩ := List.forall_mem_cons.mp htakes
    rw [List.append_cons] at hkeys ⊢
    have hrest := ih (s := s.move t (.inserting (done ++ [r]) rest marked)) (move_self ..) htakes
      htable hkeys (hquiet.move _)
    rw [move_move] at hrest
    exact .cons (.insert hph hr (fun v hv _ => htable v hv) hown hothers) hrest

/-- A transaction that commits has distinct keys, and rows that the table takes. -/
theorem nodup_of_commit (hanchor : ∀ t, anchor (plan.part t) ∈ (plan.rows t).map (·.1))
    (h : Trace (system plan) ok es s) (hin : .commit t ∈ es) :
    ((plan.rows t).map (·.1)).Nodup ∧ ∀ r ∈ plan.rows t, plan.takes r.2 := by
  obtain ⟨es₁, s₁, s₂, -, ht, -, hst⟩ := h.of_mem hin
  have hinv := inv_of_trace hanchor ht
  have hkeys := nodup_keys ht t
  have htakes := takes_done ht t
  cases hst with
  | @commit t done marked hph =>
    have hrows := hinv.rows t done [] marked hph
    rw [List.append_nil] at hrows
    rw [hph] at hkeys
    subst hrows
    exact ⟨hkeys, htakes _ [] marked hph⟩

/-- **Alone, a transaction gets through exactly if its keys are distinct** and the table takes its
    rows. -/
theorem commits_alone_iff (hanchor : ∀ t, anchor (plan.part t) ∈ (plan.rows t).map (·.1))
    (h : Trace (system plan) anyStep es s) (hidle : s.phase t = .idle) (hquiet : Quiet s t) :
    (∃ es' s', (∀ e ∈ es', e.tx = t) ∧ Trace (system plan) anyStep (es ++ es' ++ [.commit t]) s') ↔
      ((plan.rows t).map (·.1)).Nodup ∧ ∀ r ∈ plan.rows t, plan.takes r.2 := by
  constructor
  · rintro ⟨es', s', -, h'⟩
    exact nodup_of_commit hanchor h' (List.mem_append_right _ (List.mem_singleton.mpr rfl))
  · rintro ⟨hkeys, htakes⟩
    -- it starts, deletes what is there, inserts its rows and commits
    have hlive : ∀ v ∈ s.table plan (plan.part t), v ∈ s.live := fun v hv => (mem_table.mp hv).1
    have hvisit := visit_all plan (s := s.move t (.deleting (s.table plan (plan.part t)) [])) _
      (move_self ..) hlive (hquiet.move _)
    rw [move_move, List.append_nil] at hvisit
    have hinsert := insert_all plan (plan.rows t)
      (s := s.move t (.inserting [] (plan.rows t) (s.table plan (plan.part t)).reverse))
      (move_self ..) htakes (fun v hv => List.mem_reverse.mpr hv) hkeys (hquiet.move _)
    rw [move_move, List.nil_append] at hinsert
    have hdeleted : Step plan _ (.deleted t) _ := .deleted
      (s := s.move t (.deleting [] (s.table plan (plan.part t)).reverse)) (move_self ..)
    rw [move_move] at hdeleted
    have hpath := Path.cons (.start hidle (List.Perm.refl _))
      (hvisit.append (.cons hdeleted hinsert))
    refine ⟨_, _, ?_, (h.extend hpath).step trivial (.commit (move_self ..))⟩
    intro e he
    rcases List.mem_cons.mp he with rfl | he
    · rfl
    rcases List.mem_append.mp he with he | he
    · obtain ⟨-, -, rfl⟩ := List.mem_map.mp he
      rfl
    rcases List.mem_cons.mp he with rfl | he
    · rfl
    · obtain ⟨-, -, rfl⟩ := List.mem_map.mp he
      rfl

end

end Novamail.Core.ReadCommitted

/-
  `cmd/maintenance/main.go` on the file store: the sweep of orphaned bodies.

  `Walk` reports the name of a file, and `Delete` computes from that name where the file should lie.
  The two agree on bodies and not on the temporary files of a `Put` that has died: these stay, and
  are counted (`sweep_complete_iff`).
-/
import Novamail.Store.Refinement

namespace Novamail.Store

open Novamail.Core Novamail.Core.Paths

namespace FSStore

/-- The callback of `Walk` over a listing, and the count of what was swept.  A deletion is of a file
    with the name that is reported, so that the listing may be taken first. -/
def sweepAll (s : FSStore) (active : List Name) : List Name → Disk → Disk × Nat
  | [], d => (d, 0)
  | id :: rest, d =>
    if id ∈ active then s.sweepAll active rest d
    else
      match s.delete id d with
      | (d', true) => ((s.sweepAll active rest d').1, (s.sweepAll active rest d').2 + 1)
      | (d', false) => s.sweepAll active rest d'

/-- The sweep of `main`, given the bodies of the messages that are queued or deferred. -/
def sweep (s : FSStore) (active : List Name) (d : Disk) : Disk × Nat :=
  s.sweepAll active (s.walk d) d

end FSStore

/-- **What a sweep is for**: below the root are left the bodies of these messages and no other file,
    and the count is of the files that are gone. -/
structure Complete (s : FSStore) (active : List Name) (d : Disk) (r : Disk × Nat) : Prop where
  left : ∀ p ns, (parse s.root).beneath p = some ns →
    (p ∈ r.1.files ↔ p ∈ d.files ∧ ∃ id ∈ active, s.location id = some p)
  count : r.2 = (d.files.keys.filter (· ∉ r.1.files)).length

variable {s : FSStore} {id : Name} {p : FilePath} {d : Disk} {active : List Name}

theorem delete_mem (s : FSStore) (id : Name) (d : Disk) (p : FilePath) :
    p ∈ (s.delete id d).1.files ↔ p ∈ d.files ∧ s.location id ≠ some p := by
  have hremove : ∀ q, p ∈ (d.remove q).1.files ↔ p ∈ d.files ∧ some q ≠ some p := by
    intro q
    rw [← Disk.read_isSome, ← Disk.read_isSome]
    by_cases hq : p = q
    · rw [hq, Disk.read_remove_self]
      simp
    · rw [Disk.read_remove_ne hq]
      have hne : some q ≠ some p := fun h => hq (Option.some.inj h).symm
      exact (and_iff_left hne).symm
  unfold FSStore.delete FSStore.location
  match path s.root id with
  | none =>
    show p ∈ d.files ↔ p ∈ d.files ∧ none ≠ some p
    simp
  | some t =>
    rw [Option.map_some, ← hremove (parse t)]
    dsimp only
    generalize d.remove (parse t) = r
    obtain ⟨d', res⟩ := r
    cases res with
    | done => exact Iff.rfl
    | absent => exact Iff.rfl
    | failed => exact Iff.rfl

/-- What a sweep removes lies where the store looks for the names of the listing. -/
theorem mem_sweepAll (listing : List Name) (d : Disk) (p : FilePath) :
    p ∈ (s.sweepAll active listing d).1.files ↔
      p ∈ d.files ∧ ∀ id ∈ listing, id ∉ active → s.location id ≠ some p := by
  induction listing generalizing d with
  | nil =>
    show p ∈ d.files ↔ _
    simp
  | cons id rest ih =>
    have hcons : s.sweepAll active (id :: rest) d =
        if id ∈ active then s.sweepAll active rest d
        else match s.delete id d with
          | (d', true) => ((s.sweepAll active rest d').1, (s.sweepAll active rest d').2 + 1)
          | (d', false) => s.sweepAll active rest d' := rfl
    rw [List.forall_mem_cons, hcons]
    split_ifs with hactive
    · rw [ih]
      simp [hactive]
    · have hstep : p ∈ (s.sweepAll active rest (s.delete id d).1).1.files ↔
          p ∈ d.files ∧ (id ∉ active → s.location id ≠ some p) ∧
            ∀ id ∈ rest, id ∉ active → s.location id ≠ some p := by
        rw [ih, delete_mem, and_assoc]
        simp [hactive]
      rw [← hstep]
      generalize s.delete id d = r
      obtain ⟨d', ok⟩ := r
      cases ok with
      | true => exact Iff.rfl
      | false => exact Iff.rfl

/-- A body is removed by a deletion. -/
theorem delete_body (hp : s.location id = some p) (hmem : p ∈ d.files) :
    s.delete id d = ({ d with files := d.files.erase p }, true) := by
  unfold FSStore.location at hp
  obtain ⟨t, ht, rfl⟩ := Option.map_eq_some_iff.mp hp
  have hremove : d.remove (parse t) = ({ d with files := d.files.erase (parse t) }, .done) :=
    if_pos hmem
  unfold FSStore.delete
  rw [ht]
  dsimp only
  rw [hremove]

/-- **The count is right where the names lead to the files.** -/
theorem count_sweepAll {listing : List Name} (hnodup : listing.Nodup)
    (hfound : ∀ id ∈ listing, ∃ p ∈ d.files, s.location id = some p) :
    (s.sweepAll active listing d).2 =
      (d.files.keys.filter (· ∉ (s.sweepAll active listing d).1.files)).length := by
  induction listing generalizing d with
  | nil =>
    have hnone : d.files.keys.filter (· ∉ d.files) = [] := by
      rw [List.filter_eq_nil_iff]
      intro p hp
      simpa using AList.mem_keys.mpr hp
    show 0 = (d.files.keys.filter (· ∉ d.files)).length
    rw [hnone]
    rfl
  | cons id rest ih =>
    obtain ⟨hid, hrest⟩ := List.nodup_cons.mp hnodup
    obtain ⟨⟨p, hmem, hp⟩, hfound'⟩ := List.forall_mem_cons.mp hfound
    by_cases hactive : id ∈ active
    · have hskip : s.sweepAll active (id :: rest) d = s.sweepAll active rest d := if_pos hactive
      rw [hskip]
      exact ih hrest hfound'
    · -- One file is gone, and the rest of the listing is swept from what is left.
      let d' : Disk := { d with files := d.files.erase p }
      have hstep : s.sweepAll active (id :: rest) d =
          ((s.sweepAll active rest d').1, (s.sweepAll active rest d').2 + 1) := by
        show (if id ∈ active then _ else _) = _
        rw [if_neg hactive, delete_body hp hmem]
      have hfound'' : ∀ id' ∈ rest, ∃ q ∈ d'.files, s.location id' = some q := by
        intro id' hid'
        obtain ⟨q, hq, hloc⟩ := hfound' id' hid'
        refine ⟨q, AList.mem_erase.mpr ⟨?_, hq⟩, hloc⟩
        rintro rfl
        exact hid (location_inj hp hloc ▸ hid')
      have hgone : p ∉ (s.sweepAll active rest d').1.files := by
        rw [mem_sweepAll]
        rintro ⟨hin, -⟩
        exact (AList.mem_erase.mp hin).1 rfl
      have hperm := (List.perm_cons_erase (AList.mem_keys.mp hmem)).filter
        (· ∉ (s.sweepAll active rest d').1.files)
      rw [List.filter_cons_of_pos (by simpa using hgone)] at hperm
      have hkeys : d'.files.keys = d.files.keys.erase p := AList.keys_erase p d.files
      rw [hstep, hperm.length_eq, List.length_cons, ← hkeys, ← ih hrest hfound'']

/-! ## When it is complete -/

/-- What the sweep needs of the disk: every file lies where the store looks for its name.  Of a root
    that the walk skips it needs that there is nothing to sweep. -/
def Sweepable (s : FSStore) (active : List Name) (d : Disk) : Prop :=
  (FSStore.base s.root ≠ FSStore.lostFound ∧ Placed s d) ∨
    (FSStore.base s.root = FSStore.lostFound ∧
      ∀ p ∈ d.files, ∀ ns, (parse s.root).beneath p = some ns → ∃ id ∈ active, s.location id = some p)

theorem Placed.complete (hname : FSStore.base s.root ≠ FSStore.lostFound) (hplaced : Placed s d)
    (active : List Name) : Complete s active d (s.sweep active d) := by
  have hlisted : ∀ n ∈ s.walk d, ∃ p ∈ d.files, s.location n = some p := by
    intro n hn
    rw [walk_eq hname] at hn
    obtain ⟨p, hp, hn⟩ := List.mem_filterMap.mp hn
    exact ⟨p, AList.mem_keys.mpr hp, hplaced.reports (AList.mem_keys.mpr hp) hn⟩
  constructor
  · intro p ns hns
    unfold FSStore.sweep
    rw [mem_sweepAll]
    refine and_congr_right fun hmem => ?_
    obtain ⟨id, hp⟩ := hplaced p hmem ns hns
    constructor
    · intro hkept
      refine ⟨id, ?_, hp⟩
      by_contra hactive
      refine hkept id ?_ hactive hp
      rw [walk_eq hname]
      exact List.mem_filterMap.mpr ⟨p, AList.mem_keys.mp hmem, reports_body hp hns⟩
    · rintro ⟨id', hactive, hp'⟩ n - hn hloc
      exact hn (location_inj hloc hp' ▸ hactive)
  · exact count_sweepAll (hplaced.walk_nodup hname) hlisted

/-- **The sweep is complete exactly of such a disk.** -/
theorem complete_iff (s : FSStore) (active : List Name) (d : Disk) :
    Complete s active d (s.sweep active d) ↔ Sweepable s active d := by
  by_cases hname : FSStore.base s.root = FSStore.lostFound
  · have hwalk : s.walk d = [] := if_pos hname
    have hsweep : s.sweep active d = (d, 0) := by
      unfold FSStore.sweep
      rw [hwalk]
      rfl
    rw [hsweep]
    constructor
    · intro h
      exact .inr ⟨hname, fun p hp ns hns => ((h.left p ns hns).mp hp).2⟩
    · rintro (⟨hne, -⟩ | ⟨-, hall⟩)
      · exact absurd hname hne
      · refine ⟨fun p ns hns => (and_iff_left_of_imp fun hp => hall p hp ns hns).symm, ?_⟩
        have hnone : d.files.keys.filter (· ∉ d.files) = [] := by
          rw [List.filter_eq_nil_iff]
          intro p hp
          simpa using AList.mem_keys.mpr hp
        show 0 = (d.files.keys.filter (· ∉ d.files)).length
        rw [hnone]
        rfl
  · constructor
    · intro h
      refine .inl ⟨hname, fun p hp ns hns => ?_⟩
      by_contra hnot
      have hkept : p ∈ (s.sweep active d).1.files := by
        unfold FSStore.sweep
        rw [mem_sweepAll]
        exact ⟨hp, fun id _ _ hloc => hnot ⟨id, hloc⟩⟩
      obtain ⟨-, id, -, hloc⟩ := (h.left p ns hns).mp hkept
      exact hnot ⟨id, hloc⟩
    · rintro (⟨-, hplaced⟩ | ⟨heq, -⟩)
      · exact hplaced.complete hname active
      · exact absurd heq hname

/-! ## Over histories -/

/-- No process dies in a `Put`, and no clean-up fails. -/
def Calm (s : FSStore) (h : Held) : Call → Prop
  | .put w id body => (s.put w id body h.disk).result ≠ .died ∧ w.remove ≠ .fails
  | .get _ => True
  | .delete _ => True
  | .walk => True

/-- **Calm calls leave every file where it belongs**, whatever the ids. -/
theorem calm_placed {h : Held} (hfresh : Fresh s d) (hr : Reach (calls s d) (Calm s) h) :
    Placed s h.disk := by
  refine hr.invariant (I := fun h => Placed s h.disk) ?_ ?_
  · rintro _ rfl p hp ns hns
    rw [hfresh.files p hp] at hns
    cases hns
  · rintro h c _ - hinv hc rfl
    cases c with
    | put w id body =>
      obtain ⟨hdied, hremove⟩ := hc
      have hspec := put_spec s w id body h.disk
      show Placed s (s.put w id body h.disk).disk
      generalize s.put w id body h.disk = o at hspec hdied ⊢
      intro p hp ns hns
      cases hspec with
      | nothing hren hres hread =>
        refine hinv p ?_ ns hns
        rwa [← Disk.read_isSome, ← hread, Disk.read_isSome]
      | @stored q hq hren hres hbody hread =>
        by_cases hpq : p = q
        · exact ⟨id, hpq ▸ hq⟩
        · refine hinv p ?_ ns hns
          rwa [← Disk.read_isSome, ← hread p hpq, Disk.read_isSome]
      | left hfree hren hres htemp hread =>
        rcases hres with hd | ⟨-, hf⟩
        · exact absurd hd hdied
        · exact absurd hf hremove
    | get id => exact hinv
    | delete id =>
      intro p hp ns hns
      exact hinv p ((delete_mem s id h.disk p).mp hp).1 ns hns
    | walk => exact hinv

/-- **When a sweep is complete**: after any history exactly if every file below the root lies where
    the store looks for a body of its name, which a temporary file that is left does not; and so
    after every history in which no process died in a `Put` and no clean-up failed. -/
theorem sweep_complete_iff (hfresh : Fresh s d) (active : List Name) :
    (∀ h, Reach (calls s d) anyStep h →
      (Complete s active h.disk (s.sweep active h.disk) ↔ Sweepable s active h.disk)) ∧
    (FSStore.base s.root ≠ FSStore.lostFound → ∀ h, Reach (calls s d) (Calm s) h →
      Complete s active h.disk (s.sweep active h.disk)) :=
  ⟨fun h _ => complete_iff s active h.disk,
    fun hname _ hr => (calm_placed hfresh hr).complete hname active⟩

theorem sweep_complete_test :
    Complete (volume [98]) [[97]] (onePut [98]).disk
      ((volume [98]).sweep [[97]] (onePut [98]).disk) := by
  have hfresh : Fresh (volume [98]) (blank [98]) :=
    ⟨fun p hp => absurd hp (AList.notMem_empty p), by decide⟩
  exact (sweep_complete_iff hfresh [[97]]).2 (by decide) (onePut [98])
    (.step (l := .put .fair [97, 98] [1]) (.init rfl) ⟨by decide, by decide⟩ rfl)

/-- A process dies while it writes a body. -/
def tornPut : Held :=
  Held.after (volume [98]) ⟨blank [98], fun _ => none, true⟩
    (.put { Weather.fair with copy := .dies, copied := 1 } [97, 98] [1, 2])

/-- The temporary file stays, and is counted. -/
theorem torn_put_stays :
    Reach (calls (volume [98]) (blank [98])) anyStep tornPut ∧
      ((volume [98]).sweep [] tornPut.disk).1.read ((volume [98]).temp [97, 98] 7) = some [1] ∧
      ((volume [98]).sweep [] tornPut.disk).2 = 1 ∧
      ¬ Complete (volume [98]) [] tornPut.disk ((volume [98]).sweep [] tornPut.disk) := by
  have hread : ((volume [98]).sweep [] tornPut.disk).1.read ((volume [98]).temp [97, 98] 7) =
      some [1] := by
    decide
  refine ⟨.step (.init rfl) trivial rfl, hread, by decide, fun h => ?_⟩
  have hbelow : (parse (volume [98]).root).beneath ((volume [98]).temp [97, 98] 7) =
      some [[97, 98], tempName [97, 98] 7] := by
    decide
  have hmem : (volume [98]).temp [97, 98] 7 ∈ ((volume [98]).sweep [] tornPut.disk).1.files := by
    rw [← Disk.read_isSome, hread]
    rfl
  obtain ⟨-, id, hid, -⟩ := (h.left _ _ hbelow).mp hmem
  cases hid

end Novamail.Store

/-
  The store as a map from ids to bodies.

  Over any sequence of calls, whatever fails in them and wherever a process dies, what `Get` reads is
  the body of the last `Put` whose rename happened, unless a `Delete` came after it
  (`store_refines_map`).  `Held` carries that map beside the disk.
-/
import Novamail.Core.System
import Novamail.Store.Files

namespace Novamail.Store

open Novamail.Core Novamail.Core.Paths

/-! ## Ids -/

def isHexByte (b : UInt8) : Bool :=
  (48 ≤ b && b ≤ 57) || (97 ≤ b && b ≤ 102) || (65 ≤ b && b ≤ 70)

/-- Groups of hexadecimal digits with dashes between them. -/
def IsUuid (id : Name) : Prop :=
  (id.splitOn dash).map List.length = [8, 4, 4, 4, 12] ∧
    ∀ part ∈ id.splitOn dash, ∀ b ∈ part, isHexByte b = true

/-- The ids that are given to bodies. -/
def IsId (id : Name) : Prop := id ≠ [] ∧ ((∀ b ∈ id, isHexByte b = true) ∨ IsUuid id)

variable {s : FSStore} {id id' : Name} {p : FilePath} {d : Disk}

theorem IsId.bytes (h : IsId id) {b : UInt8} (hb : b ∈ id) : isHexByte b = true ∨ b = dash := by
  obtain ⟨-, hhex | ⟨-, hparts⟩⟩ := h
  · exact .inl (hhex b hb)
  · have hjoin : [dash].intercalate (id.splitOn dash) = id := List.intercalate_splitOn dash
    rw [← hjoin] at hb
    rcases mem_intercalate hb with hdash | ⟨part, hpart, hin⟩
    · exact .inr hdash
    · exact .inl (hparts part hpart b hin)

theorem IsId.notMem (h : IsId id) {b : UInt8} (hb : isHexByte b = false) (hdash : b ≠ dash) :
    b ∉ id := by
  intro hmem
  rcases h.bytes hmem with hhex | heq
  · rw [hb] at hhex
    cases hhex
  · exact hdash heq

theorem IsId.dot_notMem (h : IsId id) : dot ∉ id := h.notMem (by decide) (by decide)

theorem IsId.not_up (h : IsId id) : ¬ up <+: id := by
  intro hpre
  exact h.dot_notMem (hpre.subset List.mem_cons_self)

/-- Ids have a place in the store, -/
theorem IsId.location (h : IsId id) (s : FSStore) :
    s.location id = some ⟨(parse s.root).rooted, (parse s.root).names ++ [shard id, id]⟩ := by
  have hslash : slash ∉ id := h.notMem (by decide) (by decide)
  have hback : backslash ∉ id := h.notMem (by decide) (by decide)
  have hhere : id ≠ here := by
    rintro rfl
    exact h.dot_notMem List.mem_cons_self
  have hup : id ≠ up := by
    rintro rfl
    exact h.dot_notMem List.mem_cons_self
  have hpath : path s.root id = some (join [s.root, shard id, id]) := by
    unfold path
    rw [if_neg]
    rintro (hnil | (hmem | hmem) | heq | heq)
    · exact h.1 hnil
    · exact hslash hmem
    · exact hback hmem
    · exact hhere heq
    · exact hup heq
  have hplace : place s.root id = (parse s.root).names ++ [shard id] := by
    rcases @place_cases s.root id (accepted_of_path hpath).1 with ⟨-, hp⟩ | ⟨hpre, -⟩
    · exact hp
    · exact absurd hpre h.not_up
  unfold FSStore.location
  rw [hpath, Option.map_some, parse_path hpath, hplace, List.append_assoc]
  rfl

/-- below the root, -/
theorem IsId.beneath (h : IsId id) (hp : s.location id = some p) :
    (parse s.root).beneath p = some [shard id, id] := by
  rw [h.location s] at hp
  obtain rfl := Option.some.inj hp
  refine beneath_append (List.cons_ne_nil _ _) ?_
  intro hmem
  have hin : ∀ b ∈ shard id, b ∈ id := by
    unfold shard
    split_ifs
    · exact fun b hb => List.mem_of_mem_take hb
    · exact fun b hb => hb
  rcases List.mem_cons.mp hmem with heq | hmem
  · exact h.dot_notMem (hin dot (heq ▸ List.mem_cons_self))
  · rw [← List.mem_singleton.mp hmem] at h
    exact h.dot_notMem List.mem_cons_self

/-- and none of them is the name of a temporary file. -/
theorem IsId.ne_tempName (h : IsId id) (id' : Name) (random : Nat) : id ≠ tempName id' random := by
  rintro rfl
  exact h.dot_notMem List.mem_cons_self

/-! ## Sequences of calls -/

inductive Call where
  | put (w : Weather) (id : Name) (body : Bytes)
  | get (id : Name)
  | delete (id : Name)
  | walk

/-- The calls are about ids. -/
def Call.Proper : Call → Prop
  | .put _ id _ => IsId id
  | .get id => IsId id
  | .delete id => IsId id
  | .walk => True

/-- The disk; for each id the body of the last `Put` whose rename happened, if no `Delete` came after
    it; and whether no process died in a `Put` and no clean-up failed. -/
structure Held where
  disk : Disk
  latest : Name → Option Bytes
  undisturbed : Bool

/-- What a `Put` with this outcome makes of it. -/
def Held.afterPut (h : Held) (w : Weather) (id : Name) (body : Bytes) (o : Outcome) : Held where
  disk := o.disk
  latest := if o.renamed then Function.update h.latest id (some body) else h.latest
  undisturbed := h.undisturbed && o.result ≠ .died && w.remove ≠ .fails

def Held.after (s : FSStore) (h : Held) : Call → Held
  | .put w id body => h.afterPut w id body (s.put w id body h.disk)
  | .get _ => h
  | .delete id =>
    { h with disk := (s.delete id h.disk).1, latest := Function.update h.latest id none }
  | .walk => h

/-- Sequences of calls, from a disk. -/
def calls (s : FSStore) (d : Disk) : LTS Held Call where
  init h := h = ⟨d, fun _ => none, true⟩
  step h c h' := h' = h.after s c

/-- Nothing lies below the root yet. -/
structure Fresh (s : FSStore) (d : Disk) : Prop where
  files : ∀ p ∈ d.files, (parse s.root).beneath p = none
  dirs : ∀ p ∈ d.dirs, (parse s.root).beneath p = none

/-- **The disk holds the map.** -/
structure Refines (s : FSStore) (h : Held) : Prop where
  get : ∀ id, IsId id → s.get id h.disk = h.latest id
  ids : ∀ id, (h.latest id).isSome = true → IsId id
  /-- Below the root there are no directories but the shards, -/
  dirs : ∀ p ∈ h.disk.dirs, ∀ ns, (parse s.root).beneath p = some ns → ns.length = 1
  /-- and no files but the bodies, if nothing has gone wrong. -/
  files : h.undisturbed = true → ∀ p ∈ h.disk.files, ∀ ns, (parse s.root).beneath p = some ns →
    ∃ id, IsId id ∧ s.location id = some p

/-! ## The invariant -/

theorem refines_init (hfresh : Fresh s d) : Refines s ⟨d, fun _ => none, true⟩ := by
  constructor
  · intro id hid
    have hp := hid.location s
    rw [get_eq hp, Disk.read_eq_none]
    intro hmem
    have hout := hfresh.files _ hmem
    rw [hid.beneath hp] at hout
    cases hout
  · intro id h
    cases h
  · intro p hp ns hns
    rw [hfresh.dirs p hp] at hns
    cases hns
  · intro _ p hp ns hns
    rw [hfresh.files p hp] at hns
    cases hns

/-- The shard of an id is a directory right below the root. -/
theorem IsId.shard_dir (h : IsId id) {ns ms : List Name} (hpre : ns <+: place s.root id)
    (hns : (parse s.root).beneath ⟨(parse s.root).rooted, ns⟩ = some ms) : ms.length = 1 := by
  obtain ⟨hne, -, heq⟩ := beneath_spec hns
  have hnames : ns = (parse s.root).names ++ ms := congrArg FilePath.names heq
  have hplace : place s.root id = (parse s.root).names ++ [shard id] := by
    have hloc := (location_spec (h.location s)).2
    have hall : (parse s.root).names ++ [shard id, id] = place s.root id ++ [id] :=
      congrArg FilePath.names hloc
    have hcut : (parse s.root).names ++ [shard id, id] =
        ((parse s.root).names ++ [shard id]) ++ [id] := by simp
    exact (List.append_inj' (hall.symm.trans hcut) rfl).1
  have hle := hpre.length_le
  have hpos := List.length_pos_iff.mpr hne
  rw [hplace, hnames, List.length_append, List.length_append, List.length_singleton] at hle
  omega

theorem Held.undisturbed_of_afterPut {h : Held} {w : Weather} {body : Bytes} {o : Outcome}
    (hcalm : (h.afterPut w id body o).undisturbed = true) :
    h.undisturbed = true ∧ o.result ≠ .died ∧ w.remove ≠ .fails := by
  unfold Held.afterPut at hcalm
  simp only [Bool.and_eq_true, decide_eq_true_eq] at hcalm
  exact ⟨hcalm.1.1, hcalm.1.2, hcalm.2⟩

theorem Refines.afterPut {h : Held} (hr : Refines s h) {w : Weather} (hid : IsId id) {body : Bytes}
    {o : Outcome} (hspec : Put s w id body h.disk o)
    (hdirs : ∀ q ∈ o.disk.dirs, ∀ ns, (parse s.root).beneath q = some ns → ns.length = 1) :
    Refines s (h.afterPut w id body o) := by
  cases hspec with
  | nothing hren hres hread =>
    have hlatest : (h.afterPut w id body o).latest = h.latest := by
      unfold Held.afterPut
      rw [hren]
      rfl
    refine ⟨fun id' hid' => ?_, ?_, hdirs, fun hcalm q hq ns hns => ?_⟩
    · have hp' := hid'.location s
      rw [hlatest, get_eq hp', ← hr.get id' hid', get_eq hp']
      exact hread _
    · rw [hlatest]
      exact hr.ids
    · refine hr.files (Held.undisturbed_of_afterPut hcalm).1 q ?_ ns hns
      rwa [← Disk.read_isSome, ← hread, Disk.read_isSome]
  | @stored p hp hren hres hbody hread =>
    have hlatest : (h.afterPut w id body o).latest = Function.update h.latest id (some body) := by
      unfold Held.afterPut
      rw [hren]
      rfl
    refine ⟨fun id' hid' => ?_, fun id' hsome => ?_, hdirs, fun hcalm q hq ns hns => ?_⟩
    · have hp' := hid'.location s
      rw [hlatest, get_eq hp']
      by_cases heq : id' = id
      · subst heq
        rw [Function.update_self]
        obtain rfl := Option.some.inj (hp.symm.trans hp')
        exact hbody
      · rw [Function.update_of_ne heq, ← hr.get id' hid', get_eq hp']
        refine hread _ ?_
        rintro rfl
        exact heq (location_inj hp' hp)
    · rw [hlatest] at hsome
      by_cases heq : id' = id
      · rw [heq]
        exact hid
      · rw [Function.update_of_ne heq] at hsome
        exact hr.ids id' hsome
    · by_cases hqp : q = p
      · exact ⟨id, hid, hqp ▸ hp⟩
      · refine hr.files (Held.undisturbed_of_afterPut hcalm).1 q ?_ ns hns
        rwa [← Disk.read_isSome, ← hread q hqp, Disk.read_isSome]
  | left hfree hren hres htemp hread =>
    have hlatest : (h.afterPut w id body o).latest = h.latest := by
      unfold Held.afterPut
      rw [hren]
      rfl
    refine ⟨fun id' hid' => ?_, ?_, hdirs, fun hcalm => ?_⟩
    · have hp' := hid'.location s
      rw [hlatest, get_eq hp', ← hr.get id' hid', get_eq hp']
      exact hread _ (temp_ne_location hp' (hid'.ne_tempName id w.random))
    · rw [hlatest]
      exact hr.ids
    · -- A file that is left is a disturbance.
      exfalso
      obtain ⟨-, hres', hremove⟩ := Held.undisturbed_of_afterPut hcalm
      rcases hres with hdied | ⟨-, hfails⟩
      · exact hres' hdied
      · exact hremove hfails

/-- A `Delete` of an id removes its body, if there is one. -/
theorem delete_spec (hp : s.location id = some p) (hdir : p ∉ d.dirs) :
    (s.delete id d).1 = (d.remove p).1 ∧ (s.delete id d).2 = true := by
  unfold FSStore.location at hp
  obtain ⟨t, ht, rfl⟩ := Option.map_eq_some_iff.mp hp
  have hnf := Disk.remove_ne_failed hdir
  unfold FSStore.delete
  rw [ht]
  dsimp only
  generalize d.remove (parse t) = r at hnf
  obtain ⟨d', res⟩ := r
  cases res with
  | done => exact ⟨rfl, rfl⟩
  | absent => exact ⟨rfl, rfl⟩
  | failed => exact absurd rfl hnf

theorem Refines.location_notMem_dirs {h : Held} (hr : Refines s h) (hid : IsId id)
    (hp : s.location id = some p) : p ∉ h.disk.dirs := by
  intro hmem
  have hlen := hr.dirs p hmem _ (hid.beneath hp)
  cases hlen

theorem Refines.delete {h : Held} (hr : Refines s h) (hid : IsId id) :
    Refines s (h.after s (.delete id)) := by
  have hp := hid.location s
  obtain ⟨hdisk, -⟩ := delete_spec hp (hr.location_notMem_dirs hid hp)
  show Refines s { h with
    disk := (s.delete id h.disk).1
    latest := Function.update h.latest id none }
  rw [hdisk]
  refine ⟨fun id' hid' => ?_, fun id' hsome => ?_, fun q hq => ?_, fun hcalm q hq ns hns => ?_⟩
  · have hp' := hid'.location s
    dsimp only
    by_cases heq : id' = id
    · subst heq
      rw [Function.update_self, get_eq hp', Option.some.inj (hp'.symm.trans hp)]
      exact Disk.read_remove_self
    · rw [Function.update_of_ne heq, ← hr.get id' hid', get_eq hp', get_eq hp']
      refine Disk.read_remove_ne fun hloc => heq (location_inj hp' ?_)
      rw [hp, hloc]
  · dsimp only at hsome
    by_cases heq : id' = id
    · rw [heq]
      exact hid
    · rw [Function.update_of_ne heq] at hsome
      exact hr.ids id' hsome
  · exact hr.dirs q (Disk.remove_dirs hq)
  · refine hr.files hcalm q ?_ ns hns
    rw [← Disk.read_isSome] at hq ⊢
    by_cases heq : q = ⟨(parse s.root).rooted, (parse s.root).names ++ [shard id, id]⟩
    · rw [heq, Disk.read_remove_self] at hq
      cases hq
    · rwa [Disk.read_remove_ne heq] at hq

/-- **Every sequence of calls keeps it.** -/
theorem refines {h : Held} (hfresh : Fresh s d) (hr : Reach (calls s d) (fun _ c => c.Proper) h) :
    Refines s h := by
  refine hr.invariant ?_ ?_
  · rintro _ rfl
    exact refines_init hfresh
  · rintro h c _ - hinv hc rfl
    cases c with
    | put w id body =>
      refine hinv.afterPut hc (put_spec s w id body h.disk) ?_
      intro q hq ns hns
      rcases put_dirs hq with hold | ⟨ms, hpre, rfl⟩
      · exact hinv.dirs q hold ns hns
      · exact IsId.shard_dir hc hpre hns
    | get id => exact hinv
    | delete id => exact hinv.delete hc
    | walk => exact hinv

/-! ## The listing -/

/-- The name under which a file is reported. -/
def FSStore.reports (s : FSStore) (p : FilePath) : Option Name :=
  ((parse s.root).beneath p).bind fun ns =>
    if ns.dropLast.any fun n => decide (n = FSStore.lostFound) then none else ns.getLast?

theorem walk_eq (hname : FSStore.base s.root ≠ FSStore.lostFound) (d : Disk) :
    s.walk d = d.files.keys.filterMap s.reports := by
  unfold FSStore.walk
  rw [if_neg hname]
  rfl

/-- A body below the root is reported by its id: no shard is named `lost+found`. -/
theorem reports_body (hp : s.location id = some p) {ns : List Name}
    (hns : (parse s.root).beneath p = some ns) : s.reports p = some id := by
  obtain ⟨hid, rfl⟩ := location_spec hp
  obtain ⟨hne, hup, heq⟩ := beneath_spec hns
  have hnames : place s.root id ++ [id] = (parse s.root).names ++ ns := congrArg FilePath.names heq
  have hshort := shard_length_le id
  have hshard : shard id ≠ FSStore.lostFound := by
    intro hlost
    rw [hlost] at hshort
    exact absurd hshort (by decide)
  unfold FSStore.reports
  rw [hns, Option.bind_some]
  rcases @place_cases s.root id hid with ⟨-, hp'⟩ | ⟨-, ⟨hroot, hp'⟩ | hp' | ⟨hroot, hp'⟩⟩
  · rw [hp', List.append_assoc] at hnames
    rw [← List.append_cancel_left hnames]
    simp [hshard]
  · rw [hp', hroot] at hnames
    have hone : [id] = ns := hnames
    rw [← hone]
    rfl
  · rw [hp', List.append_assoc] at hnames
    rw [← List.append_cancel_left hnames] at hup
    simp at hup
  · have hlen := congrArg List.length hnames
    have hpos := List.length_pos_iff.mpr hne
    have hpos' := List.length_pos_iff.mpr hroot
    rw [hp', List.length_append, List.length_append, List.length_dropLast,
      List.length_singleton] at hlen
    omega

/-- Every file below the root lies where the store looks for a body of its name. -/
def Placed (s : FSStore) (d : Disk) : Prop :=
  ∀ p ∈ d.files, ∀ ns, (parse s.root).beneath p = some ns → ∃ id, s.location id = some p

/-- The names of the listing then lead back to the files, -/
theorem Placed.reports (hplaced : Placed s d) (hmem : p ∈ d.files) {n : Name}
    (hn : s.reports p = some n) : s.location n = some p := by
  have hbelow : ∃ ns, (parse s.root).beneath p = some ns := by
    unfold FSStore.reports at hn
    obtain ⟨ns, hns, -⟩ := Option.bind_eq_some_iff.mp hn
    exact ⟨ns, hns⟩
  obtain ⟨ns, hns⟩ := hbelow
  obtain ⟨id, hp⟩ := hplaced p hmem ns hns
  obtain rfl : id = n := Option.some.inj ((reports_body hp hns).symm.trans hn)
  exact hp

/-- and none comes twice. -/
theorem Placed.walk_nodup (hplaced : Placed s d)
    (hname : FSStore.base s.root ≠ FSStore.lostFound) : (s.walk d).Nodup := by
  rw [walk_eq hname, List.Nodup, List.pairwise_filterMap]
  refine d.files.keys_nodup.imp_of_mem ?_
  intro q q' hq hq' hne n hn n' hn' heq
  subst heq
  have hp := hplaced.reports (AList.mem_keys.mpr hq) hn
  have hp' := hplaced.reports (AList.mem_keys.mpr hq') hn'
  exact hne (Option.some.inj (hp.symm.trans hp'))

/-- **If nothing has gone wrong, the listing has each id that is present, once.** -/
theorem Refines.walk {h : Held} (hr : Refines s h)
    (hname : FSStore.base s.root ≠ FSStore.lostFound) (hcalm : h.undisturbed = true) :
    (s.walk h.disk).Nodup ∧ ∀ id, id ∈ s.walk h.disk ↔ (h.latest id).isSome = true := by
  have hplaced : Placed s h.disk := by
    intro p hp ns hns
    obtain ⟨id, -, hloc⟩ := hr.files hcalm p hp ns hns
    exact ⟨id, hloc⟩
  refine ⟨hplaced.walk_nodup hname, fun id => ?_⟩
  rw [walk_eq hname]
  constructor
  · intro hmem
    obtain ⟨q, hq, hn⟩ := List.mem_filterMap.mp hmem
    have hq' := AList.mem_keys.mpr hq
    have hp := hplaced.reports hq' hn
    have hid : IsId id := by
      obtain ⟨ns, hns, -⟩ := Option.bind_eq_some_iff.mp hn
      obtain ⟨id', hid', hp'⟩ := hr.files hcalm q hq' ns hns
      exact location_inj hp' hp ▸ hid'
    rw [← hr.get id hid, get_eq hp, Disk.read_isSome]
    exact hq'
  · intro hsome
    have hid := hr.ids id hsome
    have hp := hid.location s
    rw [← hr.get id hid, get_eq hp, Disk.read_isSome] at hsome
    exact List.mem_filterMap.mpr ⟨_, AList.mem_keys.mp hsome, reports_body hp (hid.beneath hp)⟩

/-- In a root that is named `lost+found` nothing is listed: what `Walk` means to skip is a directory
    inside the root. -/
theorem walk_lost (hname : FSStore.base s.root = FSStore.lostFound) (d : Disk) : s.walk d = [] := by
  unfold FSStore.walk
  rw [if_pos hname]

/-- The listing has the ids that are present, each once, exactly if the root is not named so, or
    nothing is present. -/
theorem Refines.walk_iff {h : Held} (hr : Refines s h) (hcalm : h.undisturbed = true) :
    ((s.walk h.disk).Nodup ∧ ∀ id, id ∈ s.walk h.disk ↔ (h.latest id).isSome = true) ↔
      FSStore.base s.root ≠ FSStore.lostFound ∨ ∀ id, h.latest id = none := by
  by_cases hname : FSStore.base s.root = FSStore.lostFound
  · rw [walk_lost hname]
    constructor
    · rintro ⟨-, hids⟩
      refine .inr fun id => Option.not_isSome_iff_eq_none.mp fun hsome => ?_
      exact absurd ((hids id).mpr hsome) List.not_mem_nil
    · rintro (hother | hnone)
      · exact absurd hname hother
      · refine ⟨List.nodup_nil, fun id => ⟨fun hmem => absurd hmem List.not_mem_nil, fun hsome => ?_⟩⟩
        rw [hnone id] at hsome
        cases hsome
  · exact ⟨fun _ => .inl hname, fun _ => hr.walk hname hcalm⟩

/-! ## The store as a map -/

/-- **The store refines a map, and does so atomically**: after any sequence of calls, `Get` reads the
    last body that was renamed into place and not deleted since; a `Put` that returns an error has
    changed no body, and left no file unless its clean-up failed; `Delete` succeeds where there is
    nothing.  If no process died in a `Put` and no clean-up failed, `Walk` lists the ids that are
    present, each once, exactly if the root is not itself named `lost+found` or nothing is
    present. -/
theorem store_refines_map {h : Held} (hfresh : Fresh s d)
    (hr : Reach (calls s d) (fun _ c => c.Proper) h) :
    (∀ id, IsId id → s.get id h.disk = h.latest id) ∧
    (∀ w id body, IsId id → (s.put w id body h.disk).result = .error →
      (∀ id', IsId id' → s.get id' (s.put w id body h.disk).disk = s.get id' h.disk) ∧
      (w.remove ≠ .fails → ∀ p, (s.put w id body h.disk).disk.read p = h.disk.read p)) ∧
    (∀ id, IsId id → s.get id h.disk = none → (s.delete id h.disk).2 = true) ∧
    (h.undisturbed = true →
      (((s.walk h.disk).Nodup ∧ ∀ id, id ∈ s.walk h.disk ↔ (h.latest id).isSome = true) ↔
        FSStore.base s.root ≠ FSStore.lostFound ∨ ∀ id, h.latest id = none)) := by
  have hinv := refines hfresh hr
  refine ⟨hinv.get, fun w id body hid herr => ?_, fun id hid _ => ?_, hinv.walk_iff⟩
  · have hspec := put_spec s w id body h.disk
    generalize s.put w id body h.disk = o at hspec herr ⊢
    cases hspec with
    | nothing hren hres hread =>
      refine ⟨fun id' hid' => ?_, fun _ => hread⟩
      rw [get_eq (hid'.location s), get_eq (hid'.location s)]
      exact hread _
    | stored hp hren hres => exact absurd herr hres
    | left hfree hren hres htemp hread =>
      refine ⟨fun id' hid' => ?_, fun hremove => ?_⟩
      · rw [get_eq (hid'.location s), get_eq (hid'.location s)]
        exact hread _ (temp_ne_location (hid'.location s) (hid'.ne_tempName id w.random))
      · exfalso
        rcases hres with hdied | ⟨-, hfails⟩
        · rw [hdied] at herr
          cases herr
        · exact hremove hfails
  · have hp := hid.location s
    exact (delete_spec hp (hinv.location_notMem_dirs hid hp)).2

/-- Nothing goes wrong. -/
def Weather.fair : Weather where
  mkdir := .ok
  create := .ok
  random := 7
  copy := .ok
  copied := 0
  sync := .ok
  close := .ok
  rename := .ok
  remove := .ok

/-- The disk is full after one byte. -/
def Weather.full : Weather := { Weather.fair with copy := .fails, copied := 1 }

/-- The process dies after one byte. -/
def Weather.fatal : Weather := { Weather.fair with copy := .dies, copied := 1 }

/-- A store in a directory of the root, on a disk that has only that. -/
def volume (name : Name) : FSStore := ⟨slash :: name, List.cons_ne_nil _ _⟩

def blank (name : Name) : Disk := ⟨∅, [⟨true, []⟩, ⟨true, [name]⟩]⟩

/-- One `Put` of a body of one byte. -/
def onePut (name : Name) : Held :=
  Held.after (volume name) ⟨blank name, fun _ => none, true⟩ (.put .fair [97, 98] [1])

/-- Then one for the same id that fails half-way, -/
def failedPut : Held := Held.after (volume [98]) (onePut [98]) (.put .full [97, 98] [2, 3])

/-- and one for an id of the same shard in which the process dies. -/
def diedPut : Held := Held.after (volume [98]) failedPut (.put .fatal [97, 98, 99] [4, 5])

/-- The first body is read after both; the failed one is an error and changes nothing; and as long
    as nobody has died the listing is that id. -/
theorem store_refines_map_test :
    (volume [98]).get [97, 98] diedPut.disk = some [1] ∧
      (volume [98]).get [97, 98, 99] diedPut.disk = none ∧
      ((volume [98]).put .full [97, 98] [2, 3] (onePut [98]).disk).result = .error ∧
      (∀ p, failedPut.disk.read p = (onePut [98]).disk.read p) ∧
      ((volume [98]).put .fatal [97, 98, 99] [4, 5] failedPut.disk).result = .died ∧
      failedPut.latest [97, 98] = some [1] ∧
      ∀ id, id ∈ (volume [98]).walk failedPut.disk ↔ (failedPut.latest id).isSome = true := by
  have hid : IsId [97, 98] := ⟨by decide, .inl (forall_mem_of_all (by decide))⟩
  have hid' : IsId [97, 98, 99] := ⟨by decide, .inl (forall_mem_of_all (by decide))⟩
  have hfresh : Fresh (volume [98]) (blank [98]) :=
    ⟨fun p hp => absurd hp (AList.notMem_empty p), by decide⟩
  have hone : Reach (calls (volume [98]) (blank [98])) (fun _ c => c.Proper) (onePut [98]) :=
    .step (l := .put .fair [97, 98] [1]) (.init rfl) hid rfl
  have hfailed : Reach (calls (volume [98]) (blank [98])) (fun _ c => c.Proper) failedPut :=
    .step (l := .put .full [97, 98] [2, 3]) hone hid rfl
  have hdied : Reach (calls (volume [98]) (blank [98])) (fun _ c => c.Proper) diedPut :=
    .step (l := .put .fatal [97, 98, 99] [4, 5]) hfailed hid' rfl
  obtain ⟨-, herror, -⟩ := store_refines_map hfresh hone
  obtain ⟨-, -, -, hwalk⟩ := store_refines_map hfresh hfailed
  obtain ⟨hget, -⟩ := store_refines_map hfresh hdied
  have hresult : ((volume [98]).put .full [97, 98] [2, 3] (onePut [98]).disk).result = .error := by
    decide
  have hkept := (herror .full [97, 98] [2, 3] hid hresult).2 (by decide)
  refine ⟨(hget _ hid).trans (by decide), (hget _ hid').trans (by decide), hresult, hkept,
    by decide, by decide, ?_⟩
  exact ((hwalk (by decide)).mpr (.inl (by decide))).2

/-- In a root that is named `lost+found` the walk finds nothing. -/
theorem lost_root :
    Fresh (volume FSStore.lostFound) (blank FSStore.lostFound) ∧
      Reach (calls (volume FSStore.lostFound) (blank FSStore.lostFound)) (fun _ c => c.Proper)
        (onePut FSStore.lostFound) ∧
      (onePut FSStore.lostFound).undisturbed = true ∧
      (onePut FSStore.lostFound).latest [97, 98] = some [1] ∧
      [97, 98] ∉ (volume FSStore.lostFound).walk (onePut FSStore.lostFound).disk := by
  have hid : IsId [97, 98] := ⟨by decide, .inl (forall_mem_of_all (by decide))⟩
  refine ⟨⟨fun p hp => absurd hp (AList.notMem_empty p), by decide⟩,
    .step (l := .put .fair [97, 98] [1]) (.init rfl) hid rfl, by decide, by decide, by decide⟩

end Novamail.Store

/-
  A file system: regular files with their contents, and directories.

  Files are told apart by their paths.  Each operation is a function of the disk, none if it cannot
  be done there, and each has one lemma that says what can be read after it.
-/
import Mathlib.Data.List.AList
import Mathlib.Data.List.Infix
import Novamail.Core.Paths

namespace Novamail.Core.Paths

abbrev Bytes := List UInt8

/-- The contents of the regular files, and the directories. -/
structure Disk where
  files : AList fun _ : FilePath => Bytes
  dirs : List FilePath

/-- The directory that a path lies in. -/
def FilePath.parent (p : FilePath) : FilePath := { p with names := p.names.dropLast }

/-- The names that lead from a directory down to a path below it. -/
def FilePath.beneath (root p : FilePath) : Option (List Name) :=
  if p.rooted = root.rooted ∧ root.names <+: p.names ∧ root.names ≠ p.names ∧
      up ∉ p.names.drop root.names.length then
    some (p.names.drop root.names.length)
  else none

namespace Disk

variable {d d' : Disk} {p q src dst : FilePath} {b : Bytes}

/-- The contents of a file; none if there is no such file. -/
def read (d : Disk) (p : FilePath) : Option Bytes := d.files.lookup p

/-- `os.MkdirAll`; no file may stand in the way. -/
def mkdirAll (d : Disk) (p : FilePath) : Option Disk :=
  if p.names.inits.any fun ns => decide ((⟨p.rooted, ns⟩ : FilePath) ∈ d.files) then none
  else some { d with dirs := d.dirs ++ p.names.inits.map (⟨p.rooted, ·⟩) }

/-- A new, empty file. -/
def create (d : Disk) (p : FilePath) : Option Disk :=
  if p.parent ∈ d.dirs ∧ p ∉ d.files ∧ p ∉ d.dirs then
    some { d with files := d.files.insert p [] }
  else none

/-- What has been written to an open file. -/
def write (d : Disk) (p : FilePath) (b : Bytes) : Disk := { d with files := d.files.insert p b }

/-- `os.Rename` of a file, which takes the place of another at once. -/
def rename (d : Disk) (src dst : FilePath) : Option Disk :=
  match d.read src with
  | none => none
  | some b =>
    if dst.parent ∈ d.dirs ∧ dst ∉ d.dirs then
      some { d with files := (d.files.erase src).insert dst b }
    else none

/-- Something lies in the directory. -/
def occupied (d : Disk) (p : FilePath) : Bool :=
  d.files.keys.any (fun q => q ≠ p && q.parent = p) || d.dirs.any fun q => q ≠ p && q.parent = p

inductive Removal where
  | done
  | absent
  | failed
deriving DecidableEq, Repr

/-- `os.Remove`: a file, or an empty directory. -/
def remove (d : Disk) (p : FilePath) : Disk × Removal :=
  if p ∈ d.files then ({ d with files := d.files.erase p }, .done)
  else if p ∈ d.dirs then
    if d.occupied p then (d, .failed) else ({ d with dirs := d.dirs.filter (· ≠ p) }, .done)
  else (d, .absent)

/-- `filepath.WalkDir`: the last names of the files below a directory, without those in directories
    that are skipped. -/
def walk (d : Disk) (root : FilePath) (skip : Name → Bool) : List Name :=
  d.files.keys.filterMap fun p =>
    (root.beneath p).bind fun ns => if ns.dropLast.any skip then none else ns.getLast?

/-! ## What can be read -/

theorem read_isSome : (d.read p).isSome = true ↔ p ∈ d.files := AList.lookup_isSome

theorem read_eq_none : d.read p = none ↔ p ∉ d.files := AList.lookup_eq_none

theorem mkdirAll_files (h : d.mkdirAll p = some d') : d'.files = d.files := by
  unfold mkdirAll at h
  split_ifs at h
  cases h
  rfl

theorem mem_mkdirAll_dirs (h : d.mkdirAll p = some d') :
    q ∈ d'.dirs ↔ q ∈ d.dirs ∨ ∃ ns, ns <+: p.names ∧ ⟨p.rooted, ns⟩ = q := by
  unfold mkdirAll at h
  split_ifs at h
  cases h
  rw [List.mem_append, List.mem_map]
  simp only [List.mem_inits]

/-- A file that is created was not there. -/
theorem create_spec (h : d.create p = some d') :
    d.read p = none ∧ d' = d.write p [] := by
  unfold create at h
  split_ifs at h with hfree
  cases h
  exact ⟨read_eq_none.mpr hfree.2.1, rfl⟩

theorem read_write_self : (d.write p b).read p = some b := AList.lookup_insert d.files

theorem read_write_ne (h : q ≠ p) : (d.write p b).read q = d.read q := AList.lookup_insert_ne h

theorem write_write (b' : Bytes) : (d.write p b).write p b' = d.write p b' := by
  show Disk.mk ((d.files.insert p b).insert p b') d.dirs = Disk.mk (d.files.insert p b') d.dirs
  rw [AList.insert_insert]

/-- **A rename moves the contents, and nothing else.** -/
theorem rename_spec (h : d.rename src dst = some d') :
    ∃ b, d.read src = some b ∧ d'.read dst = some b ∧ (src ≠ dst → d'.read src = none) ∧
      ∀ q, q ≠ dst → q ≠ src → d'.read q = d.read q := by
  unfold rename at h
  match hb : d.read src with
  | none =>
    rw [hb] at h
    cases h
  | some b =>
    rw [hb] at h
    dsimp only at h
    split_ifs at h
    cases h
    refine ⟨b, rfl, AList.lookup_insert _, fun hne => ?_, fun q hdst hsrc => ?_⟩
    · exact (AList.lookup_insert_ne hne).trans (AList.lookup_erase src d.files)
    · exact (AList.lookup_insert_ne hdst).trans (AList.lookup_erase_ne hsrc)

theorem rename_dirs (h : d.rename src dst = some d') : d'.dirs = d.dirs := by
  unfold rename at h
  match hb : d.read src with
  | none =>
    rw [hb] at h
    cases h
  | some b =>
    rw [hb] at h
    dsimp only at h
    split_ifs at h
    cases h
    rfl

theorem remove_dirs : (d.remove p).1.dirs ⊆ d.dirs := by
  unfold remove
  split_ifs
  · exact List.Subset.refl _
  · exact List.Subset.refl _
  · exact fun q hq => (List.mem_filter.mp hq).1
  · exact List.Subset.refl _

/-- What is no directory can be removed, or is not there. -/
theorem remove_ne_failed (h : p ∉ d.dirs) : (d.remove p).2 ≠ .failed := by
  unfold remove
  split_ifs
  · exact Removal.noConfusion
  · exact Removal.noConfusion

/-- **A removal is of one file, and of nothing else.** -/
theorem read_remove_self : (d.remove p).1.read p = none := by
  unfold remove
  split_ifs with hfile hdir hfull
  · exact AList.lookup_erase p d.files
  · exact read_eq_none.mpr hfile
  · exact read_eq_none.mpr hfile
  · exact read_eq_none.mpr hfile

theorem read_remove_ne (h : q ≠ p) : (d.remove p).1.read q = d.read q := by
  unfold remove
  split_ifs
  · exact AList.lookup_erase_ne h
  · rfl
  · rfl
  · rfl

end Disk

end Novamail.Core.Paths

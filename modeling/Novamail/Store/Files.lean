/-
  `internal/store/fsstore.go`: bodies as files, and what one call of `Put`, `Get`, `Delete` and `Walk`
  does to the disk.

  `Put` writes to a temporary file and renames it.  Each of its file operations may fail, and the
  process may die at each of them; `put_spec` says once what can come of that: nothing, the body in
  its place, or a temporary file that is left.
-/
import Novamail.Core.Disk
import Novamail.Model.Message
import Novamail.Store.Path

namespace Novamail.Store

open Novamail.Core Novamail.Core.Paths

/-- The store; `NewFSStore` refuses an empty root. -/
structure FSStore where
  root : Name
  root_ne_nil : root ≠ []

namespace FSStore

/-- Where the body of an id lies. -/
def location (s : FSStore) (id : Name) : Option FilePath := (path s.root id).map parse

end FSStore

/-! ## What becomes of a file operation -/

inductive Fate where
  | ok
  | fails
  | dies
deriving DecidableEq, Repr

/-- What becomes of the operations of one `Put`, in their order. -/
structure Weather where
  mkdir : Fate
  create : Fate
  /-- What `CreateTemp` draws. -/
  random : Nat
  copy : Fate
  /-- How much of the body has been written when the copy ends badly. -/
  copied : Nat
  sync : Fate
  close : Fate
  rename : Fate
  /-- The deferred clean-up. -/
  remove : Fate
deriving Repr

inductive Result where
  | ok
  | error
  | died
deriving DecidableEq, Repr

/-- What a `Put` leaves, and whether its rename happened. -/
structure Outcome where
  disk : Disk
  result : Result
  renamed : Bool

/-- An operation that succeeds if it can be done and neither fails nor is the last of the process. -/
def Fate.attempt : Fate → Option Disk → Except Result Disk
  | .dies, _ => .error .died
  | .ok, some d => .ok d
  | .ok, none => .error .error
  | .fails, _ => .error .error

/-! ## The calls -/

/-- `.tmp-` -/
def tempMark : Name := [46, 116, 109, 112, 45]

def dash : UInt8 := 45

def digits (n : Nat) : Name := (Nat.toDigits 10 n).map fun c => c.toNat.toUInt8

/-- The name that `CreateTemp` makes of the pattern. -/
def tempName (id : Name) (random : Nat) : Name := tempMark ++ id ++ dash :: digits random

/-- A file of this name in a directory. -/
def tempIn (dir : FilePath) (id : Name) (random : Nat) : FilePath :=
  { dir with names := dir.names ++ [tempName id random] }

/-- The `tmp.Close` of the error paths: its error is dropped, but the process may die there too. -/
def Weather.closing (w : Weather) : Result := if w.close = .dies then .died else .error

/-- `Put` between `CreateTemp` and the deferred clean-up. -/
def fill (w : Weather) (tmp dst : FilePath) (body : Bytes) (d : Disk) : Outcome :=
  match w.copy with
  | .dies => ⟨d.write tmp (body.take w.copied), .died, false⟩
  | .fails => ⟨d.write tmp (body.take w.copied), w.closing, false⟩
  | .ok =>
    match w.sync with
    | .dies => ⟨d.write tmp body, .died, false⟩
    | .fails => ⟨d.write tmp body, w.closing, false⟩
    | .ok =>
      match w.close with
      | .dies => ⟨d.write tmp body, .died, false⟩
      | .fails => ⟨d.write tmp body, .error, false⟩
      | .ok =>
        match w.rename.attempt ((d.write tmp body).rename tmp dst) with
        | .error r => ⟨d.write tmp body, r, false⟩
        | .ok d' => ⟨d', .ok, true⟩

/-- The deferred clean-up: its error is dropped, and a process that died runs none. -/
def deferred (w : Weather) (tmp : FilePath) (o : Outcome) : Outcome :=
  if o.result = .died then o
  else
    match w.remove with
    | .dies => { o with result := .died }
    | .fails => o
    | .ok => { o with disk := (o.disk.remove tmp).1 }

namespace FSStore

/-- `FSStore.Put`. -/
def put (s : FSStore) (w : Weather) (id : Name) (body : Bytes) (d : Disk) : Outcome :=
  match path s.root id with
  | none => ⟨d, .error, false⟩
  | some dst =>
    match w.mkdir.attempt (d.mkdirAll (parse (dir dst))) with
    | .error r => ⟨d, r, false⟩
    | .ok d₁ =>
      match w.create.attempt (d₁.create (tempIn (parse (dir dst)) id w.random)) with
      | .error r => ⟨d₁, r, false⟩
      | .ok d₂ =>
        deferred w (tempIn (parse (dir dst)) id w.random)
          (fill w (tempIn (parse (dir dst)) id w.random) (parse dst) body d₂)

/-- `FSStore.Get`, read to its end; none is the error. -/
def get (s : FSStore) (id : Name) (d : Disk) : Option Bytes :=
  match path s.root id with
  | none => none
  | some p => d.read (parse p)

/-- `FSStore.Delete`; false is the error. -/
def delete (s : FSStore) (id : Name) (d : Disk) : Disk × Bool :=
  match path s.root id with
  | none => (d, false)
  | some p =>
    match d.remove (parse p) with
    | (d', .done) => (d', true)
    | (d', .absent) => (d', true)
    | (d', .failed) => (d', false)

/-- `lost+found` -/
def lostFound : Name := [108, 111, 115, 116, 43, 102, 111, 117, 110, 100]

/-- The name under which the root is known to the walk. -/
def base (t : Name) : Name := (t.rdropWhile (· = slash)).rtakeWhile (· ≠ slash)

/-- `FSStore.Walk`: the names of the files, without what lies in a `lost+found`; the root is a
    directory like the others. -/
def walk (s : FSStore) (d : Disk) : List Name :=
  if base s.root = lostFound then [] else d.walk (parse s.root) (· = lostFound)

end FSStore

/-! ## Where bodies and temporary files lie -/

variable {s : FSStore} {id id' : Name} {p q : FilePath} {d : Disk} {w : Weather} {body : Bytes}

/-- A temporary file of an id. -/
def FSStore.temp (s : FSStore) (id : Name) (random : Nat) : FilePath :=
  tempIn ⟨(parse s.root).rooted, place s.root id⟩ id random

theorem location_spec (h : s.location id = some p) :
    Accepted id ∧ p = ⟨(parse s.root).rooted, place s.root id ++ [id]⟩ := by
  unfold FSStore.location at h
  obtain ⟨t, ht, rfl⟩ := Option.map_eq_some_iff.mp h
  exact ⟨(accepted_of_path ht).1, parse_path ht⟩

theorem location_inj (h : s.location id = some p) (h' : s.location id' = some p) : id = id' := by
  obtain ⟨-, hp⟩ := location_spec h
  obtain ⟨-, hp'⟩ := location_spec h'
  have hnames : place s.root id ++ [id] = place s.root id' ++ [id'] :=
    congrArg FilePath.names (hp.symm.trans hp')
  obtain ⟨-, hlast⟩ := List.append_inj' hnames rfl
  exact (List.cons.inj hlast).1

theorem get_eq (h : s.location id = some p) (d : Disk) : s.get id d = d.read p := by
  unfold FSStore.location at h
  obtain ⟨t, ht, rfl⟩ := Option.map_eq_some_iff.mp h
  unfold FSStore.get
  rw [ht]

theorem temp_ne_location {random : Nat} (h : s.location id' = some p)
    (hne : id' ≠ tempName id random) : p ≠ s.temp id random := by
  rintro rfl
  obtain ⟨-, hp⟩ := location_spec h
  have hnames : place s.root id ++ [tempName id random] = place s.root id' ++ [id'] :=
    congrArg FilePath.names hp
  obtain ⟨-, hlast⟩ := List.append_inj' hnames rfl
  exact hne (List.cons.inj hlast).1.symm

theorem tempName_ne (id : Name) (random : Nat) : id ≠ tempName id random := by
  intro heq
  have hlen := congrArg List.length heq
  unfold tempName at hlen
  rw [List.length_append, List.length_append, List.length_cons] at hlen
  omega

/-! ## What a `Put` does -/

theorem Fate.attempt_ok {f : Fate} {x : Option Disk} {d' : Disk} (h : f.attempt x = .ok d') :
    x = some d' := by
  match f, x, h with
  | .ok, some d, h => exact congrArg some (Except.ok.inj h)

theorem Fate.attempt_error {f : Fate} {x : Option Disk} {r : Result} (h : f.attempt x = .error r) :
    r = .error ∨ r = .died := by
  match f, x, h with
  | .dies, _, h => exact .inr (Except.error.inj h).symm
  | .ok, none, h => exact .inl (Except.error.inj h).symm
  | .fails, _, h => exact .inl (Except.error.inj h).symm

theorem Weather.closing_cases (w : Weather) : w.closing = .error ∨ w.closing = .died := by
  unfold Weather.closing
  split_ifs
  · exact .inr rfl
  · exact .inl rfl

/-- **What `Put` has made of the temporary file when its clean-up is due**: the file has a beginning
    of the body and there was no success, or it has been renamed. -/
theorem fill_spec (w : Weather) (tmp dst : FilePath) (body : Bytes) (d : Disk) :
    (∃ k, fill w tmp dst body d = ⟨d.write tmp (body.take k), .error, false⟩ ∨
      fill w tmp dst body d = ⟨d.write tmp (body.take k), .died, false⟩) ∨
    ∃ d', (d.write tmp body).rename tmp dst = some d' ∧
      fill w tmp dst body d = ⟨d', .ok, true⟩ := by
  have hall : body = body.take body.length := (List.take_length).symm
  unfold fill
  match w.copy with
  | .dies => exact .inl ⟨w.copied, .inr rfl⟩
  | .fails =>
    rcases w.closing_cases with h | h
    · exact .inl ⟨w.copied, .inl (by rw [h])⟩
    · exact .inl ⟨w.copied, .inr (by rw [h])⟩
  | .ok =>
    match w.sync with
    | .dies => exact .inl ⟨body.length, .inr (by rw [← hall])⟩
    | .fails =>
      rcases w.closing_cases with h | h
      · exact .inl ⟨body.length, .inl (by rw [← hall, h])⟩
      · exact .inl ⟨body.length, .inr (by rw [← hall, h])⟩
    | .ok =>
      match w.close with
      | .dies => exact .inl ⟨body.length, .inr (by rw [← hall])⟩
      | .fails => exact .inl ⟨body.length, .inl (by rw [← hall])⟩
      | .ok =>
        dsimp only
        match hr : w.rename.attempt ((d.write tmp body).rename tmp dst) with
        | .error r =>
          rcases Fate.attempt_error hr with rfl | rfl
          · exact .inl ⟨body.length, .inl (by rw [← hall])⟩
          · exact .inl ⟨body.length, .inr (by rw [← hall])⟩
        | .ok d' => exact .inr ⟨d', Fate.attempt_ok hr, rfl⟩

/-- What comes of a `Put`, by what can be read after it. -/
inductive Put (s : FSStore) (w : Weather) (id : Name) (body : Bytes) (d : Disk) : Outcome → Prop where
  /-- Nothing. -/
  | nothing {o : Outcome} (hren : o.renamed = false) (hres : o.result ≠ .ok)
      (hread : ∀ q, o.disk.read q = d.read q) : Put s w id body d o
  /-- The body is in its place, also if the process died before the clean-up. -/
  | stored {o : Outcome} {p : FilePath} (hp : s.location id = some p) (hren : o.renamed = true)
      (hres : o.result ≠ .error) (hbody : o.disk.read p = some body)
      (hread : ∀ q, q ≠ p → o.disk.read q = d.read q) : Put s w id body d o
  /-- A temporary file is left. -/
  | left {o : Outcome} (hfree : d.read (s.temp id w.random) = none)
      (hren : o.renamed = false)
      (hres : o.result = .died ∨ o.result = .error ∧ w.remove = .fails) {k : Nat}
      (htemp : o.disk.read (s.temp id w.random) = some (body.take k))
      (hread : ∀ q, q ≠ s.temp id w.random → o.disk.read q = d.read q) : Put s w id body d o

theorem deferred_cases (w : Weather) (tmp : FilePath) (o : Outcome) :
    deferred w tmp o = o ∧ (o.result = .died ∨ w.remove = .fails) ∨
      deferred w tmp o = { o with result := .died } ∧ w.remove = .dies ∨
        deferred w tmp o = { o with disk := (o.disk.remove tmp).1 } ∧ w.remove = .ok := by
  unfold deferred
  split_ifs with hdied
  · exact .inl ⟨rfl, .inl hdied⟩
  · match w.remove with
    | .dies => exact .inr (.inl ⟨rfl, rfl⟩)
    | .fails => exact .inl ⟨rfl, .inr rfl⟩
    | .ok => exact .inr (.inr ⟨rfl, rfl⟩)

/-- **The clean-up does no harm to a body that has been renamed, and removes what has not.** -/
theorem deferred_spec {d₁ : Disk} (hp : s.location id = some p)
    (hfree : d.read (s.temp id w.random) = none) (hread : ∀ q, d₁.read q = d.read q) :
    Put s w id body d (deferred w (s.temp id w.random)
      (fill w (s.temp id w.random) p body (d₁.write (s.temp id w.random) []))) := by
  have hne : s.temp id w.random ≠ p := (temp_ne_location hp (tempName_ne id w.random)).symm
  rcases fill_spec w (s.temp id w.random) p body (d₁.write (s.temp id w.random) []) with
    ⟨k, hfill⟩ | ⟨d', hrename, hfill⟩
  · -- The file has a beginning of the body.
    have hshort : ∃ r, r ≠ Result.ok ∧ fill w (s.temp id w.random) p body
        (d₁.write (s.temp id w.random) []) =
          ⟨d₁.write (s.temp id w.random) (body.take k), r, false⟩ ∧ (r = .died ∨ r = .error) := by
      rw [Disk.write_write] at hfill
      rcases hfill with hfill | hfill
      · exact ⟨.error, Result.noConfusion, hfill, .inr rfl⟩
      · exact ⟨.died, Result.noConfusion, hfill, .inl rfl⟩
    obtain ⟨r, hr, hfill, hcases⟩ := hshort
    have hleft : ∀ {r' : Result}, (r' = .died ∨ r' = .error ∧ w.remove = .fails) →
        Put s w id body d ⟨d₁.write (s.temp id w.random) (body.take k), r', false⟩ := by
      intro r' hr'
      refine .left hfree rfl hr' Disk.read_write_self ?_
      exact fun q hq => (Disk.read_write_ne hq).trans (hread q)
    rw [hfill]
    rcases deferred_cases w (s.temp id w.random)
      ⟨d₁.write (s.temp id w.random) (body.take k), r, false⟩ with
      ⟨heq, hwhy⟩ | ⟨heq, -⟩ | ⟨heq, -⟩
    · rw [heq]
      apply hleft
      rcases hwhy with hdied | hfails
      · exact .inl hdied
      · exact hcases.imp_right fun he => ⟨he, hfails⟩
    · rw [heq]
      exact hleft (.inl rfl)
    · rw [heq]
      refine .nothing rfl hr fun q => ?_
      by_cases hq : q = s.temp id w.random
      · rw [hq]
        exact Disk.read_remove_self.trans hfree.symm
      · exact (Disk.read_remove_ne hq).trans ((Disk.read_write_ne hq).trans (hread q))
  · -- The file has been renamed, and its name is free again.
    obtain ⟨b, hb, hdst, hsrc, hrest⟩ := Disk.rename_spec hrename
    rw [Disk.write_write, Disk.read_write_self] at hb
    obtain rfl : body = b := Option.some.inj hb
    have hsame : ∀ q, q ≠ p → d'.read q = d.read q := by
      intro q hq
      by_cases hqt : q = s.temp id w.random
      · rw [hqt, hsrc hne, hfree]
      · rw [hrest q hq hqt, Disk.write_write, Disk.read_write_ne hqt, hread q]
    rw [hfill]
    rcases deferred_cases w (s.temp id w.random) ⟨d', .ok, true⟩ with
      ⟨heq, -⟩ | ⟨heq, -⟩ | ⟨heq, -⟩
    · rw [heq]
      exact .stored hp rfl Result.noConfusion hdst hsame
    · rw [heq]
      exact .stored hp rfl Result.noConfusion hdst hsame
    · rw [heq]
      refine .stored hp rfl Result.noConfusion ?_ fun q hq => ?_
      · exact (Disk.read_remove_ne hne.symm).trans hdst
      · by_cases hqt : q = s.temp id w.random
        · rw [hqt]
          exact Disk.read_remove_self.trans hfree.symm
        · exact (Disk.read_remove_ne hqt).trans (hsame q hq)

/-- **What comes of a `Put`, whatever becomes of its operations.** -/
theorem put_spec (s : FSStore) (w : Weather) (id : Name) (body : Bytes) (d : Disk) :
    Put s w id body d (s.put w id body d) := by
  unfold FSStore.put
  match hpath : path s.root id with
  | none => exact .nothing rfl Result.noConfusion fun _ => rfl
  | some t =>
    have hp : s.location id = some (parse t) := by
      unfold FSStore.location
      rw [hpath]
      rfl
    have htemp : tempIn (parse (dir t)) id w.random = s.temp id w.random := by
      rw [parse_dir_path hpath]
      rfl
    have hbad : ∀ {r : Result} {d' : Disk}, (r = .error ∨ r = .died) → d'.files = d.files →
        Put s w id body d ⟨d', r, false⟩ := by
      intro r d' hr hfiles
      refine .nothing rfl ?_ fun q => ?_
      · rcases hr with rfl | rfl <;> exact Result.noConfusion
      · exact congrArg (AList.lookup q) hfiles
    dsimp only
    match hmk : w.mkdir.attempt (d.mkdirAll (parse (dir t))) with
    | .error r => exact hbad (Fate.attempt_error hmk) rfl
    | .ok d₁ =>
      have hfiles := Disk.mkdirAll_files (Fate.attempt_ok hmk)
      dsimp only
      rw [htemp]
      match hcr : w.create.attempt (d₁.create (s.temp id w.random)) with
      | .error r => exact hbad (Fate.attempt_error hcr) hfiles
      | .ok d₂ =>
        obtain ⟨hfree, rfl⟩ := Disk.create_spec (Fate.attempt_ok hcr)
        have hread : ∀ q, d₁.read q = d.read q := fun q => congrArg (AList.lookup q) hfiles
        exact deferred_spec hp (by rw [← hread, hfree]) hread

/-- The only directories that a `Put` makes are those on the way to the body. -/
theorem put_dirs (h : q ∈ (s.put w id body d).disk.dirs) :
    q ∈ d.dirs ∨ ∃ ns, ns <+: place s.root id ∧ ⟨(parse s.root).rooted, ns⟩ = q := by
  unfold FSStore.put at h
  match hpath : path s.root id with
  | none =>
    rw [hpath] at h
    exact .inl h
  | some t =>
    rw [hpath] at h
    dsimp only at h
    match hmk : w.mkdir.attempt (d.mkdirAll (parse (dir t))) with
    | .error r =>
      rw [hmk] at h
      exact .inl h
    | .ok d₁ =>
      have hdirs : q ∈ d₁.dirs ↔
          q ∈ d.dirs ∨ ∃ ns, ns <+: place s.root id ∧ ⟨(parse s.root).rooted, ns⟩ = q := by
        rw [Disk.mem_mkdirAll_dirs (Fate.attempt_ok hmk), parse_dir_path hpath]
      rw [hmk] at h
      dsimp only at h
      match hcr : w.create.attempt (d₁.create (tempIn (parse (dir t)) id w.random)) with
      | .error r =>
        rw [hcr] at h
        exact hdirs.mp h
      | .ok d₂ =>
        obtain ⟨-, rfl⟩ := Disk.create_spec (Fate.attempt_ok hcr)
        rw [hcr] at h
        dsimp only at h
        apply hdirs.mp
        generalize tempIn (parse (dir t)) id w.random = tmp at h
        have hfill : (fill w tmp (parse t) body (d₁.write tmp [])).disk.dirs = d₁.dirs := by
          rcases fill_spec w tmp (parse t) body (d₁.write tmp []) with
            ⟨k, hf | hf⟩ | ⟨d', hrename, hf⟩
          · rw [hf]
            rfl
          · rw [hf]
            rfl
          · rw [hf]
            exact (Disk.rename_dirs hrename).trans rfl
        rw [← hfill]
        rcases deferred_cases w tmp (fill w tmp (parse t) body (d₁.write tmp [])) with
          ⟨heq, -⟩ | ⟨heq, -⟩ | ⟨heq, -⟩
        · rwa [heq] at h
        · rwa [heq] at h
        · rw [heq] at h
          exact Disk.remove_dirs h

/-! ## What lies below the root -/

theorem beneath_append {root : FilePath} {ns : List Name} (hns : ns ≠ []) (hup : up ∉ ns) :
    root.beneath ⟨root.rooted, root.names ++ ns⟩ = some ns := by
  have hdrop : (root.names ++ ns).drop root.names.length = ns := List.drop_left
  have hne : root.names ≠ root.names ++ ns := by
    intro heq
    exact hns (List.append_right_eq_self.mp heq.symm)
  unfold FilePath.beneath
  dsimp only
  rw [hdrop, if_pos ⟨rfl, List.prefix_append _ _, hne, hup⟩]

theorem beneath_spec {root : FilePath} {ns : List Name} (h : root.beneath p = some ns) :
    ns ≠ [] ∧ up ∉ ns ∧ p = ⟨root.rooted, root.names ++ ns⟩ := by
  unfold FilePath.beneath at h
  split_ifs at h with hcond
  obtain ⟨hroot, ⟨ms, hms⟩, hne, hup⟩ := hcond
  have hdrop : p.names.drop root.names.length = ms := by
    rw [← hms]
    exact List.drop_left
  rw [hdrop] at h hup
  obtain rfl : ms = ns := Option.some.inj h
  refine ⟨?_, hup, ?_⟩
  · rintro rfl
    exact hne (by rw [← hms, List.append_nil])
  · rw [hms, ← hroot]

end Novamail.Store

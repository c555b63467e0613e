/-
  `internal/store/fsstore.go`, `FSStore.path`: where the body of an id lies.

  The guard looks at the id, and the shard is cut from it afterwards: an id that begins with two dots
  has the directory above the root for its shard.  `stays_inside_iff` says that nothing else leaves
  the root, and that no two ids ever share a file or a directory in which the other is a file.
-/
import Novamail.Core.Paths

namespace Novamail.Store

open Novamail.Core Novamail.Core.Paths

def backslash : UInt8 := 92

/-- The shard of an id: its first two bytes, or all of it. -/
def shard (id : Name) : Name := if id.length ≥ 2 then id.take 2 else id

/-- `FSStore.path`; none is the error. -/
def path (root id : Name) : Option Name :=
  if id = [] ∨ (slash ∈ id ∨ backslash ∈ id) ∨ id = here ∨ id = up then none
  else some (join [root, shard id, id])

/-- What the guard lets through. -/
structure Accepted (id : Name) : Prop where
  ne_nil : id ≠ []
  slash_notMem : slash ∉ id
  ne_here : id ≠ here
  ne_up : id ≠ up

theorem accepted_of_path {root id p : Name} (h : path root id = some p) :
    Accepted id ∧ p = join [root, shard id, id] := by
  unfold path at h
  split_ifs at h with hbad
  obtain ⟨hne, hrest⟩ := not_or.mp hbad
  obtain ⟨hslash, hdots⟩ := not_or.mp hrest
  exact ⟨⟨hne, fun hmem => hslash (.inl hmem), fun h => hdots (.inl h), fun h => hdots (.inr h)⟩,
    (Option.some.inj h).symm⟩

variable {root id id' p p' : Name}

theorem Accepted.plain (h : Accepted id) : Plain id := ⟨h.ne_nil, h.ne_here, h.slash_notMem⟩

theorem Accepted.shard (h : Accepted id) : Plain (shard id) := by
  unfold Store.shard
  split_ifs with hlen
  · refine ⟨?_, ?_, fun hmem => h.slash_notMem (List.mem_of_mem_take hmem)⟩
    · intro hnil
      have htake := congrArg List.length hnil
      rw [List.length_take] at htake
      have hzero : ([] : Name).length = 0 := rfl
      omega
    · intro hhere
      have htake := congrArg List.length hhere
      rw [List.length_take] at htake
      have hone : here.length = 1 := rfl
      omega
  · exact h.plain

/-- The shard is the directory above exactly if the id begins with two dots. -/
theorem Accepted.shard_eq_up (h : Accepted id) : Store.shard id = up ↔ up <+: id := by
  unfold Store.shard
  split_ifs with hlen
  · constructor
    · intro htake
      rw [← htake]
      exact List.take_prefix 2 id
    · intro hpre
      exact (List.prefix_iff_eq_take.mp hpre).symm
  · constructor
    · exact fun heq => absurd heq h.ne_up
    · intro hpre
      have hle := hpre.length_le
      have htwo : up.length = 2 := rfl
      omega

theorem Accepted.three_le (h : Accepted id) (hup : up <+: id) : 3 ≤ id.length := by
  obtain ⟨rest, rfl⟩ := hup
  cases rest with
  | nil => exact absurd (List.append_nil up) h.ne_up
  | cons b rest =>
    rw [List.length_append, List.length_cons]
    have htwo : up.length = 2 := rfl
    omega

theorem shard_length_le (id : Name) : (shard id).length ≤ 2 := by
  unfold shard
  split_ifs with hlen
  · exact (List.length_take_le 2 id)
  · omega

/-- The directory of a body, by its names. -/
def place (root id : Name) : List Name := push (parse root).rooted (parse root).names (shard id)

/-- **The names of a path**: those of the root, the shard resolved behind them, and the id. -/
theorem path_eq (h : path root id = some p) :
    p = FilePath.text ⟨(parse root).rooted, place root id ++ [id]⟩ := by
  obtain ⟨hid, rfl⟩ := accepted_of_path h
  have hshard := hid.shard
  have hpush : push (parse root).rooted (place root id) id = place root id ++ [id] :=
    push_plain hid.plain hid.ne_up
  have hclean : ∀ s : Name, s ≠ [] → parse s = ⟨(parse root).rooted, place root id⟩ →
      clean (s ++ slash :: id) = FilePath.text ⟨(parse root).rooted, place root id ++ [id]⟩ := by
    intro s hs hparse
    unfold clean
    rw [parse_concat hs hid.slash_notMem, hparse, hpush]
  by_cases hroot : root = []
  · subst hroot
    have hdrop : [[], shard id, id].dropWhile (· = ([] : Name)) = [shard id, id] := by
      rw [List.dropWhile_cons_of_pos (by simp),
        List.dropWhile_cons_of_neg (by simpa using hshard.ne_nil)]
    unfold join
    rw [hdrop]
    show clean ([slash].intercalate [shard id, id]) = _
    rw [intercalate_more, intercalate_one]
    exact hclean _ hshard.ne_nil (parse_name hshard.slash_notMem)
  · have hdrop : [root, shard id, id].dropWhile (· = ([] : Name)) = [root, shard id, id] :=
      List.dropWhile_cons_of_neg (by simpa using hroot)
    unfold join
    rw [hdrop]
    show clean ([slash].intercalate [root, shard id, id]) = _
    rw [intercalate_more, intercalate_more, intercalate_one]
    have hfront : root ++ slash :: (shard id ++ slash :: id) =
        (root ++ slash :: shard id) ++ slash :: id := by
      rw [List.append_assoc]
      rfl
    rw [hfront]
    refine hclean _ (by simp) ?_
    exact parse_concat hroot hshard.slash_notMem

theorem place_normal (h : Accepted id) :
    (FilePath.mk (parse root).rooted (place root id ++ [id])).Normal := by
  have hplace : (FilePath.mk (parse root).rooted (place root id)).Normal :=
    (parse_normal root).push h.shard.slash_notMem
  have hnormal := hplace.push h.slash_notMem
  rwa [push_plain h.plain h.ne_up] at hnormal

theorem parse_path (h : path root id = some p) :
    parse p = ⟨(parse root).rooted, place root id ++ [id]⟩ := by
  rw [path_eq h]
  exact parse_text (place_normal (accepted_of_path h).1)

theorem parse_dir_path (h : path root id = some p) :
    parse (dir p) = ⟨(parse root).rooted, place root id⟩ := by
  rw [path_eq h]
  exact parse_dir (place_normal (accepted_of_path h).1)

/-! ## Inside the root -/

/-- What the shard makes of the names of the root: one more, or the last one less. -/
theorem place_cases (h : Accepted id) :
    (¬ up <+: id ∧ place root id = (parse root).names ++ [shard id]) ∨
      (up <+: id ∧
        ((parse root = ⟨true, []⟩ ∧ place root id = []) ∨
          place root id = (parse root).names ++ [up] ∨
            ((parse root).names ≠ [] ∧ place root id = (parse root).names.dropLast))) := by
  by_cases hup : up <+: id
  · refine .inr ⟨hup, ?_⟩
    unfold place
    rw [h.shard_eq_up.mpr hup, push_up]
    split_ifs with hlast hroot
    · -- A rooted path has no `..` left, so it is the root.
      have hnormal := parse_normal root
      obtain ⟨k, ns, hns, hmem, hk⟩ := hnormal.front
      have hnil : (parse root).names = [] := by
        rcases hlast with hnil | hlast
        · exact hnil
        · rw [hk hroot, List.replicate_zero, List.nil_append] at hns
          exact absurd (List.mem_of_getLast? (hns ▸ hlast)) hmem
      refine .inl ⟨?_, hnil⟩
      show FilePath.mk (parse root).rooted (parse root).names = _
      rw [hroot, hnil]
    · exact .inr (.inl rfl)
    · exact .inr (.inr ⟨(not_or.mp hlast).1, rfl⟩)
  · have hne : shard id ≠ up := fun heq => hup (h.shard_eq_up.mp heq)
    exact .inl ⟨hup, push_plain h.shard hne⟩

/-- **A path is strictly below the root unless its id begins with two dots**, and then only if the
    root is the root of the file system. -/
theorem below_iff (h : path root id = some p) :
    Below p root ↔ ¬ up <+: id ∨ parse root = ⟨true, []⟩ := by
  have hid := (accepted_of_path h).1
  have hparse := parse_path h
  rcases @place_cases root id hid with ⟨hup, hplace⟩ | ⟨hup, hcases⟩
  · refine iff_of_true ⟨[shard id, id], List.cons_ne_nil _ _, ?_, ?_, ?_⟩ (.inl hup)
    · intro hmem
      rcases List.mem_cons.mp hmem with heq | hmem
      · exact hup (hid.shard_eq_up.mp heq.symm)
      · exact hid.ne_up (List.mem_singleton.mp hmem).symm
    · rw [hparse]
    · rw [hparse, hplace, List.append_assoc]
      rfl
  · have hnot : ¬ ¬ up <+: id := not_not_intro hup
    rw [or_iff_right hnot]
    rcases hcases with ⟨hroot, hplace⟩ | hplace | ⟨hne, hplace⟩
    · refine iff_of_true ⟨[id], List.cons_ne_nil _ _, ?_, ?_, ?_⟩ hroot
      · intro hmem
        exact hid.ne_up (List.mem_singleton.mp hmem).symm
      · rw [hparse]
      · rw [hparse, hplace, hroot]
    · refine iff_of_false ?_ ?_
      · rintro ⟨ns, -, hmem, -, hnames⟩
        rw [hparse, hplace, List.append_assoc] at hnames
        rw [← List.append_cancel_left hnames] at hmem
        simp at hmem
      · intro hroot
        have hnormal := @place_normal root id hid
        obtain ⟨k, ns, hns, hmem, hk⟩ := hnormal.front
        have hzero : k = 0 := hk (by rw [hroot])
        rw [hzero, hplace] at hns
        apply hmem
        have hsame : (parse root).names ++ [up] ++ [id] = ns := hns
        rw [← hsame]
        simp
    · refine iff_of_false ?_ ?_
      · rintro ⟨ns, hns, -, -, hnames⟩
        have hlen := congrArg List.length hnames
        rw [hparse, hplace, List.length_append, List.length_append, List.length_dropLast] at hlen
        have hpos := List.length_pos_iff.mpr hns
        have hpos' := List.length_pos_iff.mpr hne
        have hone : [id].length = 1 := rfl
        omega
      · intro hroot
        rw [hroot] at hne
        exact hne rfl

theorem place_length (root : Name) (h : Accepted id) :
    (place root id).length = (parse root).names.length + 1 ∨
      (place root id).length + 1 = (parse root).names.length ∨
        (up <+: id ∧ parse root = ⟨true, []⟩ ∧ place root id = []) := by
  rcases @place_cases root id h with
    ⟨-, hplace⟩ | ⟨hup, ⟨hroot, hplace⟩ | hplace | ⟨hne, hplace⟩⟩
  · rw [hplace]
    exact .inl List.length_append
  · exact .inr (.inr ⟨hup, hroot, hplace⟩)
  · rw [hplace]
    exact .inl List.length_append
  · have hpos := List.length_pos_iff.mpr hne
    rw [hplace, List.length_dropLast]
    omega

/-- **Two ids have two paths**, -/
theorem path_inj (h : path root id = some p) (h' : path root id' = some p) : id = id' := by
  have hnames : place root id ++ [id] = place root id' ++ [id'] :=
    congrArg FilePath.names ((parse_path h).symm.trans (parse_path h'))
  obtain ⟨-, hlast⟩ := List.append_inj' hnames rfl
  exact (List.cons.inj hlast).1

/-- **and no path is a directory in which another lies.** -/
theorem path_ne_dir (h : path root id = some p) (h' : path root id' = some p') : p ≠ dir p' := by
  intro heq
  have hid := (accepted_of_path h).1
  have hid' := (accepted_of_path h').1
  have hsame : FilePath.mk (parse root).rooted (place root id ++ [id]) =
      ⟨(parse root).rooted, place root id'⟩ := by
    rw [← parse_path h, ← parse_dir_path h', heq]
  have hnames : place root id ++ [id] = place root id' := congrArg FilePath.names hsame
  have hlen : (place root id).length + 1 = (place root id').length := by
    rw [← hnames, List.length_append, List.length_singleton]
  have hlen' := place_length root hid'
  rcases place_length root hid with hl | hl | ⟨hup, hroot, hnil⟩
  · rcases hlen' with hl' | hl' | ⟨-, -, hnil'⟩
    · omega
    · omega
    · rw [hnil'] at hlen
      cases hlen
  · rcases hlen' with hl' | hl' | ⟨-, -, hnil'⟩
    · omega
    · omega
    · rw [hnil'] at hlen
      cases hlen
  · -- At the root of the file system an id of this kind has three bytes, and a shard has two.
    rw [hnil] at hnames
    have hone : place root id' = [id] := hnames.symm
    rcases @place_cases root id' hid' with ⟨-, hp⟩ | ⟨-, ⟨-, hp⟩ | hp | ⟨hne, -⟩⟩
    · rw [hroot] at hp
      have hshard : id = shard id' := (List.cons.inj (hone.symm.trans hp)).1
      have hlong := hid.three_le hup
      have hshort := shard_length_le id'
      rw [← hshard] at hshort
      omega
    · rw [hone] at hp
      cases hp
    · rw [hroot] at hp
      exact hid.ne_up (List.cons.inj (hone.symm.trans hp)).1
    · rw [hroot] at hne
      exact hne rfl

/-- **Bodies stay inside the store exactly if the id does not begin with two dots**, or the root is
    that of the file system: the path is strictly below the root, it is that of no other id, and it
    is not the directory of one. -/
theorem stays_inside_iff (h : path root id = some p) :
    (Below p root ∧ ∀ id' p', id' ≠ id → path root id' = some p' → p ≠ p' ∧ p ≠ dir p') ↔
      ¬ up <+: id ∨ parse root = ⟨true, []⟩ := by
  rw [← below_iff h]
  refine and_iff_left ?_
  intro id' p' hne h'
  refine ⟨?_, path_ne_dir h h'⟩
  rintro rfl
  exact hne (path_inj h' h)

theorem stays_inside_test :
    (Below "/data/ab/abc".toUTF8.toList "/data".toUTF8.toList ∧
      ∀ id' p', id' ≠ "abc".toUTF8.toList → path "/data".toUTF8.toList id' = some p' →
        "/data/ab/abc".toUTF8.toList ≠ p' ∧ "/data/ab/abc".toUTF8.toList ≠ dir p') ↔
      ¬ up <+: "abc".toUTF8.toList ∨ parse "/data".toUTF8.toList = ⟨true, []⟩ :=
  stays_inside_iff (by decide +kernel)

/-- The guard looks for `..` as a whole: an id that goes on behind the dots lies beside the root. -/
theorem beside_the_root :
    path "/data".toUTF8.toList "..x".toUTF8.toList = some "/..x".toUTF8.toList ∧
      ¬ Below "/..x".toUTF8.toList "/data".toUTF8.toList := by
  refine ⟨by decide +kernel, ?_⟩
  have hpath : path "/data".toUTF8.toList "..x".toUTF8.toList = some "/..x".toUTF8.toList := by
    decide +kernel
  rw [below_iff hpath]
  decide +kernel

end Novamail.Store

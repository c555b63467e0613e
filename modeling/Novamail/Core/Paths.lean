/-
  Lexical processing of slash-separated paths.

  A path is its names, with those that mean nothing left out and each `..` resolved against the name
  before it (`parse`), and it is written in one way only (`FilePath.text`): reading what was written
  gives the path again (`parse_text`).  Nothing here looks at a file system.
-/
import Mathlib.Data.List.DropRight
import Novamail.Core.Words

namespace Novamail.Core.Paths

/-- A name, or the text of a path, by bytes. -/
abbrev Name := List UInt8

def slash : UInt8 := 47
def dot : UInt8 := 46

/-- The name of the directory itself. -/
def here : Name := [dot]

/-- The name of the directory above. -/
def up : Name := [dot, dot]

/-- A path: whether it begins at the root, and its names. -/
structure FilePath where
  rooted : Bool
  names : List Name
deriving DecidableEq, Repr

/-! ## Reading and writing -/

/-- One name more.  There is nothing above the root, and above the names of a path that is not
    rooted there is what only `..` can name. -/
def push (rooted : Bool) (ns : List Name) (n : Name) : List Name :=
  if n = [] ∨ n = here then ns
  else if n = up then
    if ns = [] ∨ ns.getLast? = some up then if rooted then ns else ns ++ [up]
    else ns.dropLast
  else ns ++ [n]

def isRooted (t : Name) : Bool := t.head? = some slash

/-- The path that a text stands for. -/
def parse (t : Name) : FilePath :=
  ⟨isRooted t, (t.splitOn slash).foldl (push (isRooted t)) []⟩

/-- The shortest text of a path. -/
def FilePath.text (p : FilePath) : Name :=
  if p.rooted then slash :: [slash].intercalate p.names
  else if p.names = [] then here
  else [slash].intercalate p.names

/-- `filepath.Clean`. -/
def clean (t : Name) : Name := (parse t).text

/-- `filepath.Join`: what is empty in front is left out. -/
def join (ts : List Name) : Name :=
  match ts.dropWhile (· = []) with
  | [] => []
  | rest => clean ([slash].intercalate rest)

/-- `filepath.Dir`: all but the last name. -/
def dir (t : Name) : Name := clean (t.rdropWhile (· ≠ slash))

/-- The text is that of a path strictly below the other. -/
def Below (t root : Name) : Prop :=
  ∃ ns ≠ [], up ∉ ns ∧ (parse t).rooted = (parse root).rooted ∧
    (parse t).names = (parse root).names ++ ns

/-! ## Names that stay -/

/-- A name that is not resolved. -/
structure Plain (n : Name) : Prop where
  ne_nil : n ≠ []
  ne_here : n ≠ here
  slash_notMem : slash ∉ n

/-- A path in which all is resolved. -/
structure FilePath.Normal (p : FilePath) : Prop where
  plain : ∀ n ∈ p.names, Plain n
  /-- What is left of the `..` stands in front, and nowhere in a rooted path. -/
  front : ∃ k ns, p.names = List.replicate k up ++ ns ∧ up ∉ ns ∧ (p.rooted = true → k = 0)

theorem plain_up : Plain up := ⟨by decide, by decide, by decide⟩

variable {rooted : Bool} {ns : List Name} {n : Name}

theorem push_plain (h : Plain n) (hup : n ≠ up) : push rooted ns n = ns ++ [n] := by
  unfold push
  rw [if_neg (not_or.mpr ⟨h.ne_nil, h.ne_here⟩), if_neg hup]

theorem push_up : push rooted ns up =
    if ns = [] ∨ ns.getLast? = some up then if rooted then ns else ns ++ [up] else ns.dropLast := by
  unfold push
  rw [if_neg (by decide), if_pos rfl]

/-- The step of reading keeps a path normal. -/
theorem FilePath.Normal.push (h : (FilePath.mk rooted ns).Normal) (hn : slash ∉ n) :
    (FilePath.mk rooted (push rooted ns n)).Normal := by
  obtain ⟨hplain, k, ms, hns, hup, hk⟩ := h
  dsimp only at hplain hns hk
  by_cases hskip : n = [] ∨ n = here
  · have hstay : Paths.push rooted ns n = ns := if_pos hskip
    rw [hstay]
    exact ⟨hplain, k, ms, hns, hup, hk⟩
  · obtain ⟨hne, hhere⟩ := not_or.mp hskip
    by_cases hnup : n = up
    · subst hnup
      rw [push_up]
      split_ifs with hlast hroot
      · exact ⟨hplain, k, ms, hns, hup, hk⟩
      · refine ⟨?_, k + 1, [], ?_, List.not_mem_nil, fun h => absurd h hroot⟩
        · intro n hmem
          rcases List.mem_append.mp hmem with hmem | hmem
          · exact hplain n hmem
          · rw [List.mem_singleton.mp hmem]
            exact plain_up
        · -- The last name is one of the `..` in front, so there is no other name.
          have hms : ms = [] := by
            rcases List.eq_nil_or_concat' ms with hnil | ⟨ms', m, rfl⟩
            · exact hnil
            · exfalso
              rcases hlast with hnil | hlast
              · rw [hnil] at hns
                simp at hns
              · rw [hns, ← List.append_assoc, List.getLast?_concat] at hlast
                rw [Option.some.inj hlast] at hup
                simp at hup
          show ns ++ [up] = _
          rw [hns, hms, List.append_nil, List.append_nil, ← List.replicate_succ']
      · obtain ⟨hnil, hlast'⟩ := not_or.mp hlast
        refine ⟨fun n hmem => hplain n (List.dropLast_subset _ hmem), k, ms.dropLast, ?_,
          fun hmem => hup (List.dropLast_subset _ hmem), hk⟩
        have hms : ms ≠ [] := by
          rintro rfl
          rw [List.append_nil] at hns
          cases k with
          | zero => exact hnil hns
          | succ k =>
            rw [List.replicate_succ'] at hns
            rw [hns, List.getLast?_concat] at hlast'
            exact hlast' rfl
        show ns.dropLast = _
        rw [hns, List.dropLast_append_of_ne_nil hms]
    · have hplain' : Plain n := ⟨hne, hhere, hn⟩
      rw [push_plain hplain' hnup]
      refine ⟨?_, k, ms ++ [n], by rw [← List.append_assoc, ← hns], ?_, hk⟩
      · intro m hmem
        rcases List.mem_append.mp hmem with hmem | hmem
        · exact hplain m hmem
        · rw [List.mem_singleton.mp hmem]
          exact hplain'
      · intro hmem
        rcases List.mem_append.mp hmem with hmem | hmem
        · exact hup hmem
        · exact hnup (List.mem_singleton.mp hmem).symm

theorem FilePath.Normal.foldl {cs : List Name} (h : (FilePath.mk rooted ns).Normal)
    (hcs : ∀ c ∈ cs, slash ∉ c) : (FilePath.mk rooted (cs.foldl (Paths.push rooted) ns)).Normal := by
  induction cs generalizing ns with
  | nil => exact h
  | cons c cs ih =>
    obtain ⟨hc, hrest⟩ := List.forall_mem_cons.mp hcs
    exact ih (h.push hc) hrest

theorem slash_notMem_splitOn (t : Name) : ∀ c ∈ t.splitOn slash, slash ∉ c := by
  induction t with
  | nil =>
    intro c hc
    rw [List.splitOn_nil] at hc
    rw [List.mem_singleton.mp hc]
    exact List.not_mem_nil
  | cons b t ih =>
    intro c hc
    by_cases hb : b = slash
    · subst hb
      have hsplit : (slash :: t).splitOn slash = [].splitOn slash ++ t.splitOn slash :=
        List.splitOn_append_cons_self [] t
      rw [hsplit, List.splitOn_nil] at hc
      rcases List.mem_append.mp hc with hc | hc
      · rw [List.mem_singleton.mp hc]
        exact List.not_mem_nil
      · exact ih c hc
    · rw [List.splitOn_cons_eq_if_modifyHead, if_neg (by simpa using hb)] at hc
      match hws : t.splitOn slash with
      | [] => exact absurd hws (List.splitOn_ne_nil slash t)
      | w :: ws =>
        rw [hws] at hc ih
        rcases List.mem_cons.mp hc with rfl | hc
        · intro hmem
          rcases List.mem_cons.mp hmem with h | h
          · exact hb h.symm
          · exact ih w List.mem_cons_self h
        · exact ih c (List.mem_cons_of_mem _ hc)

theorem parse_normal (t : Name) : (parse t).Normal := by
  have hempty : (FilePath.mk (isRooted t) []).Normal :=
    ⟨fun n hn => absurd hn List.not_mem_nil, 0, [], rfl, List.not_mem_nil, fun _ => rfl⟩
  exact hempty.foldl (slash_notMem_splitOn t)

/-- **What follows a slash is read on from what is before it.** -/
theorem parse_append {s : Name} (hs : s ≠ []) (t : Name) :
    parse (s ++ slash :: t) =
      ⟨(parse s).rooted, (t.splitOn slash).foldl (push (parse s).rooted) (parse s).names⟩ := by
  have hroot : isRooted (s ++ slash :: t) = isRooted s := by
    obtain ⟨b, s', rfl⟩ := List.exists_cons_of_ne_nil hs
    rfl
  unfold parse
  rw [hroot, List.splitOn_append_cons_self, List.foldl_append]

/-- One more name behind a text. -/
theorem parse_concat {s : Name} (hs : s ≠ []) (hn : slash ∉ n) :
    parse (s ++ slash :: n) = ⟨(parse s).rooted, push (parse s).rooted (parse s).names n⟩ := by
  rw [parse_append hs, List.splitOn_eq_singleton hn]
  rfl

/-- A text without a slash is one name. -/
theorem parse_name (hn : slash ∉ n) : parse n = ⟨false, push false [] n⟩ := by
  have hroot : isRooted n = false := by
    refine decide_eq_false ?_
    intro hhead
    exact hn (List.mem_of_mem_head? hhead)
  unfold parse
  rw [hroot, List.splitOn_eq_singleton hn]
  rfl

/-! ## Reading what was written -/

theorem foldl_plain {k : Nat} (hk : rooted = true → k = 0) (hup : up ∉ ns)
    (hns : ∀ n ∈ ns, Plain n) :
    (List.replicate k up ++ ns).foldl (push rooted) [] = List.replicate k up ++ ns := by
  have hups : ∀ j, (List.replicate k up).foldl (push rooted) (List.replicate j up) =
      List.replicate (j + k) up := by
    intro j
    induction k generalizing j with
    | zero => rfl
    | succ k ih =>
      have hloose : ¬ rooted = true := fun h => absurd (hk h) (Nat.succ_ne_zero k)
      have hlast : List.replicate j up = [] ∨ (List.replicate j up).getLast? = some up := by
        cases j with
        | zero => exact .inl rfl
        | succ j =>
          rw [List.replicate_succ', List.getLast?_concat]
          exact .inr rfl
      rw [List.replicate_succ, List.foldl_cons, push_up, if_pos hlast, if_neg hloose,
        ← List.replicate_succ', ih (fun h => absurd h hloose)]
      congr 1
      omega
  have hrest : ∀ acc : List Name, ns.foldl (push rooted) acc = acc ++ ns := by
    induction ns with
    | nil => intro acc; exact (List.append_nil acc).symm
    | cons n ns ih =>
      intro acc
      obtain ⟨hn, hrest⟩ := List.forall_mem_cons.mp hns
      have hne : n ≠ up := fun h => hup (h ▸ List.mem_cons_self)
      rw [List.foldl_cons, push_plain hn hne, ih (fun h => hup (List.mem_cons_of_mem _ h)) hrest,
        List.append_assoc]
      rfl
  rw [List.foldl_append]
  have hfront := hups 0
  rw [List.replicate_zero, Nat.zero_add] at hfront
  rw [hfront, hrest]

theorem FilePath.Normal.foldl_names {p : FilePath} (h : p.Normal) :
    p.names.foldl (Paths.push p.rooted) [] = p.names := by
  obtain ⟨k, ns, heq, hup, hk⟩ := h.front
  rw [heq]
  exact foldl_plain hk hup fun n hn => h.plain n (heq ▸ List.mem_append_right _ hn)

theorem splitOn_names {p : FilePath} (h : p.Normal) (hne : p.names ≠ []) :
    ([slash].intercalate p.names).splitOn slash = p.names :=
  List.splitOn_intercalate slash (fun n hn => (h.plain n hn).slash_notMem) hne

/-- **A path is read back from its text.** -/
theorem parse_text {p : FilePath} (h : p.Normal) : parse p.text = p := by
  obtain ⟨rooted, names⟩ := p
  cases rooted with
  | true =>
    have hsplit : ∀ t : Name, (slash :: t).splitOn slash = [] :: t.splitOn slash :=
      fun t => List.splitOn_append_cons_self [] t
    show FilePath.mk true ((List.splitOn slash (slash :: _)).foldl (push true) []) = _
    rw [hsplit, List.foldl_cons]
    have hskip : push true [] [] = [] := rfl
    rw [hskip]
    cases names with
    | nil => rfl
    | cons n ns =>
      rw [splitOn_names h (List.cons_ne_nil n ns)]
      exact congrArg (FilePath.mk true) h.foldl_names
  | false =>
    cases names with
    | nil => decide
    | cons n ns =>
      have htext : FilePath.text ⟨false, n :: ns⟩ = [slash].intercalate (n :: ns) := rfl
      have hroot : isRooted ([slash].intercalate (n :: ns)) = false := by
        have hn := h.plain n List.mem_cons_self
        obtain ⟨b, n', rfl⟩ := List.exists_cons_of_ne_nil hn.ne_nil
        have hb : b ≠ slash := fun hb => hn.slash_notMem (hb ▸ List.mem_cons_self)
        have hhead : ([slash].intercalate ((b :: n') :: ns)).head? = some b := by
          cases ns with
          | nil => rw [intercalate_one]; rfl
          | cons m ms => rw [intercalate_more]; rfl
        unfold isRooted
        rw [hhead]
        exact decide_eq_false (fun h => hb (Option.some.inj h))
      rw [htext]
      unfold parse
      rw [hroot, splitOn_names h (List.cons_ne_nil n ns)]
      exact congrArg (FilePath.mk false) h.foldl_names

theorem parse_clean (t : Name) : parse (clean t) = parse t :=
  parse_text (parse_normal t)

/-! ## The directory of a path -/

theorem FilePath.Normal.of_concat (h : (FilePath.mk rooted (ns ++ [n])).Normal) :
    (FilePath.mk rooted ns).Normal := by
  obtain ⟨k, ms, heq, hup, hk⟩ := h.front
  refine ⟨fun m hm => h.plain m (List.mem_append_left _ hm), ?_⟩
  rcases List.eq_nil_or_concat' ms with rfl | ⟨ms', m, rfl⟩
  · cases k with
    | zero => exact absurd heq (by simp)
    | succ k =>
      have hrep : ns ++ [n] = List.replicate k up ++ [up] := by
        rw [← List.replicate_succ']
        exact heq.trans (List.append_nil _)
      obtain ⟨hns, -⟩ := List.append_inj' hrep rfl
      refine ⟨k, [], hns.trans (List.append_nil _).symm, List.not_mem_nil, ?_⟩
      exact fun hr => absurd (hk hr) (Nat.succ_ne_zero k)
  · have hcut : ns ++ [n] = (List.replicate k up ++ ms') ++ [m] := by
      rw [List.append_assoc]
      exact heq
    obtain ⟨hns, -⟩ := List.append_inj' hcut rfl
    exact ⟨k, ms', hns, fun hmem => hup (List.mem_append_left _ hmem), hk⟩

theorem text_concat (hne : ns ≠ []) :
    FilePath.text ⟨rooted, ns ++ [n]⟩ = FilePath.text ⟨rooted, ns⟩ ++ slash :: n := by
  cases rooted with
  | true =>
    show slash :: [slash].intercalate (ns ++ [n]) = slash :: [slash].intercalate ns ++ slash :: n
    rw [intercalate_concat slash hne]
    rfl
  | false =>
    unfold FilePath.text
    rw [if_neg Bool.false_ne_true, if_neg Bool.false_ne_true, if_neg (by simp), if_neg hne]
    exact intercalate_concat slash hne n

theorem rdropWhile_name (hn : slash ∉ n) (s : Name) :
    (s ++ n).rdropWhile (· ≠ slash) = s.rdropWhile (· ≠ slash) := by
  have hin : ∀ b ∈ n.reverse, decide (b ≠ slash) = true := by
    intro b hb
    exact decide_eq_true (fun h => hn (h ▸ List.mem_reverse.mp hb))
  unfold List.rdropWhile
  rw [List.reverse_append, List.dropWhile_append_of_pos hin]

/-- **The directory is the path without its last name.** -/
theorem parse_dir (h : (FilePath.mk rooted (ns ++ [n])).Normal) :
    parse (dir (FilePath.text ⟨rooted, ns ++ [n]⟩)) = ⟨rooted, ns⟩ := by
  have hn : Plain n := h.plain n (by simp)
  unfold dir
  rw [parse_clean]
  by_cases hne : ns = []
  · subst hne
    cases rooted with
    | true =>
      have htext : FilePath.text ⟨true, [] ++ [n]⟩ = [slash] ++ n := by
        show slash :: [slash].intercalate [n] = slash :: n
        rw [intercalate_one]
      rw [htext, rdropWhile_name hn.slash_notMem]
      decide
    | false =>
      have htext : FilePath.text ⟨false, [] ++ [n]⟩ = [] ++ n := intercalate_one slash n
      rw [htext, rdropWhile_name hn.slash_notMem]
      decide
  · have hnormal := h.of_concat
    have hfront : FilePath.text ⟨rooted, ns⟩ ≠ [] := by
      intro hnil
      have hparse := parse_text hnormal
      rw [hnil] at hparse
      exact hne (congrArg FilePath.names hparse).symm
    have hcut : (FilePath.text ⟨rooted, ns⟩ ++ [slash]).rdropWhile (· ≠ slash) =
        FilePath.text ⟨rooted, ns⟩ ++ [slash] := by
      rw [List.rdropWhile_concat_neg]
      simp
    have hsplit : FilePath.text ⟨rooted, ns⟩ ++ slash :: n =
        (FilePath.text ⟨rooted, ns⟩ ++ [slash]) ++ n := by
      rw [List.append_assoc]
      rfl
    rw [text_concat hne, hsplit, rdropWhile_name hn.slash_notMem, hcut,
      parse_concat hfront List.not_mem_nil, parse_text hnormal]
    rfl

end Novamail.Core.Paths

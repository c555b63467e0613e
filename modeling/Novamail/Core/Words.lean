/-
  The words of a text: what stands between separators, with the empty pieces left out.

  A text is cut wherever a separator stands, so the words of two texts with a separator between
  them are those of the first and those of the second (`words_append`).  Writing words with one
  separator between them and reading them back gives the same words (`words_intercalate`).
-/
import Mathlib.Data.List.DropRight

namespace Novamail.Core

variable {α : Type}

/-- What holds of a list is checked by going through it, not by trying all values of its type. -/
theorem forall_mem_of_all {l : List α} {P : α → Prop} [DecidablePred P]
    (h : l.all (fun a => P a) = true) : ∀ a ∈ l, P a :=
  fun a ha => of_decide_eq_true (List.all_eq_true.mp h a ha)

/-- The longest runs of elements that are no separators. -/
def words (p : α → Bool) (s : List α) : List (List α) := (s.splitOnP p).filter (!·.isEmpty)

variable {p q : α → Bool} {s t w : List α} {c : α}

theorem words_nil : words p [] = [] := rfl

/-- A separator cuts. -/
theorem words_append (s t : List α) (hc : p c = true) :
    words p (s ++ c :: t) = words p s ++ words p t := by
  unfold words
  rw [List.splitOnP_append_cons s t hc, List.filter_append]

theorem words_cons_sep (s : List α) (hc : p c = true) : words p (c :: s) = words p s :=
  (words_append [] s hc).trans (List.nil_append _)

theorem words_concat_sep (s : List α) (hc : p c = true) : words p (s ++ [c]) = words p s :=
  (words_append s [] hc).trans (List.append_nil _)

/-- A text without separators is one word. -/
theorem words_self (hne : w ≠ []) (hw : ∀ c ∈ w, p c = false) : words p w = [w] := by
  unfold words
  rw [List.splitOnP_eq_singleton hw]
  simp [hne]

/-- The first word of a text that begins with it. -/
theorem words_cons_word (hne : w ≠ []) (hw : ∀ c ∈ w, p c = false) (t : List α)
    (ht : ∀ c ∈ t.head?, p c = true) : words p (w ++ t) = w :: words p t := by
  cases t with
  | nil => rw [List.append_nil, words_self hne hw, words_nil]
  | cons c t =>
    have hc : p c = true := ht c rfl
    rw [words_append w t hc, words_self hne hw, words_cons_sep t hc]
    rfl

/-- Every text is blank, or begins with separators and a word that a separator or the end
    follows. -/
theorem exists_first_word (s : List α) : (∀ c ∈ s, p c = true) ∨
    ∃ gap w t, s = gap ++ w ++ t ∧ (∀ c ∈ gap, p c = true) ∧ w ≠ [] ∧ (∀ c ∈ w, p c = false) ∧
      ∀ c ∈ t.head?, p c = true := by
  induction s with
  | nil => exact .inl fun _ h => absurd h List.not_mem_nil
  | cons c s ih =>
    cases hc : p c with
    | true =>
      rcases ih with hblank | ⟨gap, w, t, hs, hgap, hrest⟩
      · exact .inl (List.forall_mem_cons.mpr ⟨hc, hblank⟩)
      · refine .inr ⟨c :: gap, w, t, ?_, List.forall_mem_cons.mpr ⟨hc, hgap⟩, hrest⟩
        rw [hs]
        rfl
    | false =>
      refine .inr ⟨[], c :: s.takeWhile (!p ·), s.dropWhile (!p ·), ?_,
        fun _ h => absurd h List.not_mem_nil, List.cons_ne_nil _ _, ?_, ?_⟩
      · rw [List.nil_append, List.cons_append, List.takeWhile_append_dropWhile]
      · intro d hd
        rcases List.mem_cons.mp hd with rfl | hd
        · exact hc
        · simpa using List.mem_takeWhile_imp hd
      · intro d hd
        have hstop := List.head?_dropWhile_not (!p ·) s
        rw [Option.mem_def.mp hd] at hstop
        simpa using hstop

theorem words_gap (hgap : ∀ c ∈ t, p c = true) (s : List α) : words p (t ++ s) = words p s := by
  induction t with
  | nil => rfl
  | cons c t ih =>
    obtain ⟨hc, ht⟩ := List.forall_mem_cons.mp hgap
    rw [List.cons_append, words_cons_sep _ hc, ih ht]

/-- One more element in front of the first word. -/
theorem words_cons_inside {d : α} (hc : p c = false) (hd : p d = false) (s : List α) :
    ∃ w ws, words p (d :: s) = w :: ws ∧ words p (c :: d :: s) = (c :: w) :: ws := by
  rcases exists_first_word (p := p) (d :: s) with hblank | ⟨gap, w, t, hs, hgap, hne, hw, ht⟩
  · rw [hblank d List.mem_cons_self] at hd
    cases hd
  · cases gap with
    | cons e gap =>
      have he : d = e := (List.cons.inj hs).1
      rw [he, hgap e List.mem_cons_self] at hd
      cases hd
    | nil =>
      rw [List.nil_append] at hs
      refine ⟨w, words p t, ?_, ?_⟩
      · rw [hs, words_cons_word hne hw t ht]
      · rw [hs, ← List.cons_append]
        exact words_cons_word (List.cons_ne_nil _ _) (List.forall_mem_cons.mpr ⟨hc, hw⟩) t ht

/-- Words are not empty, have no separator, and are made of elements of the text. -/
theorem of_mem_words (hw : w ∈ words p s) : w ≠ [] ∧ ∀ c ∈ w, p c = false ∧ c ∈ s := by
  induction hn : s.length using Nat.strong_induction_on generalizing s with
  | _ n ih =>
    rcases exists_first_word (p := p) s with hblank | ⟨gap, v, t, hs, hgap, hne, hv, ht⟩
    · rw [← List.append_nil s, words_gap hblank, words_nil] at hw
      cases hw
    · rw [hs, List.append_assoc, words_gap hgap, words_cons_word hne hv t ht] at hw
      have hsub : ∀ c, c ∈ v ∨ c ∈ t → c ∈ s := by
        intro c hc
        rw [hs]
        rcases hc with hc | hc
        · exact List.mem_append_left _ (List.mem_append_right _ hc)
        · exact List.mem_append_right _ hc
      rcases List.mem_cons.mp hw with rfl | hw
      · exact ⟨hne, fun c hc => ⟨hv c hc, hsub c (.inl hc)⟩⟩
      · have hlt : t.length < n := by
          have hpos : 0 < v.length := List.length_pos_iff.mpr hne
          rw [← hn, hs, List.length_append, List.length_append]
          omega
        obtain ⟨hne', hin⟩ := ih t.length hlt hw rfl
        exact ⟨hne', fun c hc => ⟨(hin c hc).1, hsub c (.inr (hin c hc).2)⟩⟩

/-- What is no separator is in a word. -/
theorem exists_word (hc : p c = false) (hmem : c ∈ s) : ∃ w ∈ words p s, c ∈ w := by
  induction hn : s.length using Nat.strong_induction_on generalizing s with
  | _ n ih =>
    rcases exists_first_word (p := p) s with hblank | ⟨gap, v, t, hs, hgap, hne, hv, ht⟩
    · rw [hblank c hmem] at hc
      cases hc
    · have hwords : words p s = v :: words p t := by
        rw [hs, List.append_assoc, words_gap hgap, words_cons_word hne hv t ht]
      rw [hwords]
      rw [hs] at hmem
      rcases List.mem_append.mp hmem with hmem | hmem
      · rcases List.mem_append.mp hmem with hmem | hmem
        · rw [hgap c hmem] at hc
          cases hc
        · exact ⟨v, List.mem_cons_self, hmem⟩
      · have hlt : t.length < n := by
          have hpos : 0 < v.length := List.length_pos_iff.mpr hne
          rw [← hn, hs, List.length_append, List.length_append]
          omega
        obtain ⟨w, hw, hin⟩ := ih t.length hlt hmem rfl
        exact ⟨w, List.mem_cons_of_mem _ hw, hin⟩

/-- Separators that agree on a text give the same words. -/
theorem words_congr (h : ∀ c ∈ s, p c = q c) : words p s = words q s := by
  have hsplit : s.splitOnP p = s.splitOnP q := by
    induction s with
    | nil => rfl
    | cons c s ih =>
      obtain ⟨hc, hs⟩ := List.forall_mem_cons.mp h
      rw [List.splitOnP_cons_eq_if_modifyHead, List.splitOnP_cons_eq_if_modifyHead, hc, ih hs]
  unfold words
  rw [hsplit]

/-! ## Texts that are joined -/

theorem intercalate_one (c : α) (w : List α) : [c].intercalate [w] = w := by
  simp [List.intercalate]

theorem intercalate_more (c : α) (w v : List α) (ws : List (List α)) :
    [c].intercalate (w :: v :: ws) = w ++ c :: [c].intercalate (v :: ws) := by
  simp [List.intercalate, List.intersperse]

theorem intercalate_concat (c : α) {ws : List (List α)} (hws : ws ≠ []) (w : List α) :
    [c].intercalate (ws ++ [w]) = [c].intercalate ws ++ c :: w := by
  induction ws with
  | nil => exact absurd rfl hws
  | cons v ws ih =>
    cases ws with
    | nil =>
      show [c].intercalate (v :: w :: []) = _
      rw [intercalate_more, intercalate_one, intercalate_one]
    | cons v' ws =>
      show [c].intercalate (v :: v' :: (ws ++ [w])) = _
      have hrest : [c].intercalate (v' :: (ws ++ [w])) = _ := ih (List.cons_ne_nil v' ws)
      rw [intercalate_more, intercalate_more, hrest, List.append_assoc]
      rfl

theorem map_intercalate {β : Type} (f : α → β) (c : α) (ws : List (List α)) :
    ([c].intercalate ws).map f = [f c].intercalate (ws.map (List.map f)) := by
  induction ws with
  | nil => rfl
  | cons w ws ih =>
    cases ws with
    | nil =>
      rw [List.map_singleton, intercalate_one, intercalate_one]
    | cons v ws =>
      rw [intercalate_more, List.map_append, List.map_cons, ih]
      exact (intercalate_more (f c) (w.map f) (v.map f) (ws.map (List.map f))).symm

theorem infix_intercalate (c : α) {ws : List (List α)} (h : w ∈ ws) :
    w <:+: [c].intercalate ws := by
  induction ws with
  | nil => exact absurd h List.not_mem_nil
  | cons v ws ih =>
    cases ws with
    | nil =>
      have hone : w = [c].intercalate [v] := by
        rw [List.mem_singleton.mp h, intercalate_one]
      exact hone ▸ List.infix_rfl
    | cons v' ws =>
      rw [intercalate_more]
      rcases List.mem_cons.mp h with rfl | h
      · exact (List.prefix_append _ _).isInfix
      · exact (ih h).trans ⟨v ++ [c], [], by simp⟩

theorem mem_intercalate {d : α} {ws : List (List α)} (h : c ∈ [d].intercalate ws) :
    c = d ∨ ∃ w ∈ ws, c ∈ w := by
  induction ws with
  | nil => cases h
  | cons w ws ih =>
    cases ws with
    | nil =>
      rw [intercalate_one] at h
      exact .inr ⟨w, List.mem_singleton_self w, h⟩
    | cons v ws =>
      rw [intercalate_more] at h
      rcases List.mem_append.mp h with h | h
      · exact .inr ⟨w, List.mem_cons_self, h⟩
      · rcases List.mem_cons.mp h with h | h
        · exact .inl h
        · rcases ih h with h | ⟨u, hu, hc⟩
          · exact .inl h
          · exact .inr ⟨u, List.mem_cons_of_mem _ hu, hc⟩

/-- **Words that are written with a separator between them are read back.** -/
theorem words_intercalate {ws : List (List α)} (hc : p c = true)
    (hws : ∀ w ∈ ws, w ≠ [] ∧ ∀ c ∈ w, p c = false) : words p ([c].intercalate ws) = ws := by
  induction ws with
  | nil => rfl
  | cons w ws ih =>
    obtain ⟨⟨hne, hw⟩, hrest⟩ := List.forall_mem_cons.mp hws
    cases ws with
    | nil =>
      rw [intercalate_one, words_self hne hw]
    | cons v ws =>
      rw [intercalate_more, words_append w _ hc, words_self hne hw, ih hrest]
      rfl

end Novamail.Core

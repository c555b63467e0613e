/-
  Statements with numbered placeholders that are put together piece by piece.

  A program grows a list of fragments and a list of values in step; the fragment that is added with
  the n-th value has `$n` in it.  `Sets` is that pair of lists.  `slots` reads the placeholders back
  from a text, as a database would, and `Marks` says which ones a piece contributes wherever it
  stands, so that the placeholders of a text are those of its pieces.
-/
import Mathlib.Data.List.Basic
import Mathlib.Data.Set.Insert

namespace Novamail.Core.Sql

/-! ## The placeholders of a text -/

/-- The numbers of the placeholders: `$` with digits behind it. -/
def slots : List Char → List Nat
  | [] => []
  | c :: cs =>
    if c = '$' ∧ cs.takeWhile Char.isDigit ≠ [] then
      Nat.ofDigitChars 10 (cs.takeWhile Char.isDigit) 0 :: slots cs
    else slots cs

/-- No digit is in front, so that a text ends a number that it follows. -/
def Free (t : List Char) : Prop := ∀ c ∈ t.head?, c.isDigit = false

theorem Free.append {s t : List Char} (hs : Free s) (ht : Free t) : Free (s ++ t) := by
  cases s with
  | nil => exact ht
  | cons c s => exact hs

/-- A text that stands between placeholders: it has none, and begins with no digit. -/
structure Separates (s : List Char) : Prop where
  plain : '$' ∉ s
  ends : ∃ c ∈ s.head?, c.isDigit = false

theorem Separates.free {s : List Char} (h : Separates s) (t : List Char) : Free (s ++ t) := by
  obtain ⟨c, hc, hdigit⟩ := h.ends
  cases s with
  | nil => cases hc
  | cons d s =>
    cases hc
    intro e he
    cases he
    exact hdigit

theorem slots_plain_append {s : List Char} (h : '$' ∉ s) (t : List Char) :
    slots (s ++ t) = slots t := by
  induction s with
  | nil => rfl
  | cons c s ih =>
    obtain ⟨hc, hs⟩ := not_or.mp (mt List.mem_cons.mpr h)
    rw [List.cons_append, slots, if_neg (fun hslot => hc hslot.1.symm)]
    exact ih hs

theorem slots_slot (k : Nat) {t : List Char} (ht : Free t) :
    slots ('$' :: (Nat.toDigits 10 k ++ t)) = k :: slots t := by
  have hdigits : ∀ c ∈ Nat.toDigits 10 k, c.isDigit = true := fun c hc =>
    Nat.isDigit_of_mem_toDigits (by decide) (by decide) hc
  have hplain : '$' ∉ Nat.toDigits 10 k := fun hc => absurd (hdigits _ hc) (by decide)
  have hnumber : (Nat.toDigits 10 k ++ t).takeWhile Char.isDigit = Nat.toDigits 10 k := by
    rw [List.takeWhile_append_of_pos hdigits]
    cases t with
    | nil => exact List.append_nil _
    | cons c t =>
      rw [List.takeWhile_cons_of_neg (by simp [ht c rfl])]
      exact List.append_nil _
  rw [slots, hnumber, if_pos ⟨rfl, Nat.toDigits_ne_nil⟩, slots_plain_append hplain,
    Nat.ofDigitChars_ten_toDigits]

/-! ## The placeholders of a piece -/

/-- In any text the piece contributes these placeholders. -/
def Marks (s : List Char) (ks : Set Nat) : Prop :=
  ∀ t, Free t → ∀ k, k ∈ slots (s ++ t) ↔ k ∈ ks ∨ k ∈ slots t

theorem Marks.plain {s : List Char} (h : '$' ∉ s) : Marks s ∅ := by
  intro t _ k
  rw [slots_plain_append h]
  simp

theorem Marks.dollar (k : Nat) : Marks ('$' :: Nat.toDigits 10 k) {k} := by
  intro t ht j
  rw [List.cons_append, slots_slot k ht, List.mem_cons, Set.mem_singleton_iff]

theorem Marks.append {s s' : List Char} {ks ks' : Set Nat} (h : Marks s ks) (h' : Marks s' ks')
    (hfree : Free s') : Marks (s ++ s') (ks ∪ ks') := by
  intro t ht k
  rw [List.append_assoc, h _ (hfree.append ht), h' t ht, Set.mem_union, or_assoc]

/-- Behind a plain text a piece may begin with anything. -/
theorem Marks.after {s s' : List Char} {ks : Set Nat} (hs : '$' ∉ s) (h : Marks s' ks) :
    Marks (s ++ s') ks := by
  intro t ht k
  rw [List.append_assoc, slots_plain_append hs, h t ht]

/-- In front of a text that ends its last number too. -/
theorem Marks.before {s s' : List Char} {ks : Set Nat} (h : Marks s ks) (hs : Separates s') :
    Marks (s ++ s') ks := by
  intro t ht k
  rw [List.append_assoc, h _ (hs.free t), slots_plain_append hs.plain]

theorem Marks.mem_slots {s : List Char} {ks : Set Nat} (h : Marks s ks) (k : Nat) :
    k ∈ slots s ↔ k ∈ ks := by
  have hend := h [] nofun k
  rw [List.append_nil] at hend
  simpa [slots] using hend

/-- Pieces of which the i-th has the placeholder `a + i`, joined. -/
theorem Marks.join {sep : String} (hsep : Separates sep.toList) :
    ∀ (ws : List String) (a : Nat), (∀ i w, ws[i]? = some w → Marks w.toList {a + i}) →
      Marks (sep.intercalate ws).toList {k | a ≤ k ∧ k < a + ws.length}
  | [], a, _ => by
    have hnone : {k | a ≤ k ∧ k < a + ([] : List String).length} = (∅ : Set Nat) := by
      ext k
      simp only [Set.mem_ofPred_eq, List.length_nil, Set.mem_empty_iff_false, iff_false]
      omega
    rw [String.intercalate_nil, hnone]
    exact .plain List.not_mem_nil
  | [w], a, h => by
    have hone : {k | a ≤ k ∧ k < a + [w].length} = ({a + 0} : Set Nat) := by
      ext k
      simp only [Set.mem_ofPred_eq, List.length_singleton, Set.mem_singleton_iff]
      omega
    rw [String.intercalate_singleton, hone]
    exact h 0 w rfl
  | w :: v :: ws, a, h => by
    have hrest := Marks.join hsep (v :: ws) (a + 1) fun i u hu => by
      have hu := h (i + 1) u hu
      rwa [show a + (i + 1) = a + 1 + i by omega] at hu
    have hall : {k | a ≤ k ∧ k < a + (w :: v :: ws).length} =
        ({a + 0} : Set Nat) ∪ {k | a + 1 ≤ k ∧ k < a + 1 + (v :: ws).length} := by
      ext k
      simp only [Set.mem_ofPred_eq, List.length_cons, Set.mem_union, Set.mem_singleton_iff]
      omega
    rw [String.intercalate_cons_cons, String.toList_append, String.toList_append, hall,
      List.append_assoc]
    exact (h 0 w rfl).append (hrest.after hsep.plain) (hsep.free _)

/-! ## Fragments and values, in step -/

/-- The fragments of a statement, and the values bound to it. -/
structure Sets (α : Type) where
  sets : List String := []
  vals : List α := []

variable {α : Type}

/-- The value is pushed, and a fragment with its number. -/
def Sets.push (s : Sets α) (v : α) (frag : Nat → String) : Sets α :=
  let vals := s.vals ++ [v]
  { vals := vals, sets := s.sets ++ [frag vals.length] }

/-- The same if there is a value. -/
def Sets.pushSome (s : Sets α) (o : Option α) (frag : Nat → String) : Sets α :=
  match o with
  | some v => s.push v frag
  | none => s

/-- The columns that have a value. -/
def present (cols : List (String × Option α)) : List String :=
  (cols.filter fun c => c.2.isSome).map Prod.fst

/-- Their values. -/
def values (cols : List (String × Option α)) : List α := cols.filterMap Prod.snd

theorem length_present (cols : List (String × Option α)) :
    (present cols).length = (values cols).length := by
  unfold present values
  rw [List.length_map, List.length_filterMap_eq_countP, List.countP_eq_length_filter]

theorem mem_of_present {cols : List (String × Option α)} {c : String} (h : c ∈ present cols) :
    c ∈ cols.map Prod.fst := by
  obtain ⟨a, ha, rfl⟩ := List.mem_map.mp h
  exact List.mem_map_of_mem (List.mem_of_mem_filter ha)

/-- Each column with its own value. -/
theorem zip_present (cols : List (String × Option α)) (more : List α) :
    (present cols).zip (values cols ++ more) = cols.filterMap fun c => c.2.map (c.1, ·) := by
  unfold present values
  induction cols with
  | nil => rfl
  | cons c cols ih =>
    obtain ⟨name, o⟩ := c
    cases o with
    | none => exact ih
    | some v => exact congrArg ((name, v) :: ·) ih

variable {frag : String → Nat → String}

/-- Fragments that are numbered in their order. -/
def numbered (frag : String → Nat → String) (names : List String) : List String :=
  names.mapIdx fun i c => frag c (i + 1)

theorem numbered_concat (frag : String → Nat → String) (names : List String) (c : String) :
    numbered frag (names ++ [c]) = numbered frag names ++ [frag c (names.length + 1)] :=
  List.mapIdx_concat

theorem length_numbered (frag : String → Nat → String) (names : List String) :
    (numbered frag names).length = names.length := List.length_mapIdx

/-- The placeholder of a number. -/
def slot (k : Nat) : String := "$" ++ toString k

theorem Marks.of_slot (k : Nat) : Marks (slot k).toList {k} := by
  have htext : (slot k).toList = '$' :: Nat.toDigits 10 k := by
    unfold slot
    rw [String.toList_append, Nat.toString_eq_ofList_toDigits]
    simp
  rw [htext]
  exact .dollar k

/-- Placeholders for values are placeholders for their columns. -/
theorem mapIdx_slot {β : Type} {names : List String} {vals : List β}
    (h : names.length = vals.length) :
    (vals.mapIdx fun i _ => slot (i + 1)) = numbered (fun _ => slot) names := by
  refine List.ext_getElem ?_ ?_
  · rw [List.length_mapIdx, length_numbered, h]
  · intro i _ _
    simp [numbered]

/-- Numbered fragments, joined. -/
theorem Marks.numbered {sep : String} (hsep : Separates sep.toList) {names : List String}
    (hfrag : ∀ name ∈ names, ∀ k, Marks (frag name k).toList {k}) :
    Marks (sep.intercalate (numbered frag names)).toList {k | 1 ≤ k ∧ k ≤ names.length} := by
  have hlen := length_numbered frag names
  have hjoin := Marks.join hsep (Sql.numbered frag names) 1 fun i w hw => by
    unfold Sql.numbered at hw
    rw [List.getElem?_mapIdx] at hw
    obtain ⟨name, hname, rfl⟩ := Option.map_eq_some_iff.mp hw
    rw [Nat.add_comm 1 i]
    exact hfrag name (List.mem_of_getElem? hname) (i + 1)
  have hset : {k | 1 ≤ k ∧ k ≤ names.length} =
      ({k | 1 ≤ k ∧ k < 1 + (Sql.numbered frag names).length} : Set Nat) := by
    ext k
    simp only [Set.mem_ofPred_eq, hlen]
    omega
  rw [hset]
  exact hjoin

/-- What was pushed for columns, each with the value that it may have. -/
structure Pushed (frag : String → Nat → String) (cols : List (String × Option α)) (s : Sets α) :
    Prop where
  sets : s.sets = numbered frag (present cols)
  vals : s.vals = values cols

variable {cols : List (String × Option α)} {s : Sets α}

theorem Pushed.empty (frag : String → Nat → String) : Pushed frag [] ({} : Sets α) :=
  ⟨rfl, rfl⟩

/-- **Fragments and values stay in step**, whether the next column has a value or not. -/
theorem Pushed.pushSome (h : Pushed frag cols s) (c : String) (o : Option α) :
    Pushed frag (cols ++ [(c, o)]) (s.pushSome o (frag c)) := by
  cases o with
  | none =>
    have hnames : present (cols ++ [(c, (none : Option α))]) = present cols := by simp [present]
    have hvals : values (cols ++ [(c, (none : Option α))]) = values cols := by simp [values]
    exact ⟨hnames ▸ h.sets, hvals ▸ h.vals⟩
  | some v =>
    have hnames : present (cols ++ [(c, some v)]) = present cols ++ [c] := by simp [present]
    have hvals : values (cols ++ [(c, some v)]) = values cols ++ [v] := by simp [values]
    constructor
    · show s.sets ++ [frag c (s.vals ++ [v]).length] = _
      rw [hnames, numbered_concat, h.sets, h.vals, length_present, List.length_append]
      rfl
    · show s.vals ++ [v] = _
      rw [hvals, h.vals]

/-! ## Statements -/

/-- A statement, and the values bound to its placeholders. -/
structure Statement (α : Type) where
  text : String
  vals : List α

/-- The statement has the columns of `cols` that have a value and no others, each bound to its own
    value, and then the values `last`; its placeholders are `$1` to the number of the values. -/
structure Aligned (cols : List (String × Option α)) (last : List α) (text : List String → String)
    (st : Statement α) : Prop where
  /-- The text is made of nothing but the names of the columns. -/
  text : st.text = text (present cols)
  binds : (present cols).zip st.vals = cols.filterMap fun c => c.2.map (c.1, ·)
  last : st.vals.drop (present cols).length = last
  slots : ∀ k, k ∈ slots st.text.toList ↔ 1 ≤ k ∧ k ≤ st.vals.length

theorem Aligned.of_vals {last : List α} {text : List String → String} {st : Statement α}
    (htext : st.text = text (present cols)) (hvals : st.vals = values cols ++ last)
    (hmarks : Marks (text (present cols)).toList {k | 1 ≤ k ∧ k ≤ st.vals.length}) :
    Aligned cols last text st := by
  refine ⟨htext, ?_, ?_, ?_⟩
  · rw [hvals]
    exact zip_present cols last
  · rw [hvals, length_present]
    exact List.drop_left
  · rw [htext]
    exact hmarks.mem_slots

end Novamail.Core.Sql

/-
  JSON and records: how Go's `encoding/json` reads an object into a struct.

  The members are taken in their order; each goes into the field of its name, in any case, and a
  member without a field is skipped.  A value of the wrong type leaves its field as it is, the
  reading goes on, and the whole is an error at the end.  `null` leaves what is no list and no map
  as it is.

  An `Into α` is such a reader of one value into a place that holds an `α`.  A record is read member
  by member: what an object does to it is what its members do, one after another (`record_obj`).
-/
import Mathlib.Algebra.Ring.Int.Defs
import Mathlib.Data.List.Pairwise
import Novamail.Core.Json
import Novamail.Core.Rfc3339

namespace Novamail.Core.Json

/-- A value goes into a place: what the place holds then, and whether the value had its type. -/
abbrev Into (α : Type) := Value → α → α × Bool

namespace Into

variable {α β : Type}

/-! ## Places of one value -/

/-- A `string`. -/
def string : Into String
  | .str s, _ => (s, true)
  | .null, a => (a, true)
  | _, a => (a, false)

/-- A `bool`. -/
def bool : Into Bool
  | .bool b, _ => (b, true)
  | .null, a => (a, true)
  | _, a => (a, false)

/-- An `int`: of 64 bits, and written without a fraction and an exponent. -/
def int : Into Int64
  | .num l, a =>
    match l.toInt? with
    | some n => if -(2 ^ 63) ≤ n ∧ n < 2 ^ 63 then (Int64.ofInt n, true) else (a, false)
    | none => (a, false)
  | .null, a => (a, true)
  | _, a => (a, false)

/-- A `time.Time`.  Go looks for the date in the raw text, where an escape is no date. -/
def moment : Into Rfc3339.Moment
  | .str s, a =>
    match Rfc3339.parse s.toList with
    | some m => (m, true)
    | none => (a, false)
  | .null, a => (a, true)
  | _, a => (a, false)

/-- A `[]string`. -/
def strings : Into (List String)
  | .arr vs, _ => (vs.map fun v => (string v "").1, vs.all fun v => (string v "").2)
  | .null, _ => ([], true)
  | _, a => (a, false)

/-- A `map[string]string`, in the order of its keys. -/
abbrev Labels := { m : List (String × String) // m.Pairwise fun p q => p.1 < q.1 }

/-- The map without any key. -/
def Labels.empty : Labels := ⟨[], .nil⟩

/-- `m[k] = v`. -/
def Labels.insert (k v : String) (m : Labels) : Labels where
  val := m.1.filter (fun p => p.1 < k) ++ (k, v) :: m.1.filter fun p => k < p.1
  property := by
    have hbefore : ∀ p ∈ m.1.filter (fun p => p.1 < k), p.1 < k := fun p hp =>
      of_decide_eq_true (List.mem_filter.mp hp).2
    have hbehind : ∀ q ∈ m.1.filter (fun p => k < p.1), k < q.1 := fun q hq =>
      of_decide_eq_true (List.mem_filter.mp hq).2
    refine List.pairwise_append.mpr
      ⟨m.2.filter _, List.pairwise_cons.mpr ⟨hbehind, m.2.filter _⟩, fun p hp q hq => ?_⟩
    rcases List.mem_cons.mp hq with rfl | hq
    · exact hbefore p hp
    · exact String.lt_trans (hbefore p hp) (hbehind q hq)

/-- A `map[string]string`. -/
def map : Into Labels
  | .obj ms, a =>
    ms.foldl (fun p m => (p.1.insert m.1 (string m.2 "").1, p.2 && (string m.2 "").2)) (a, true)
  | .null, _ => (Labels.empty, true)
  | _, a => (a, false)

/-- A place within a larger one. -/
def at_ (get : α → β) (set : α → β → α) (f : Into β) : Into α := fun v a =>
  (set a (f v (get a)).1, (f v (get a)).2)

/-! ## Records -/

/-- The letters that `strings.EqualFold` takes for one. -/
def fold (c : Char) : Char :=
  if c = 'ſ' then 's' else if c = '\u212A' then 'k' else c.toLower

/-- The key names the field, in whatever case. -/
def sameName (name key : String) : Bool := key.toList.map fold = name.toList.map fold

/-- The field of a key: one of that very name before one that is the same but for its case. -/
def field (fields : List (String × Into α)) (key : String) : Option (Into α) :=
  ((fields.find? fun f => f.1 = key).or (fields.find? fun f => sameName f.1 key)).map Prod.snd

/-- One member goes into its field. -/
def member (fields : List (String × Into α)) (p : α × Bool) (m : String × Value) : α × Bool :=
  match field fields m.1 with
  | some f => ((f m.2 p.1).1, p.2 && (f m.2 p.1).2)
  | none => p

/-- A `struct`. -/
def record (fields : List (String × Into α)) : Into α
  | .obj ms, a => ms.foldl (member fields) (a, true)
  | .null, a => (a, true)
  | _, a => (a, false)

/-- `json.Unmarshal` into a place that holds `zero`. -/
def unmarshal (f : Into α) (zero : α) (s : String) : α × Bool :=
  match parse s with
  | some v => f v zero
  | none => (zero, false)

/-! ## What is read -/

@[simp] theorem string_str (s a : String) : string (.str s) a = (s, true) := rfl

@[simp] theorem bool_bool (b a : Bool) : bool (.bool b) a = (b, true) := rfl

@[simp] theorem int_ofInt (n a : Int64) : int (.num (.ofInt n.toInt)) a = (n, true) := by
  have hrange : -(2 ^ 63) ≤ n.toInt ∧ n.toInt < 2 ^ 63 := ⟨Int64.le_toInt n, Int64.toInt_lt n⟩
  unfold int
  simp only [Literal.toInt?_ofInt, if_pos hrange, Int64.ofInt_toInt]

/-- A date that is read is put in its place. -/
theorem moment_str {s : String} {m : Rfc3339.Moment} (h : Rfc3339.parse s.toList = some m)
    (a : Rfc3339.Moment) : moment (.str s) a = (m, true) := by
  unfold moment
  simp only [h]

@[simp] theorem strings_arr (ss a : List String) : strings (.arr (ss.map .str)) a = (ss, true) := by
  unfold strings
  simp only [List.map_map, List.all_map, Prod.mk.injEq, List.all_eq_true]
  exact ⟨List.map_id' ss, fun _ _ => rfl⟩

/-- A key behind all others is put at the end. -/
theorem insert_last {k : String} {m : Labels} (h : ∀ p ∈ m.1, p.1 < k) (v : String) :
    (m.insert k v).1 = m.1 ++ [(k, v)] := by
  have hbefore : m.1.filter (fun p => p.1 < k) = m.1 :=
    List.filter_eq_self.mpr fun p hp => decide_eq_true (h p hp)
  have hbehind : (m.1.filter fun p => k < p.1) = [] :=
    List.filter_eq_nil_iff.mpr fun p hp => by
      rw [decide_eq_true_eq]
      exact String.lt_asymm (h p hp)
  show m.1.filter (fun p => p.1 < k) ++ (k, v) :: (m.1.filter fun p => k < p.1) = _
  rw [hbefore, hbehind]

/-- The members of a map. -/
def Labels.members (m : Labels) : List (String × Value) := m.1.map fun p => (p.1, .str p.2)

/-- **A map is read back.** -/
@[simp] theorem map_members (m : Labels) : map (.obj m.members) Labels.empty = (m, true) := by
  -- the entries that are there are in front of those that are still to come
  have hrun : ∀ (rest : List (String × String)) (a : Labels),
      (a.1 ++ rest).Pairwise (fun p q => p.1 < q.1) →
        ((rest.map fun p => (p.1, Value.str p.2)).foldl (fun p m =>
            (p.1.insert m.1 (string m.2 "").1, p.2 && (string m.2 "").2)) (a, true)).1.1 = a.1 ++ rest ∧
          ((rest.map fun p => (p.1, Value.str p.2)).foldl (fun p m =>
            (p.1.insert m.1 (string m.2 "").1, p.2 && (string m.2 "").2)) (a, true)).2 = true := by
    intro rest
    induction rest with
    | nil => exact fun a _ => ⟨(List.append_nil _).symm, rfl⟩
    | cons p rest ih =>
      intro a hall
      have hlast : (a.insert p.1 p.2).1 = a.1 ++ [p] := insert_last (fun q hq =>
        (List.pairwise_append.mp hall).2.2 q hq p List.mem_cons_self) p.2
      have hmore : ((a.insert p.1 p.2).1 ++ rest).Pairwise fun p q => p.1 < q.1 := by
        rw [hlast, List.append_assoc]
        exact hall
      obtain ⟨hval, hok⟩ := ih (a.insert p.1 p.2) hmore
      refine ⟨hval.trans ?_, hok⟩
      rw [hlast, List.append_assoc]
      rfl
  obtain ⟨hval, hok⟩ := hrun m.1 Labels.empty m.2
  exact Prod.ext (Subtype.ext hval) hok

@[simp] theorem record_obj (fields : List (String × Into α)) (ms : List (String × Value)) (a : α) :
    record fields (.obj ms) a = ms.foldl (member fields) (a, true) := rfl

/-- What a member of a field that is there does. -/
theorem member_of_field {fields : List (String × Into α)} {k : String} {f : Into α} {v : Value}
    {a b : α} (hf : field fields k = some f) (hv : f v a = (b, true)) (ok : Bool) :
    member fields (a, ok) (k, v) = (b, ok) := by
  unfold member
  rw [hf]
  dsimp only
  rw [hv, Bool.and_true]

theorem sameName_trans {a b k : String} (ha : sameName a k = true) (hb : sameName b k = true) :
    sameName a b = true := by
  have hak : k.toList.map fold = a.toList.map fold := of_decide_eq_true ha
  have hbk : k.toList.map fold = b.toList.map fold := of_decide_eq_true hb
  exact decide_eq_true (hbk.symm.trans hak)

theorem sameName_comm (a b : String) : sameName a b = sameName b a := decide_eq_decide.mpr eq_comm

/-- A key that has one name has the others that are the same. -/
theorem sameName_congr {a k : String} (h : sameName a k = true) (name : String) :
    sameName name k = sameName name a := by
  have hk : k.toList.map fold = a.toList.map fold := of_decide_eq_true h
  unfold sameName
  rw [hk]

/-- The names of the fields differ by more than their case. -/
def Distinct (fields : List (String × Into α)) : Prop :=
  fields.Pairwise fun f g => sameName f.1 g.1 = false

/-- Then a key names at most one of them. -/
theorem Distinct.unique {fields : List (String × Into α)} (h : Distinct fields)
    {f g : String × Into α} (hf : f ∈ fields) (hg : g ∈ fields) {key : String}
    (hfk : sameName f.1 key = true) (hgk : sameName g.1 key = true) : f = g := by
  have hsymm : Std.Symm fun f g : String × Into α => sameName f.1 g.1 = false :=
    ⟨fun f g hfg => by rw [sameName_comm, hfg]⟩
  by_contra hne
  have hno : sameName f.1 g.1 = false := List.Pairwise.forall h hf hg hne
  rw [sameName_trans hfk hgk] at hno
  cases hno

/-- The field that a key names is found, in whatever case the key is. -/
theorem field_of_sameName {fields : List (String × Into α)} (h : Distinct fields)
    {f : String × Into α} (hf : f ∈ fields) {key : String} (hk : sameName f.1 key = true) :
    field fields key = some f.2 := by
  have hexact : ∀ g, fields.find? (fun g => g.1 = key) = some g → g = f := fun g hg => by
    have hname : g.1 = key :=
      of_decide_eq_true (List.find?_some (p := fun g : String × Into α => g.1 = key) hg)
    have hgk : sameName g.1 key = true := by
      rw [hname]
      exact decide_eq_true rfl
    exact h.unique (List.mem_of_find?_eq_some hg) hf hgk hk
  unfold field
  cases he : fields.find? (fun g => g.1 = key) with
  | some g =>
    rw [hexact g he]
    rfl
  | none =>
    cases hs : fields.find? (fun g => sameName g.1 key) with
    | some g =>
      have hgk : sameName g.1 key = true :=
        List.find?_some (p := fun g : String × Into α => sameName g.1 key) hs
      rw [h.unique (List.mem_of_find?_eq_some hs) hf hgk hk]
      rfl
    | none => exact absurd hk (List.find?_eq_none.mp hs f hf)

/-- A key that names no field is passed over. -/
theorem field_eq_none {fields : List (String × Into α)} {key : String}
    (h : ∀ f ∈ fields, sameName f.1 key = false) : field fields key = none := by
  have hexact : fields.find? (fun g => g.1 = key) = none :=
    List.find?_eq_none.mpr fun f hf hname => by
      have hk := h f hf
      rw [of_decide_eq_true hname] at hk
      exact Bool.false_ne_true (hk.symm.trans (decide_eq_true rfl))
  have hsame : fields.find? (fun g => sameName g.1 key) = none :=
    List.find?_eq_none.mpr fun f hf => by
      rw [h f hf]
      exact Bool.false_ne_true
  unfold field
  rw [hexact, hsame]
  rfl

theorem at_eq {get : α → β} {set : α → β → α} {f : Into β} {v : Value} {a : α} {b : β}
    (h : f v (get a) = (b, true)) : at_ get set f v a = (set a b, true) := by
  unfold at_
  rw [h]

/-- What was written is unmarshalled as the value it was written from. -/
theorem unmarshal_text (st : Style) (f : Into α) (zero : α) (v : Value) :
    unmarshal f zero (v.text st) = f v zero := by
  unfold unmarshal
  rw [parse_write]

end Into

/-! ## Writing a record -/

/-- What `json.Marshal` escapes, besides quotes and backslashes. -/
def htmlSpecial (c : Char) : Bool :=
  c.toNat < 32 || c ∈ ['<', '>', '&', '\u2028', '\u2029']

theorem htmlSpecial_of_control (c : Char) (h : c.toNat < 32) : htmlSpecial c = true := by
  rw [htmlSpecial, decide_eq_true h, Bool.true_or]

theorem lt_of_htmlSpecial (c : Char) (h : htmlSpecial c = true) : c.toNat < 0xD800 := by
  rcases Bool.or_eq_true_iff.mp h with h | h
  · have hlt : c.toNat < 32 := of_decide_eq_true h
    omega
  · have hmem := of_decide_eq_true h
    simp only [List.mem_cons, List.not_mem_nil, or_false] at hmem
    rcases hmem with rfl | rfl | rfl | rfl | rfl
    all_goals decide

/-- The style of `json.Marshal`, which is made for texts that are put into a page. -/
def htmlStyle : Style := ⟨htmlSpecial, htmlSpecial_of_control, lt_of_htmlSpecial⟩

/-- A member that is left out when it is empty. -/
def omitEmpty (k : String) (empty : Bool) (v : Value) : List (String × Value) :=
  if empty then [] else [(k, v)]

/-- A member that may be left out: what is left out is what the place holds already. -/
theorem Into.foldl_omitEmpty {α : Type} {fields : List (String × Into α)} {k : String} {f : Into α}
    {v : Value} {a b : α} {empty : Bool} (hf : Into.field fields k = some f)
    (hthere : empty = false → f v a = (b, true)) (hgone : empty = true → a = b) (ok : Bool) :
    (omitEmpty k empty v).foldl (Into.member fields) (a, ok) = (b, ok) := by
  cases empty with
  | true =>
    rw [← hgone rfl]
    rfl
  | false => exact Into.member_of_field hf (hthere rfl) ok

/-- A member that may be left out conforms if it is left out, or its value conforms. -/
theorem Schema.acceptsMembers_omitEmpty {k : String} {empty : Bool} {v : Value}
    {ps : List (String × Schema)} {s : Schema} (h : ps.lookup k = some s) :
    Schema.acceptsMembers (omitEmpty k empty v) ps = (empty || Schema.accepts v s) := by
  cases empty with
  | true => rfl
  | false =>
    rw [omitEmpty, if_neg Bool.false_ne_true, Schema.acceptsMembers, h, Schema.acceptsMembers]
    exact Bool.and_true _

/-- A member that the schema does not name has to be left out. -/
theorem Schema.acceptsMembers_unknown {k : String} {empty : Bool} {v : Value}
    {ps : List (String × Schema)} (h : ps.lookup k = none) :
    Schema.acceptsMembers (omitEmpty k empty v) ps = empty := by
  cases empty with
  | true => rfl
  | false =>
    rw [omitEmpty, if_neg Bool.false_ne_true, Schema.acceptsMembers, h]
    rfl

end Novamail.Core.Json

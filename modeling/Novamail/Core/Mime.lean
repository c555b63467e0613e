/-
  Mail as text: lines that end in CRLF, header fields with their folds, the parts of a multipart
  body, and the delivery report that a bounce carries.

  The readers are strict: a CR or an LF that stands alone ends the reading, and nothing that was
  read is dropped but the blank behind the colon of a field.  So what is read of a text that was
  written from lines is exactly those lines, and no line that is read has a CR or an LF in it.
-/
import Novamail.Core.Words

namespace Novamail.Core.Mime

/-- A text, by characters. -/
abbrev Text := List Char

/-- No CR and no LF. -/
def Clean (s : Text) : Prop := '\r' ∉ s ∧ '\n' ∉ s

instance (s : Text) : Decidable (Clean s) := inferInstanceAs (Decidable (_ ∧ _))

theorem clean_append {s t : Text} : Clean (s ++ t) ↔ Clean s ∧ Clean t := by
  unfold Clean
  rw [List.mem_append, List.mem_append]
  tauto

theorem Clean.subset {s t : Text} (ht : Clean t) (hsub : s ⊆ t) : Clean s :=
  ⟨fun h => ht.1 (hsub h), fun h => ht.2 (hsub h)⟩

theorem clean_cons {c : Char} {s : Text} : Clean (c :: s) ↔ c ≠ '\r' ∧ c ≠ '\n' ∧ Clean s := by
  unfold Clean
  rw [List.mem_cons, List.mem_cons]
  tauto

theorem clean_toList {s t : String} :
    Clean (s ++ t).toList ↔ Clean s.toList ∧ Clean t.toList := by
  rw [String.toList_append, clean_append]

/-! ## Bytes -/

/-- The text of some bytes, if they are UTF-8. -/
def decode (b : List UInt8) : Option Text := (String.fromUTF8? ⟨b.toArray⟩).map String.toList

theorem toList_loop (b : ByteArray) (i : Nat) (r : List UInt8) :
    ByteArray.toList.loop b i r = r.reverse ++ b.data.toList.drop i := by
  fun_induction ByteArray.toList.loop b i r with
  | case1 i r h ih =>
    have hi : i < b.data.toList.length := by simpa using h
    rw [ih, List.reverse_cons, List.append_assoc, List.drop_eq_getElem_cons hi]
    simp [ByteArray.get!, h]
  | case2 i r h =>
    rw [List.drop_eq_nil_of_le, List.append_nil]
    simpa using h

/-- A text survives its UTF-8. -/
theorem decode_toUTF8 (s : String) : decode s.toUTF8.toList = some s.toList := by
  have hlist : s.toUTF8.toList = s.toUTF8.data.toList := toList_loop _ 0 []
  have hbytes : (⟨s.toUTF8.toList.toArray⟩ : ByteArray) = s.toUTF8 := by
    rw [hlist, Array.toArray_toList]
  unfold decode
  rw [hbytes, String.toUTF8_eq_toByteArray, String.fromUTF8?, dif_pos s.isValidUTF8]
  rfl

/-! ## Lines -/

/-- The first line of a text, and what follows it; none if it is not ended, or has a CR or an LF
    of its own. -/
def line : Text → Option (Text × Text)
  | [] => none
  | c :: cs =>
    if c = '\r' then if cs.head? = some '\n' then some ([], cs.tail) else none
    else if c = '\n' then none
    else (line cs).map fun (l, rest) => (c :: l, rest)

/-- The end of a line. -/
def crlf : Text := ['\r', '\n']

theorem line_append {l : Text} (hl : Clean l) (rest : Text) :
    line (l ++ crlf ++ rest) = some (l, rest) := by
  induction l with
  | nil => rfl
  | cons c l ih =>
    obtain ⟨hcr, hlf, hl⟩ := clean_cons.mp hl
    show (if c = '\r' then _ else if c = '\n' then none else _) = _
    rw [if_neg hcr, if_neg hlf]
    show (line (l ++ crlf ++ rest)).map _ = _
    rw [ih hl]
    rfl

theorem line_eq {s l rest : Text} (h : line s = some (l, rest)) :
    Clean l ∧ s = l ++ crlf ++ rest := by
  induction s generalizing l with
  | nil => cases h
  | cons c cs ih =>
    unfold line at h
    split at h
    · rename_i hcr
      split at h
      · rename_i hlf
        cases h
        obtain ⟨d, hd⟩ := List.head?_eq_some_iff.mp hlf
        rw [hcr, hd]
        exact ⟨⟨List.not_mem_nil, List.not_mem_nil⟩, rfl⟩
      · cases h
    · split at h
      · cases h
      · rename_i hcr hlf
        obtain ⟨⟨l', rest'⟩, hline, heq⟩ := Option.map_eq_some_iff.mp h
        cases heq
        obtain ⟨hclean, rfl⟩ := ih hline
        exact ⟨clean_cons.mpr ⟨hcr, hlf, hclean⟩, rfl⟩

theorem line_length {s l rest : Text} (h : line s = some (l, rest)) : rest.length < s.length := by
  rw [(line_eq h).2]
  simp [crlf]
  omega

/-- All lines of a text. -/
def lines (s : Text) : Option (List Text) :=
  if s = [] then some []
  else
    match h : line s with
    | none => none
    | some (l, rest) =>
      have := line_length h
      (lines rest).map (l :: ·)
termination_by s.length

/-- The lines up to the first empty one, and what follows that. -/
def block (s : Text) : Option (List Text × Text) :=
  match h : line s with
  | none => none
  | some (l, rest) =>
    have := line_length h
    if l = [] then some ([], rest) else (block rest).map fun (ls, body) => (l :: ls, body)
termination_by s.length

/-- Lines as a text. -/
def unlines (ls : List Text) : Text := ls.flatMap (· ++ crlf)

theorem lines_cons {s l rest : Text} (h : line s = some (l, rest)) :
    lines s = (lines rest).map (l :: ·) := by
  have hne : s ≠ [] := by
    rintro rfl
    cases h
  rw [lines, if_neg hne]
  split
  · rename_i hnone
    rw [h] at hnone
    cases hnone
  · rename_i hsome
    rw [h] at hsome
    cases hsome
    rfl

theorem block_cons {s l rest : Text} (h : line s = some (l, rest)) :
    block s = if l = [] then some ([], rest)
      else (block rest).map fun (ls, body) => (l :: ls, body) := by
  rw [block]
  split
  · rename_i hnone
    rw [h] at hnone
    cases hnone
  · rename_i hsome
    rw [h] at hsome
    cases hsome
    rfl

theorem unlines_append (ls ls' : List Text) : unlines (ls ++ ls') = unlines ls ++ unlines ls' :=
  List.flatMap_append

/-- **Written lines are read back**, whatever follows them. -/
theorem lines_append {ls : List Text} (hls : ∀ l ∈ ls, Clean l) (s : Text) :
    lines (unlines ls ++ s) = (lines s).map (ls ++ ·) := by
  induction ls with
  | nil =>
    show lines s = (lines s).map fun ls => ls
    rw [Option.map_id']
  | cons l ls ih =>
    have htext : unlines (l :: ls) ++ s = l ++ crlf ++ (unlines ls ++ s) := by
      unfold unlines
      rw [List.flatMap_cons]
      simp only [List.append_assoc]
    rw [htext, lines_cons (line_append (hls l List.mem_cons_self) _),
      ih fun l hl => hls l (List.mem_cons_of_mem _ hl), Option.map_map]
    rfl

theorem lines_nil : lines [] = some [] := by
  rw [lines, if_pos rfl]

theorem lines_unlines {ls : List Text} (hls : ∀ l ∈ ls, Clean l) :
    lines (unlines ls) = some ls := by
  have happend := lines_append hls []
  rw [List.append_nil, lines_nil, Option.map_some, List.append_nil] at happend
  exact happend

/-- An LF that stands alone is no end of a line. -/
theorem lines_bare {l : Text} (hl : Clean l) (rest : Text) : lines (l ++ '\n' :: rest) = none := by
  have hline : line (l ++ '\n' :: rest) = none := by
    induction l with
    | nil => rfl
    | cons c l ih =>
      obtain ⟨hcr, hlf, hl⟩ := clean_cons.mp hl
      show (if c = '\r' then _ else if c = '\n' then none else _) = _
      rw [if_neg hcr, if_neg hlf]
      show (line (l ++ '\n' :: rest)).map _ = _
      rw [ih hl]
      rfl
  rw [lines, if_neg (List.append_ne_nil_of_right_ne_nil _ (List.cons_ne_nil _ _))]
  split
  · rfl
  · rename_i hsome
    rw [hline] at hsome
    cases hsome

/-- So is a header, with what follows its empty line. -/
theorem block_unlines {ls : List Text} (hls : ∀ l ∈ ls, Clean l ∧ l ≠ []) (body : Text) :
    block (unlines ls ++ crlf ++ body) = some (ls, body) := by
  induction ls with
  | nil =>
    have hline : line (unlines [] ++ crlf ++ body) = some ([], body) := rfl
    rw [block_cons hline, if_pos rfl]
  | cons l ls ih =>
    obtain ⟨hclean, hne⟩ := hls l List.mem_cons_self
    have htext : unlines (l :: ls) ++ crlf ++ body =
        l ++ crlf ++ (unlines ls ++ crlf ++ body) := by
      unfold unlines
      rw [List.flatMap_cons]
      simp only [List.append_assoc]
    rw [htext, block_cons (line_append hclean _), if_neg hne,
      ih fun l hl => hls l (List.mem_cons_of_mem _ hl)]
    rfl

/-- No line that is read has a CR or an LF. -/
theorem lines_clean {s : Text} {ls : List Text} (h : lines s = some ls) : ∀ l ∈ ls, Clean l := by
  fun_induction lines s generalizing ls with
  | case1 =>
    cases h
    exact nofun
  | case2 => cases h
  | case3 s _ l rest hline _ ih =>
    obtain ⟨ls', hls', rfl⟩ := Option.map_eq_some_iff.mp h
    intro l' hl'
    rcases List.mem_cons.mp hl' with rfl | hl'
    · exact (line_eq hline).1
    · exact ih hls' l' hl'

theorem block_clean {s body : Text} {ls : List Text} (h : block s = some (ls, body)) :
    ∀ l ∈ ls, Clean l := by
  fun_induction block s generalizing ls with
  | case1 => cases h
  | case2 =>
    cases h
    exact nofun
  | case3 s l rest hline _ _ ih =>
    obtain ⟨⟨ls', body'⟩, hls', heq⟩ := Option.map_eq_some_iff.mp h
    cases heq
    intro l' hl'
    rcases List.mem_cons.mp hl' with rfl | hl'
    · exact (line_eq hline).1
    · exact ih hls' l' hl'

/-! ## Header fields -/

/-- A field: its name, and its text as it stands on one line or on several. -/
structure Field where
  name : Text
  value : List Text
  deriving DecidableEq, Repr

/-- A blank of a line. -/
def isBlank (c : Char) : Bool := c = ' ' || c = '\t'

/-- A character of a field name. -/
def isNameChar (c : Char) : Bool := '!' ≤ c && c ≤ '~' && c ≠ ':'

/-- A line that goes on with the field above it. -/
def isFold (l : Text) : Bool := l.head?.any isBlank

/-- The name of a field and its text, behind the colon and one blank. -/
def field (l : Text) : Option (Text × Text) :=
  let name := l.takeWhile isNameChar
  match l.dropWhile isNameChar with
  | ':' :: v => if name = [] then none else some (name, if v.head? = some ' ' then v.tail else v)
  | _ => none

/-- The folds at the head of some lines, and the fields behind them. -/
def folded : List Text → Option (List Text × List Field)
  | [] => some ([], [])
  | l :: ls => do
    let (folds, fs) ← folded ls
    if isFold l then pure (l :: folds, fs)
    else do
      let (name, v) ← field l
      pure ([], ⟨name, v :: folds⟩ :: fs)

/-- The fields of a header. -/
def fields (ls : List Text) : Option (List Field) :=
  match folded ls with
  | some ([], fs) => some fs
  | _ => none

/-- A field name. -/
def IsName (name : Text) : Prop := name ≠ [] ∧ ∀ c ∈ name, isNameChar c

instance (name : Text) : Decidable (IsName name) :=
  decidable_of_iff (name ≠ [] ∧ name.all isNameChar = true) (and_congr_right' List.all_eq_true)

/-- A field on a line of its own. -/
def fieldLine (f : Text × Text) : Text := f.1 ++ ':' :: ' ' :: f.2

theorem fieldLine_ne_nil (f : Text × Text) : fieldLine f ≠ [] :=
  List.append_ne_nil_of_right_ne_nil _ (List.cons_ne_nil _ _)

/-- A name has no CR or LF. -/
theorem IsName.clean {name : Text} (h : IsName name) : Clean name :=
  ⟨fun hc => absurd (h.2 _ hc) (by decide), fun hc => absurd (h.2 _ hc) (by decide)⟩

theorem clean_fieldLine {f : Text × Text} (hf : IsName f.1 ∧ Clean f.2) : Clean (fieldLine f) :=
  clean_append.mpr ⟨hf.1.clean,
    clean_cons.mpr ⟨by decide, by decide, clean_cons.mpr ⟨by decide, by decide, hf.2⟩⟩⟩

theorem field_fieldLine {f : Text × Text} (hf : IsName f.1) : field (fieldLine f) = some f := by
  have htake : (fieldLine f).takeWhile isNameChar = f.1 := by
    unfold fieldLine
    rw [List.takeWhile_append_of_pos hf.2]
    exact List.append_nil _
  have hdrop : (fieldLine f).dropWhile isNameChar = ':' :: ' ' :: f.2 := by
    unfold fieldLine
    rw [List.dropWhile_append_of_pos hf.2]
    rfl
  unfold field
  rw [htake, hdrop]
  exact if_neg hf.1

theorem not_fold_fieldLine {f : Text × Text} (hf : IsName f.1) : isFold (fieldLine f) = false := by
  obtain ⟨name, v⟩ := f
  cases name with
  | nil => exact absurd rfl hf.1
  | cons c name =>
    have hc := hf.2 c List.mem_cons_self
    show isBlank c = false
    by_contra hblank
    unfold isBlank at hblank
    rw [Bool.not_eq_false, Bool.or_eq_true, decide_eq_true_eq, decide_eq_true_eq] at hblank
    rcases hblank with rfl | rfl
    · exact absurd hc (by decide)
    · exact absurd hc (by decide)

/-- Written fields are read back. -/
theorem fields_map {fs : List (Text × Text)} (hfs : ∀ f ∈ fs, IsName f.1) :
    fields (fs.map fieldLine) = some (fs.map fun f => ⟨f.1, [f.2]⟩) := by
  have hfolded : folded (fs.map fieldLine) = some ([], fs.map fun f => ⟨f.1, [f.2]⟩) := by
    induction fs with
    | nil => rfl
    | cons f fs ih =>
      have hf := hfs f List.mem_cons_self
      rw [List.map_cons, folded, ih fun f hf => hfs f (List.mem_cons_of_mem _ hf)]
      simp only [Option.bind_eq_bind, Option.bind_some, not_fold_fieldLine hf, field_fieldLine hf]
      rfl
  unfold fields
  rw [hfolded]

theorem field_subset {l name v : Text} (h : field l = some (name, v)) : v ⊆ l := by
  unfold field at h
  dsimp only at h
  split at h
  · rename_i v' hdrop
    split at h
    · cases h
    · cases h
      have hsub : v' ⊆ l := fun c hc => by
        have hmem : c ∈ l.dropWhile isNameChar := hdrop ▸ List.mem_cons_of_mem _ hc
        exact (List.dropWhile_suffix _).subset hmem
      split
      · exact fun c hc => hsub (List.mem_of_mem_tail hc)
      · exact hsub
  · cases h

/-- The text of a field stands in the lines it was read from. -/
theorem mem_folded {ls folds : List Text} {fs : List Field} (h : folded ls = some (folds, fs)) :
    folds ⊆ ls ∧ ∀ f ∈ fs, ∀ v ∈ f.value, ∃ l ∈ ls, v ⊆ l := by
  induction ls generalizing folds fs with
  | nil =>
    cases h
    exact ⟨List.Subset.refl _, nofun⟩
  | cons l ls ih =>
    rw [folded] at h
    obtain ⟨⟨folds', fs'⟩, hrest, h⟩ := Option.bind_eq_some_iff.mp h
    obtain ⟨hfolds, hfs⟩ := ih hrest
    have hlater : ∀ f ∈ fs', ∀ v ∈ f.value, ∃ l' ∈ l :: ls, v ⊆ l' := by
      intro f hf v hv
      obtain ⟨l', hl', hsub⟩ := hfs f hf v hv
      exact ⟨l', List.mem_cons_of_mem _ hl', hsub⟩
    dsimp only at h
    split at h
    · cases h
      exact ⟨List.cons_subset_cons _ hfolds, hlater⟩
    · obtain ⟨⟨name, v⟩, hfield, h⟩ := Option.bind_eq_some_iff.mp h
      cases h
      refine ⟨List.nil_subset _, ?_⟩
      intro f hf w hw
      rcases List.mem_cons.mp hf with rfl | hf
      · rcases List.mem_cons.mp hw with rfl | hw
        · exact ⟨l, List.mem_cons_self, field_subset hfield⟩
        · exact ⟨w, List.mem_cons_of_mem _ (hfolds hw), List.Subset.refl _⟩
      · exact hlater f hf w hw

/-- What a field says has no CR or LF, where the lines have none. -/
theorem fields_clean {ls : List Text} {fs : List Field} (h : fields ls = some fs)
    (hls : ∀ l ∈ ls, Clean l) : ∀ f ∈ fs, ∀ v ∈ f.value, Clean v := by
  unfold fields at h
  split at h
  · rename_i hfolded
    cases h
    intro f hf v hv
    obtain ⟨l, hl, hsub⟩ := (mem_folded hfolded).2 f hf v hv
    exact (hls l hl).subset hsub
  · cases h

/-! ## A message -/

/-- A header and a body that nobody has looked into. -/
structure Mail where
  header : List Field
  body : Text
  deriving DecidableEq, Repr

/-- The message that a text is. -/
def mail (s : Text) : Option Mail := do
  let (ls, body) ← block s
  let header ← fields ls
  pure ⟨header, body⟩

/-- **A message of one-line fields is read back.** -/
theorem mail_unlines {fs : List (Text × Text)} (hfs : ∀ f ∈ fs, IsName f.1 ∧ Clean f.2)
    (body : Text) :
    mail (unlines (fs.map fieldLine) ++ crlf ++ body) =
      some ⟨fs.map fun f => ⟨f.1, [f.2]⟩, body⟩ := by
  have hls : ∀ l ∈ fs.map fieldLine, Clean l ∧ l ≠ [] := by
    intro l hl
    obtain ⟨f, hf, rfl⟩ := List.mem_map.mp hl
    exact ⟨clean_fieldLine (hfs f hf), fieldLine_ne_nil f⟩
  unfold mail
  rw [block_unlines hls]
  simp only [Option.bind_eq_bind, Option.bind_some, fields_map fun f hf => (hfs f hf).1]
  rfl

/-- The lines of some fields, one each. -/
def headerLines (fs : List (String × String)) : List Text :=
  fs.map fun f => fieldLine (f.1.toList, f.2.toList)

/-- The fields themselves. -/
def fieldsOf (fs : List (String × String)) : List Field := fs.map fun f => ⟨f.1.toList, [f.2.toList]⟩

theorem headerLines_eq (fs : List (String × String)) :
    headerLines fs = (fs.map fun f => (f.1.toList, f.2.toList)).map fieldLine := by
  rw [List.map_map]
  rfl

theorem fieldsOf_eq (fs : List (String × String)) :
    fieldsOf fs = (fs.map fun f => (f.1.toList, f.2.toList)).map fun f => ⟨f.1, [f.2]⟩ := by
  rw [List.map_map]
  rfl

theorem mem_headerLines {fs : List (String × String)} {l : Text} :
    l ∈ headerLines fs ↔ ∃ f ∈ fs, fieldLine (f.1.toList, f.2.toList) = l := List.mem_map

theorem mail_headerLines {fs : List (String × String)}
    (hfs : ∀ f ∈ fs, IsName f.1.toList ∧ Clean f.2.toList) (body : Text) :
    mail (unlines (headerLines fs) ++ crlf ++ body) = some ⟨fieldsOf fs, body⟩ := by
  rw [headerLines_eq, fieldsOf_eq]
  refine mail_unlines ?_ body
  intro f hf
  obtain ⟨f', hf', rfl⟩ := List.mem_map.mp hf
  exact hfs f' hf'

/-- The text of a field that was read has no CR or LF. -/
theorem mail_clean {s : Text} {m : Mail} (h : mail s = some m) :
    ∀ f ∈ m.header, ∀ v ∈ f.value, Clean v := by
  obtain ⟨⟨ls, body⟩, hblock, h⟩ := Option.bind_eq_some_iff.mp h
  obtain ⟨fs, hfs, h⟩ := Option.bind_eq_some_iff.mp h
  cases h
  exact fields_clean hfs (block_clean hblock)

/-! ## Dates -/

/-- A point of time, as the date of a message has it. -/
structure Stamp where
  weekday : Fin 7
  day : Nat
  month : Fin 12
  year : Nat
  hour : Nat
  minute : Nat
  second : Nat
  deriving DecidableEq, Repr

def weekdayName (d : Fin 7) : Text :=
  (["Sun", "Mon", "Tue", "Wed", "Thu", "Fri", "Sat"].get d).toList

def monthName (m : Fin 12) : Text :=
  (["Jan", "Feb", "Mar", "Apr", "May", "Jun", "Jul", "Aug", "Sep", "Oct", "Nov", "Dec"].get
    m).toList

/-- A number in at least `w` digits. -/
def padded (w n : Nat) : Text :=
  List.replicate (w - (Nat.toDigits 10 n).length) '0' ++ Nat.toDigits 10 n

/-- The date in a zone. -/
def Stamp.written (t : Stamp) (zone : String) : String :=
  String.ofList (weekdayName t.weekday ++ ", ".toList ++ padded 2 t.day ++ " ".toList ++
    monthName t.month ++ " ".toList ++ padded 4 t.year ++ " ".toList ++ padded 2 t.hour ++
    ":".toList ++ padded 2 t.minute ++ ":".toList ++ padded 2 t.second ++ " ".toList ++
    zone.toList)

example : (⟨3, 4, 5, 2025, 9, 8, 7⟩ : Stamp).written "+0000" = "Wed, 04 Jun 2025 09:08:07 +0000" := by
  decide

theorem clean_padded (w n : Nat) : Clean (padded w n) := by
  have hdigit : ∀ c ∈ padded w n, c.isDigit = true := by
    intro c hc
    rcases List.mem_append.mp hc with hc | hc
    · rw [List.eq_of_mem_replicate hc]
      rfl
    · exact Nat.isDigit_of_mem_toDigits (by decide) (by decide) hc
  exact ⟨fun h => absurd (hdigit _ h) (by decide), fun h => absurd (hdigit _ h) (by decide)⟩

theorem Stamp.clean_written (t : Stamp) {zone : String} (hzone : Clean zone.toList) :
    Clean (t.written zone).toList := by
  have hweekday : ∀ d, Clean (weekdayName d) := by decide
  have hmonth : ∀ m, Clean (monthName m) := by decide
  have hcomma : Clean ", ".toList := by simp [Clean]
  have hblank : Clean " ".toList := by simp [Clean]
  have hcolon : Clean ":".toList := by simp [Clean]
  unfold Stamp.written
  simp only [String.toList_ofList, clean_append, hweekday, hmonth, hcomma, hblank, hcolon,
    clean_padded, hzone, and_self]

/-! ## Parameters -/

/-- The quoted text of a parameter, if the piece is that parameter. -/
def quoted (name piece : Text) : Option Text :=
  let start := name ++ ['=', '"']
  let text := piece.dropWhile isBlank
  if start.isPrefixOf text then some ((text.drop start.length).takeWhile (· ≠ '"')) else none

/-- A parameter of a field such as `Content-Type`. -/
def parameter (name value : Text) : Option Text := (value.splitOn ';').tail.findSome? (quoted name)

/-- What stands in front of the parameters. -/
def mediaType (value : Text) : Text := (value.splitOn ';').headD []

theorem quoted_self {name text : Text} (hname : isFold (name ++ ['=', '"']) = false)
    (htext : '"' ∉ text) :
    quoted name (' ' :: (name ++ ['=', '"'] ++ (text ++ ['"']))) = some text := by
  have hdrop : (' ' :: (name ++ ['=', '"'] ++ (text ++ ['"']))).dropWhile isBlank =
      name ++ ['=', '"'] ++ (text ++ ['"']) := by
    rw [List.dropWhile_cons_of_pos rfl]
    cases name with
    | nil => rfl
    | cons c name =>
      have hc : isBlank c = false := hname
      exact List.dropWhile_cons_of_neg (by rw [hc]; decide)
  have htake : (text ++ ['"']).takeWhile (· ≠ '"') = text := by
    rw [List.takeWhile_append_of_pos]
    · exact List.append_nil _
    · intro c hc
      simpa using ne_of_mem_of_not_mem hc htext
  unfold quoted
  dsimp only
  rw [hdrop, if_pos (List.isPrefixOf_iff_prefix.mpr (List.prefix_append _ _)), List.drop_left, htake]

/-! ## Parts -/

/-- The line in front of a part. -/
def delimiter (b : Text) : Text := '-' :: '-' :: b

/-- The line behind the last part. -/
def closing (b : Text) : Text := '-' :: '-' :: b ++ ['-', '-']

/-- The parts, from within the first; none where they are not closed. -/
def inside (b : Text) : List Text → Option (List (List Text))
  | [] => none
  | l :: ls =>
    if l = closing b then some [[]]
    else
      match inside b ls with
      | none | some [] => none
      | some (p :: ps) => if l = delimiter b then some ([] :: p :: ps) else some ((l :: p) :: ps)

/-- The parts of a multipart body, by lines.  What stands in front of them and behind them is no
    part. -/
def parts (b : Text) (ls : List Text) : Option (List (List Text)) :=
  match ls.dropWhile (· ≠ delimiter b) with
  | _ :: ls => inside b ls
  | [] => none

theorem clean_delimiter {b : Text} (hb : Clean b) : Clean (delimiter b) :=
  clean_cons.mpr ⟨by decide, by decide, clean_cons.mpr ⟨by decide, by decide, hb⟩⟩

theorem clean_closing {b : Text} (hb : Clean b) : Clean (closing b) :=
  clean_append.mpr ⟨clean_delimiter hb, by decide⟩

/-- A line that is neither delimiter. -/
def Inner (b l : Text) : Prop := l ≠ delimiter b ∧ l ≠ closing b

instance (b l : Text) : Decidable (Inner b l) := inferInstanceAs (Decidable (_ ∧ _))

/-- A delimiter starts with a dash. -/
theorem inner_of_head {b l : Text} (h : l.head? ≠ some '-') : Inner b l := by
  constructor
  · rintro rfl
    exact h rfl
  · rintro rfl
    exact h rfl

theorem inside_closing {b : Text} {p : List Text} (hp : ∀ l ∈ p, Inner b l) (after : List Text) :
    inside b (p ++ closing b :: after) = some [p] := by
  induction p with
  | nil => exact if_pos rfl
  | cons l p ih =>
    obtain ⟨hdelim, hclose⟩ := hp l List.mem_cons_self
    show (if l = closing b then _ else _) = _
    rw [if_neg hclose]
    show (match inside b (p ++ closing b :: after) with | none | some [] => _ | some (p :: ps) => _)
      = _
    rw [ih fun l hl => hp l (List.mem_cons_of_mem _ hl)]
    exact if_neg hdelim

theorem inside_delimiter {b : Text} {p ls : List Text} {q : List Text} {ps : List (List Text)}
    (hp : ∀ l ∈ p, Inner b l) (hls : inside b ls = some (q :: ps)) :
    inside b (p ++ delimiter b :: ls) = some (p :: q :: ps) := by
  induction p with
  | nil =>
    have hne : delimiter b ≠ closing b := by
      intro h
      have hlength := congrArg List.length h
      simp [delimiter, closing] at hlength
    show (if delimiter b = closing b then _ else _) = _
    rw [if_neg hne, hls]
    exact if_pos rfl
  | cons l p ih =>
    obtain ⟨hdelim, hclose⟩ := hp l List.mem_cons_self
    show (if l = closing b then _ else _) = _
    rw [if_neg hclose]
    show (match inside b (p ++ delimiter b :: ls) with | none | some [] => _ | some (p :: ps) => _)
      = _
    rw [ih fun l hl => hp l (List.mem_cons_of_mem _ hl)]
    exact if_neg hdelim

/-- Two written parts are read back. -/
theorem parts_two {b : Text} {p q after : List Text} (hp : ∀ l ∈ p, Inner b l)
    (hq : ∀ l ∈ q, Inner b l) :
    parts b (delimiter b :: p ++ delimiter b :: q ++ closing b :: after) = some [p, q] := by
  unfold parts
  rw [List.append_assoc, List.cons_append, List.dropWhile_cons_of_neg (by simp)]
  exact inside_delimiter hp (inside_closing hq after)

theorem inside_subset {b : Text} {ls : List Text} {ps : List (List Text)}
    (h : inside b ls = some ps) : ∀ p ∈ ps, p ⊆ ls := by
  induction ls generalizing ps with
  | nil => cases h
  | cons l ls ih =>
    unfold inside at h
    split at h
    · cases h
      intro p hp
      rw [List.mem_singleton.mp hp]
      exact List.nil_subset _
    · split at h
      · cases h
      · cases h
      · rename_i p ps' hls
        have hrest := ih hls
        have hlater : ∀ p' ∈ p :: ps', p' ⊆ l :: ls := fun p' hp' =>
          List.Subset.trans (hrest p' hp') (List.subset_cons_self l ls)
        split at h
        · cases h
          intro p' hp'
          rcases List.mem_cons.mp hp' with rfl | hp'
          · exact List.nil_subset _
          · exact hlater p' hp'
        · cases h
          intro p' hp'
          rcases List.mem_cons.mp hp' with rfl | hp'
          · exact List.cons_subset_cons _ (hrest p List.mem_cons_self)
          · exact hlater p' (List.mem_cons_of_mem _ hp')

theorem parts_subset {b : Text} {ls : List Text} {ps : List (List Text)}
    (h : parts b ls = some ps) : ∀ p ∈ ps, p ⊆ ls := by
  unfold parts at h
  split at h
  · rename_i l ls' hdrop
    intro p hp c hc
    have hmem : c ∈ ls.dropWhile (· ≠ delimiter b) :=
      hdrop ▸ List.mem_cons_of_mem _ (inside_subset h p hp hc)
    exact (List.dropWhile_suffix _).subset hmem
  · cases h

/-! ## Delivery reports -/

/-- A header of its own, and the lines behind its empty line. -/
structure Part where
  header : List Field
  body : List Text
  deriving DecidableEq, Repr

def part (ls : List Text) : Option Part :=
  match ls.dropWhile (· ≠ []) with
  | _ :: body => (fields (ls.takeWhile (· ≠ []))).map (⟨·, body⟩)
  | [] => none

/-- The fields of a group, which is not empty. -/
def group (ls : List Text) : Option (List Field) := if ls = [] then none else fields ls

/-- The groups of a delivery status, between the empty lines.  Every line of it is ended, so
    nothing follows the last. -/
def status (ls : List Text) : Option (List (List Field)) :=
  match (ls.splitOn []).getLast? with
  | some [] => (ls.splitOn []).dropLast.mapM group
  | _ => none

/-- A delivery report: the header of the message, its part for humans, the header of the part for
    machines, and in that the fields of the message and those of each recipient. -/
structure Report where
  header : List Field
  notice : Part
  statusHeader : List Field
  message : List Field
  recipients : List (List Field)
  deriving DecidableEq, Repr

/-- The text of the field of that name, unfolded. -/
def valueOf (name : Text) (fs : List Field) : Option Text :=
  (fs.find? fun f => f.name.map Char.toLower = name).map fun f => f.value.flatten

/-- The last field has the name, and no other. -/
theorem valueOf_append {name : Text} {fs : List (String × String)} {f : String × String}
    (hother : ∀ g ∈ fs, g.1.toList.map Char.toLower ≠ name)
    (hf : f.1.toList.map Char.toLower = name) :
    valueOf name (fieldsOf (fs ++ [f])) = some f.2.toList := by
  have hnone : (fieldsOf fs).find? (fun g => decide (g.name.map Char.toLower = name)) = none := by
    rw [List.find?_eq_none]
    intro g hg
    obtain ⟨g', hg', rfl⟩ := List.mem_map.mp hg
    simpa using hother g' hg'
  have hsome : (fieldsOf [f]).find? (fun g => decide (g.name.map Char.toLower = name)) =
      some ⟨f.1.toList, [f.2.toList]⟩ := List.find?_cons_of_pos (decide_eq_true hf)
  have happend : fieldsOf (fs ++ [f]) = fieldsOf fs ++ fieldsOf [f] := List.map_append
  unfold valueOf
  rw [happend, List.find?_append, hnone, hsome]
  exact congrArg some (List.append_nil _)

/-- The report that a message is.  It has two parts, and a group for at least one recipient. -/
def report (m : Mail) : Option Report := do
  let type ← valueOf "content-type".toList m.header
  let b ← parameter "boundary".toList type
  if mediaType type ≠ "multipart/report".toList then none
  else
    let ls ← lines m.body
    match ← parts b ls with
    | [p, q] => do
      let notice ← part p
      let machine ← part q
      match ← status machine.body with
      | message :: r :: rs => pure ⟨m.header, notice, machine.header, message, r :: rs⟩
      | _ => none
    | _ => none

theorem part_append {fs : List (Text × Text)} (hfs : ∀ f ∈ fs, IsName f.1) (body : List Text) :
    part (fs.map fieldLine ++ [] :: body) = some ⟨fs.map fun f => ⟨f.1, [f.2]⟩, body⟩ := by
  have hne : ∀ l ∈ fs.map fieldLine, decide (l ≠ []) = true := by
    intro l hl
    obtain ⟨f, -, rfl⟩ := List.mem_map.mp hl
    exact decide_eq_true (fieldLine_ne_nil f)
  unfold part
  rw [List.dropWhile_append_of_pos hne, List.takeWhile_append_of_pos hne]
  show (fields (fs.map fieldLine ++ [])).map _ = _
  rw [List.append_nil, fields_map hfs]
  rfl

theorem part_headerLines {fs : List (String × String)} (hfs : ∀ f ∈ fs, IsName f.1.toList)
    (body : List Text) : part (headerLines fs ++ [] :: body) = some ⟨fieldsOf fs, body⟩ := by
  rw [headerLines_eq, fieldsOf_eq]
  refine part_append ?_ body
  intro f hf
  obtain ⟨f', hf', rfl⟩ := List.mem_map.mp hf
  exact hfs f' hf'

theorem part_subset {ls : List Text} {p : Part} (h : part ls = some p) : p.body ⊆ ls := by
  unfold part at h
  split at h
  · rename_i l body hdrop
    obtain ⟨fs, -, rfl⟩ := Option.map_eq_some_iff.mp h
    intro c hc
    have hmem : c ∈ ls.dropWhile (· ≠ []) := hdrop ▸ List.mem_cons_of_mem _ hc
    exact (List.dropWhile_suffix _).subset hmem
  · cases h

/-- No line of the notice has a CR or an LF. -/
theorem report_clean {m : Mail} {r : Report} (h : report m = some r) :
    ∀ l ∈ r.notice.body, Clean l := by
  obtain ⟨type, -, h⟩ := Option.bind_eq_some_iff.mp h
  obtain ⟨b, -, h⟩ := Option.bind_eq_some_iff.mp h
  split at h
  · cases h
  obtain ⟨ls, hlines, h⟩ := Option.bind_eq_some_iff.mp h
  obtain ⟨ps, hparts, h⟩ := Option.bind_eq_some_iff.mp h
  split at h
  · rename_i p q
    obtain ⟨notice, hnotice, h⟩ := Option.bind_eq_some_iff.mp h
    obtain ⟨machine, -, h⟩ := Option.bind_eq_some_iff.mp h
    obtain ⟨gs, -, h⟩ := Option.bind_eq_some_iff.mp h
    split at h
    · cases h
      intro l hl
      exact lines_clean hlines l
        (parts_subset hparts p List.mem_cons_self (part_subset hnotice hl))
    · cases h
  · cases h

/-- A written group: its fields. -/
def GroupOf (g : List (Text × Text)) : Prop := g ≠ [] ∧ ∀ f ∈ g, IsName f.1

theorem splitOn_written (g : List (Text × Text)) (gs : List (List (Text × Text))) :
    List.splitOn ([] : Text)
        (g.map fieldLine ++ (gs.flatMap (fun g => [] :: g.map fieldLine) ++ [[]])) =
      (g :: gs).map (List.map fieldLine) ++ [[]] := by
  have hnil : ∀ g : List (Text × Text), [] ∉ g.map fieldLine := by
    intro g hg
    obtain ⟨f, -, hf⟩ := List.mem_map.mp hg
    exact fieldLine_ne_nil f hf
  induction gs generalizing g with
  | nil => exact List.splitOn_append_cons_self_of_not_mem (hnil g) []
  | cons g' gs ih =>
    rw [List.flatMap_cons, List.append_assoc, List.cons_append,
      List.splitOn_append_cons_self_of_not_mem (hnil g), ih g']
    rfl

theorem mapM_group {gs : List (List (Text × Text))} (hgs : ∀ g ∈ gs, GroupOf g) :
    (gs.map (List.map fieldLine)).mapM group =
      some (gs.map fun g => g.map fun f => (⟨f.1, [f.2]⟩ : Field)) := by
  induction gs with
  | nil => rfl
  | cons g gs ih =>
    obtain ⟨hne, hname⟩ := hgs g List.mem_cons_self
    have hgroup : group (g.map fieldLine) = some (g.map fun f => ⟨f.1, [f.2]⟩) := by
      unfold group
      rw [if_neg (mt List.map_eq_nil_iff.mp hne), fields_map hname]
    rw [List.map_cons, List.mapM_cons, hgroup, ih fun g hg => hgs g (List.mem_cons_of_mem _ hg)]
    rfl

/-- **Written groups are read back.** -/
theorem status_groups {g : List (Text × Text)} {gs : List (List (Text × Text))}
    (hgs : ∀ g' ∈ g :: gs, GroupOf g') :
    status (g.map fieldLine ++ (gs.flatMap (fun g => [] :: g.map fieldLine) ++ [[]])) =
      some ((g :: gs).map fun g => g.map fun f => ⟨f.1, [f.2]⟩) := by
  unfold status
  rw [splitOn_written, List.getLast?_concat, List.dropLast_concat]
  exact mapM_group hgs

theorem status_headerLines {g : List (String × String)} {gs : List (List (String × String))}
    (hgs : ∀ g' ∈ g :: gs, g' ≠ [] ∧ ∀ f ∈ g', IsName f.1.toList) :
    status (headerLines g ++ (gs.flatMap (fun g => [] :: headerLines g) ++ [[]])) =
      some ((g :: gs).map fieldsOf) := by
  let texts : List (String × String) → List (Text × Text) :=
    fun g => g.map fun f => (f.1.toList, f.2.toList)
  have hwritten : ∀ g' ∈ texts g :: gs.map texts, GroupOf g' := by
    intro g' hg'
    obtain ⟨g'', hg'', rfl⟩ := List.mem_map.mp (show g' ∈ (g :: gs).map texts from hg')
    obtain ⟨hne, hname⟩ := hgs g'' hg''
    refine ⟨mt List.map_eq_nil_iff.mp hne, ?_⟩
    intro f hf
    obtain ⟨f', hf', rfl⟩ := List.mem_map.mp hf
    exact hname f' hf'
  have hlines : headerLines = fun g => (texts g).map fieldLine := funext headerLines_eq
  have hfields : fieldsOf = fun g => (texts g).map fun f => ⟨f.1, [f.2]⟩ := funext fieldsOf_eq
  have hstatus := status_groups hwritten
  rw [List.flatMap_map] at hstatus
  rw [hlines, hfields, hstatus, ← List.map_cons, List.map_map]
  rfl

/-! ### A written report -/

/-- The lines of the body of a report: a header and a notice, and a header and groups, each part
    behind its delimiter. -/
def reportLines (b : Text) (h : List (String × String)) (notice : List Text)
    (h' message : List (String × String)) (gs : List (List (String × String))) : List Text :=
  delimiter b :: (headerLines h ++ [] :: notice) ++
    delimiter b :: (headerLines h' ++ [] ::
      (headerLines message ++ (gs.flatMap (fun g => [] :: headerLines g) ++ [[]]))) ++
    [closing b]

/-- A field that stands on a line of its own and is no delimiter. -/
def Plain (f : String × String) : Prop :=
  IsName f.1.toList ∧ Clean f.2.toList ∧ f.1.toList.head? ≠ some '-'

/-- A line that is clean and no delimiter. -/
def PlainLine (l : Text) : Prop := Clean l ∧ l.head? ≠ some '-'

theorem plainLine_nil : PlainLine [] := ⟨by decide, by decide⟩

theorem plainLine_headerLines {fs : List (String × String)} (hfs : ∀ f ∈ fs, Plain f) :
    ∀ l ∈ headerLines fs, PlainLine l := by
  intro l hl
  obtain ⟨f, hf, rfl⟩ := mem_headerLines.mp hl
  obtain ⟨hname, hvalue, hhead⟩ := hfs f hf
  refine ⟨clean_fieldLine ⟨hname, hvalue⟩, ?_⟩
  unfold fieldLine
  rw [List.head?_append_of_ne_nil _ hname.1]
  exact hhead

section

variable {b : Text} {h h' message : List (String × String)} {notice : List Text}
  {gs : List (List (String × String))}

theorem plainLine_part (hh : ∀ f ∈ h, Plain f) (hnotice : ∀ l ∈ notice, PlainLine l) :
    ∀ l ∈ headerLines h ++ [] :: notice, PlainLine l := by
  intro l hl
  rcases List.mem_append.mp hl with hl | hl
  · exact plainLine_headerLines hh l hl
  · rcases List.mem_cons.mp hl with rfl | hl
    · exact plainLine_nil
    · exact hnotice l hl

theorem plainLine_status (hgs : ∀ g ∈ message :: gs, g ≠ [] ∧ ∀ f ∈ g, Plain f) :
    ∀ l ∈ headerLines message ++ (gs.flatMap (fun g => [] :: headerLines g) ++ [[]]),
      PlainLine l := by
  intro l hl
  rcases List.mem_append.mp hl with hl | hl
  · exact plainLine_headerLines (hgs message List.mem_cons_self).2 l hl
  rcases List.mem_append.mp hl with hl | hl
  · obtain ⟨g, hg, hl⟩ := List.mem_flatMap.mp hl
    rcases List.mem_cons.mp hl with rfl | hl
    · exact plainLine_nil
    · exact plainLine_headerLines (hgs g (List.mem_cons_of_mem _ hg)).2 l hl
  · rw [List.mem_singleton.mp hl]
    exact plainLine_nil

/-- The text of a report depends on the texts of the notice and of the groups alone. -/
theorem unlines_reportLines : unlines (reportLines b h notice h' message gs) =
    unlines (delimiter b :: (headerLines h ++ [[]])) ++ unlines notice ++
      unlines (delimiter b :: (headerLines h' ++ [] :: headerLines message)) ++
      unlines (gs.flatMap fun g => [] :: headerLines g) ++ unlines [[], closing b] := by
  rw [← unlines_append, ← unlines_append, ← unlines_append, ← unlines_append]
  unfold reportLines
  simp only [List.append_assoc, List.cons_append, List.nil_append]

/-- **A written report is read back**: its header names the boundary, its lines are plain, and there
    is a group for at least one recipient. -/
theorem report_reportLines {header : List Field} {type : Text}
    (htype : valueOf "content-type".toList header = some type)
    (hmedia : mediaType type = "multipart/report".toList)
    (hboundary : parameter "boundary".toList type = some b) (hb : Clean b)
    (hh : ∀ f ∈ h, Plain f) (hnotice : ∀ l ∈ notice, PlainLine l) (hh' : ∀ f ∈ h', Plain f)
    (hgs : ∀ g ∈ message :: gs, g ≠ [] ∧ ∀ f ∈ g, Plain f) (hne : gs ≠ []) :
    report ⟨header, unlines (reportLines b h notice h' message gs)⟩ =
      some ⟨header, ⟨fieldsOf h, notice⟩, fieldsOf h', fieldsOf message, gs.map fieldsOf⟩ := by
  have hfirst := plainLine_part hh hnotice
  have hsecond := plainLine_part hh' (plainLine_status hgs)
  have hlines : lines (unlines (reportLines b h notice h' message gs)) =
      some (reportLines b h notice h' message gs) := by
    refine lines_unlines fun l hl => ?_
    rcases List.mem_append.mp hl with hl | hl
    · rcases List.mem_append.mp hl with hl | hl
      · rcases List.mem_cons.mp hl with rfl | hl
        · exact clean_delimiter hb
        · exact (hfirst l hl).1
      · rcases List.mem_cons.mp hl with rfl | hl
        · exact clean_delimiter hb
        · exact (hsecond l hl).1
    · rw [List.mem_singleton.mp hl]
      exact clean_closing hb
  have hparts : parts b (reportLines b h notice h' message gs) = some
      [headerLines h ++ [] :: notice, headerLines h' ++ [] ::
        (headerLines message ++ (gs.flatMap (fun g => [] :: headerLines g) ++ [[]]))] :=
    parts_two (fun l hl => inner_of_head (hfirst l hl).2)
      fun l hl => inner_of_head (hsecond l hl).2
  have hpart := part_headerLines (fun f hf => (hh f hf).1) notice
  have hpart' := part_headerLines (fun f hf => (hh' f hf).1)
    (headerLines message ++ (gs.flatMap (fun g => [] :: headerLines g) ++ [[]]))
  have hstatus := status_headerLines fun g hg => ⟨(hgs g hg).1, fun f hf => ((hgs g hg).2 f hf).1⟩
  obtain ⟨g, gs, rfl⟩ := List.exists_cons_of_ne_nil hne
  simp only [report, htype, hboundary, hmedia, hlines, hparts, hpart, hpart', hstatus,
    Option.bind_eq_bind, Option.bind_some, ne_eq, not_true_eq_false, if_false]
  rfl

end

end Novamail.Core.Mime

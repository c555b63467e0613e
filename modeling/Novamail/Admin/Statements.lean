/-
  The statements that the Admin API puts together from a request: the generic create and update
  routes, accounts and the message list of `routes.ts`, and alert channels of `alerts.ts`.

  Every builder goes through its columns in a fixed order and pushes a value, and a fragment with
  the value's number, for each column that the request has.  The module first writes the builders
  down as the source has them, then says what each column is bound to, and proves for all of them
  that text and values stay aligned.
-/
import Mathlib.Algebra.Order.Monoid.Unbundled.WithTop
import Mathlib.Algebra.Order.Ring.Rat
import Novamail.Core.Sql
import Novamail.Core.Words

namespace Novamail.Admin

open Novamail.Core Novamail.Core.Sql

/-! ## Requests -/

/-- A JavaScript number other than `NaN`. -/
abbrev Number := WithBot (WithTop Rat)

/-- A value of `JSON.parse`. -/
inductive Json
  | null
  | bool (b : Bool)
  | num (x : Number)
  | str (s : String)
  | arr (vs : List Json)
  | obj (fields : List (String × Json))

/-- `undefined` and what a property of a body is; the last of two members of one name counts, and
    only objects have any of the names that are asked for. -/
def Json.field (name : String) : Json → Option Json
  | .obj fields => (fields.reverse.find? fun f => f.1 = name).map Prod.snd
  | _ => none

/-- A value that `if` takes for true. -/
def Json.truthy : Json → Bool
  | .null => false
  | .bool b => b
  | .num x => x ≠ 0
  | .str s => s ≠ ""
  | .arr _ => true
  | .obj _ => true

/-- A parameter of a query string, once or several times. -/
inductive Param
  | one (s : String)
  | many (ss : List String)
  deriving DecidableEq, Repr

def Param.truthy : Param → Bool
  | .one s => s ≠ ""
  | .many _ => true

/-- `String(v)`. -/
def Param.text : Param → String
  | .one s => s
  | .many ss => ",".intercalate ss

/-- A value as it is bound to a placeholder. -/
inductive Bound
  | json (v : Json)
  | text (s : String)
  | texts (ss : List String)
  | number (x : Number)

def Param.bound : Param → Bound
  | .one s => .text s
  | .many ss => .texts ss

/-- How a handler ends without a statement. -/
inductive Early
  /-- `reply.code(400).send({ error })`. -/
  | badRequest (error : String)
  /-- An exception. -/
  | thrown
  deriving DecidableEq, Repr

/-- `body[name]`, an exception of `null`, which is also a request without a body. -/
def Json.prop (body : Json) (name : String) : Except Early (Option Json) :=
  match body with
  | .null => .error .thrown
  | body => .ok (body.field name)

/-! ## `routes.ts` -/

/-- `Resource`, without the `slice` of its event. -/
structure Resource where
  table : String
  pk : String
  cols : List String
  deriving DecidableEq, Repr

/-- The first of `RESOURCES`. -/
def providers : Resource :=
  ⟨"providers", "id", ["name", "type", "endpoint", "auth_mode", "enabled", "secret_ref"]⟩

/-- `RESOURCES`. -/
def resources : List (String × Resource) :=
  [ ("providers", providers)
  , ("routing-rules", ⟨"routing_rules", "id",
      ["recipient_domain", "sender_domain", "provider_chain", "priority", "enabled"]⟩)
  , ("relay-domains", ⟨"relay_domains", "domain", ["domain", "enabled"]⟩)
  , ("rate-limits", ⟨"rate_limits", "id",
      ["direction", "scope", "scope_value", "per_second", "burst", "enabled"]⟩)
  , ("relay-clients", ⟨"relay_clients", "id",
      ["cidr", "description", "allowed_sender_domains", "enabled"]⟩)
  , ("dkim-keys", ⟨"dkim_keys", "id",
      ["domain", "selector", "private_ref", "public_key", "rotation"]⟩)
  , ("tls-policy", ⟨"tls_policy", "id", ["min_version", "starttls_required", "provider_id"]⟩) ]

/-- The loop body of `pick`. -/
def pickColumn (body : Json) (picked : List String × List Json) (c : String) :
    Except Early (List String × List Json) := do
  match ← body.prop c with
  | some v => pure (picked.1 ++ [c], picked.2 ++ [v])
  | none => pure picked

/-- `pick`. -/
def pick (body : Json) (cols : List String) : Except Early (List String × List Json) :=
  cols.foldlM (pickColumn body) ([], [])

/-- `POST /api/${name}`. -/
def postResource (r : Resource) (body : Json) : Except Early (Statement Bound) := do
  let (keys, vals) ← pick body r.cols
  if keys.length = 0 then throw (.badRequest "no writable fields")
  else
    let ph := ",".intercalate (vals.mapIdx fun i _ => slot (i + 1))
    pure
      { text := "INSERT INTO " ++ r.table ++ " (" ++ ",".intercalate keys ++ ") VALUES (" ++ ph ++
          ") RETURNING *"
        vals := vals.map .json }

/-- A column and the placeholder of its value. -/
def assign (c : String) (k : Nat) : String := c ++ "=" ++ slot k

/-- `PUT /api/${name}/:id`. -/
def putResource (r : Resource) (body : Json) (id : String) : Except Early (Statement Bound) := do
  let (keys, vals) ← pick body r.cols
  if keys.length = 0 then throw (.badRequest "no writable fields")
  else
    let set := ",".intercalate (keys.mapIdx fun i k => assign k (i + 1))
    pure
      { text := "UPDATE " ++ r.table ++ " SET " ++ set ++ " WHERE " ++ r.pk ++ "=" ++
          slot (keys.length + 1) ++ " RETURNING *"
        vals := vals.map .json ++ [.text id] }

/-- What `PUT /api/accounts/:id` writes; `hash` is `bcrypt.hash`, none where it throws. -/
def accountSets (hash : Json → Option String) (b : Json) : Except Early (Sets Bound) := do
  let s : Sets Bound := {}
  let s := s.pushSome ((← b.prop "allowed_sender_domains").map .json)
    (assign "allowed_sender_domains")
  let s := s.pushSome ((← b.prop "ip_allowlist").map .json) (assign "ip_allowlist")
  let s := s.pushSome ((← b.prop "enabled").map .json) (assign "enabled")
  match (← b.prop "password").filter Json.truthy with
  | none => pure s
  | some password =>
    match hash password with
    | some h => pure (s.push (.text h) (assign "password_hash"))
    | none => throw .thrown

/-- `PUT /api/accounts/:id`. -/
def putAccount (hash : Json → Option String) (b : Json) (id : String) :
    Except Early (Statement Bound) := do
  let s ← accountSets hash b
  if s.sets.length = 0 then throw (.badRequest "no writable fields")
  else
    let vals := s.vals ++ [.text id]
    pure
      { text := "UPDATE accounts SET " ++ ",".intercalate s.sets ++ " WHERE id=" ++
          slot vals.length ++ "\n       RETURNING id, username, allowed_sender_domains, enabled"
        vals }

/-- The fragment of a filter of the message list. -/
def filterText (name : String) (k : Nat) : String :=
  if name = "q" then
    "(mail_from ILIKE " ++ slot k ++ " OR array_to_string(rcpt_to,',') ILIKE " ++ slot k ++ ")"
  else assign name k

/-- `Math.min(Number(q.limit) || 100, 500)`; `number` is `Number`, none for `NaN`. -/
def listLimit (number : Option Param → Option Number) (limit : Option Param) : Number :=
  min ((number limit).filter (· ≠ 0) |>.getD 100) 500

/-- `GET /api/messages`. -/
def listMessages (number : Option Param → Option Number) (query : String → Option Param) :
    Statement Bound :=
  let s : Sets Bound := {}
  let s := s.pushSome (((query "status").filter Param.truthy).map Param.bound) (filterText "status")
  let s := s.pushSome (((query "q").filter Param.truthy).map fun q => .text ("%" ++ q.text ++ "%"))
    (filterText "q")
  let params := s.vals ++ [.number (listLimit number (query "limit"))]
  { text :=
      "SELECT id, mail_from, rcpt_to, status, attempts, subject, size_bytes, created_at, " ++
        "updated_at FROM messages\n       " ++
        (if s.sets.length ≠ 0 then "WHERE " ++ " AND ".intercalate s.sets else "") ++
        "\n       ORDER BY created_at DESC LIMIT " ++ slot params.length
    vals := params }

/-! ## `alerts.ts` -/

/-- `b.min_severity === "error" ? "error" : "warning"`. -/
def severity : Json → String
  | .str s => if s = "error" then "error" else "warning"
  | _ => "warning"

/-- What `PUT /api/alert-channels/:id` writes; `encrypt` is none where it throws. -/
def channelSets (validWebhookURL : Json → Bool) (encrypt : Json → Option String) (b : Json) :
    Except Early (Sets Bound) := do
  let s : Sets Bound := {}
  let s := s.pushSome ((← b.prop "name").map .json) (assign "name")
  let s := s.pushSome ((← b.prop "min_severity").map fun v => .text (severity v))
    (assign "min_severity")
  let s := s.pushSome ((← b.prop "enabled").map .json) (assign "enabled")
  let s := s.pushSome ((← b.prop "target").map .json) (assign "target")
  match (← b.prop "url").filter Json.truthy with
  | none => pure s
  | some url =>
    if !validWebhookURL url then throw (.badRequest "url must be http(s)")
    else
      match encrypt url with
      | some e => pure (s.push (.text e) (assign "secret"))
      | none => throw .thrown

/-- `PUT /api/alert-channels/:id`. -/
def putAlertChannel (validWebhookURL : Json → Bool) (encrypt : Json → Option String) (b : Json)
    (id : String) : Except Early (Statement Bound) := do
  let s ← channelSets validWebhookURL encrypt b
  if s.sets.length = 0 then throw (.badRequest "no writable fields")
  else
    let vals := s.vals ++ [.text id]
    pure
      { text := "update alert_channels set " ++ ",".intercalate s.sets ++ " where id=" ++
          slot vals.length ++ " returning id, name, type, min_severity, enabled"
        vals }

/-! ## What the columns are bound to -/

/-- The columns of a resource, each with what the body has for it. -/
def resourceCols (r : Resource) (body : Json) : List (String × Option Bound) :=
  r.cols.map fun c => (c, (body.field c).map .json)

/-- The columns of an account: a password that is not empty is hashed. -/
def accountCols (hash : Json → Option String) (b : Json) : List (String × Option Bound) :=
  [ ("allowed_sender_domains", (b.field "allowed_sender_domains").map .json)
  , ("ip_allowlist", (b.field "ip_allowlist").map .json)
  , ("enabled", (b.field "enabled").map .json)
  , ("password_hash", (((b.field "password").filter Json.truthy).bind hash).map .text) ]

/-- The columns of an alert channel: the severity is normalised, and a URL that is not empty
    encrypted. -/
def channelCols (encrypt : Json → Option String) (b : Json) : List (String × Option Bound) :=
  [ ("name", (b.field "name").map .json)
  , ("min_severity", (b.field "min_severity").map fun v => .text (severity v))
  , ("enabled", (b.field "enabled").map .json)
  , ("target", (b.field "target").map .json)
  , ("secret", (((b.field "url").filter Json.truthy).bind encrypt).map .text) ]

/-- The filters of the message list: the search term stands between two percent signs. -/
def filterCols (query : String → Option Param) : List (String × Option Bound) :=
  [ ("status", ((query "status").filter Param.truthy).map Param.bound)
  , ("q", ((query "q").filter Param.truthy).map fun q => .text ("%" ++ q.text ++ "%")) ]

/-! ## The texts, of the names of columns -/

def insertText (r : Resource) (names : List String) : String :=
  "INSERT INTO " ++ r.table ++ " (" ++ ",".intercalate names ++ ") VALUES (" ++
    ",".intercalate (numbered (fun _ => slot) names) ++ ") RETURNING *"

/-- The text of an update: the assignments, and the row. -/
def updateText (front middle back : String) (names : List String) : String :=
  front ++ ",".intercalate (numbered assign names) ++ middle ++ slot (names.length + 1) ++ back

def resourceText (r : Resource) : List String → String :=
  updateText ("UPDATE " ++ r.table ++ " SET ") (" WHERE " ++ r.pk ++ "=") " RETURNING *"

def accountText : List String → String :=
  updateText "UPDATE accounts SET " " WHERE id="
    "\n       RETURNING id, username, allowed_sender_domains, enabled"

def channelText : List String → String :=
  updateText "update alert_channels set " " where id="
    " returning id, name, type, min_severity, enabled"

def messagesText (names : List String) : String :=
  "SELECT id, mail_from, rcpt_to, status, attempts, subject, size_bytes, created_at, " ++
    "updated_at FROM messages\n       " ++
    (if names.length ≠ 0 then "WHERE " ++ " AND ".intercalate (numbered filterText names) else "") ++
    "\n       ORDER BY created_at DESC LIMIT " ++ slot (names.length + 1)

/-! ## Their placeholders -/

theorem assign_marks {c : String} (hc : '$' ∉ c.toList) (k : Nat) :
    Marks (assign c k).toList {k} := by
  unfold assign
  rw [String.toList_append]
  refine .after ?_ (.of_slot k)
  simp [hc]

theorem separates_comma : Separates ",".toList := ⟨by simp, ',', by simp, by decide⟩

/-- The numbers of columns, and the next. -/
theorem first_and_next (n : Nat) : {k | 1 ≤ k ∧ k ≤ n + 1} =
    ({k | 1 ≤ k ∧ k ≤ n} ∪ {n + 1} : Set Nat) := by
  ext k
  simp only [Set.mem_ofPred_eq, Set.mem_union, Set.mem_singleton_iff]
  omega

theorem updateText_marks {front middle back : String} {names : List String}
    (hfront : '$' ∉ front.toList) (hmiddle : Separates middle.toList)
    (hback : Separates back.toList) (hnames : ∀ c ∈ names, '$' ∉ c.toList) :
    Marks (updateText front middle back names).toList {k | 1 ≤ k ∧ k ≤ names.length + 1} := by
  have hsets : Marks (",".intercalate (numbered assign names)).toList
      {k | 1 ≤ k ∧ k ≤ names.length} :=
    Marks.numbered separates_comma fun c hc => assign_marks (hnames c hc)
  have hrow : Marks ((slot (names.length + 1)).toList ++ back.toList) {names.length + 1} :=
    (Marks.of_slot _).before hback
  unfold updateText
  simp only [String.toList_append, List.append_assoc]
  rw [first_and_next]
  exact .after hfront (hsets.append (.after hmiddle.plain hrow) (hmiddle.free _))

/-- An insert has a placeholder for each column. -/
theorem insertText_marks {r : Resource} {names : List String} (htable : '$' ∉ r.table.toList)
    (hnames : ∀ c ∈ names, '$' ∉ c.toList) :
    Marks (insertText r names).toList {k | 1 ≤ k ∧ k ≤ names.length} := by
  have hslots : Marks (",".intercalate (numbered (fun _ => slot) names)).toList
      {k | 1 ≤ k ∧ k ≤ names.length} :=
    Marks.numbered separates_comma fun _ _ k => .of_slot k
  have hcols : '$' ∉ (",".intercalate names).toList := by
    rw [String.toList_intercalate]
    intro hc
    rcases mem_intercalate (d := ',') (by simpa using hc) with hc | ⟨w, hw, hc⟩
    · cases hc
    · obtain ⟨c, hin, rfl⟩ := List.mem_map.mp hw
      exact hnames c hin hc
  have hclose : Separates ") RETURNING *".toList := ⟨by simp, ')', by simp, by decide⟩
  unfold insertText
  simp only [String.toList_append, List.append_assoc]
  refine .after (by simp) (.after htable (.after (by simp) (.after hcols (.after (by simp) ?_))))
  exact hslots.before hclose

theorem filterText_marks {name : String} (hname : '$' ∉ name.toList) (k : Nat) :
    Marks (filterText name k).toList {k} := by
  unfold filterText
  split
  · -- the search term is compared twice
    have hor : Separates " OR array_to_string(rcpt_to,',') ILIKE ".toList :=
      ⟨by simp, ' ', by simp, by decide⟩
    have hclose : Separates ")".toList := ⟨by simp, ')', by simp, by decide⟩
    have hsecond := (Marks.of_slot k).before hclose
    have hboth := (Marks.of_slot k).append (.after hor.plain hsecond) (hor.free _)
    rw [Set.union_self] at hboth
    simp only [String.toList_append, List.append_assoc]
    exact .after (by simp) hboth
  · exact assign_marks hname k

theorem messagesText_marks {names : List String} (hnames : ∀ c ∈ names, '$' ∉ c.toList) :
    Marks (messagesText names).toList {k | 1 ≤ k ∧ k ≤ names.length + 1} := by
  have hand : Separates " AND ".toList := ⟨by simp, ' ', by simp, by decide⟩
  have horder : Separates "\n       ORDER BY created_at DESC LIMIT ".toList :=
    ⟨by simp, '\n', by simp, by decide⟩
  have hwhere : Marks (if names.length ≠ 0 then
      "WHERE " ++ " AND ".intercalate (numbered filterText names) else "").toList
      {k | 1 ≤ k ∧ k ≤ names.length} := by
    split
    · rw [String.toList_append]
      exact .after (by simp) (Marks.numbered hand fun c hc => filterText_marks (hnames c hc))
    · rename_i hnone
      have hempty : {k | 1 ≤ k ∧ k ≤ names.length} = (∅ : Set Nat) := by
        ext k
        simp only [Set.mem_ofPred_eq, Set.mem_empty_iff_false, iff_false]
        omega
      rw [hempty]
      exact .plain (by simp)
  unfold messagesText
  simp only [String.toList_append, List.append_assoc]
  rw [first_and_next]
  refine .after (by simp) (.after (by simp) (hwhere.append (.after horder.plain (.of_slot _)) ?_))
  exact horder.free _

/-! ## The builders -/

variable {body : Json} {st : Statement Bound}

/-- A handler with a statement has passed each of its parts. -/
theorem bind_ok {α β : Type} {x : Except Early α} {f : α → Except Early β} {b : β}
    (h : x >>= f = .ok b) : ∃ a, x = .ok a ∧ f a = .ok b := by
  cases x with
  | error e => cases h
  | ok a => exact ⟨a, rfl, h⟩

theorem prop_ok {name : String} {o : Option Json} (h : body.prop name = .ok o) :
    o = body.field name := by
  cases body <;> cases h <;> rfl

/-- A body that is not null has all its properties read. -/
theorem prop_eq (hbody : body ≠ .null) (name : String) :
    body.prop name = .ok (body.field name) := by
  cases body with
  | null => exact absurd rfl hbody
  | _ => rfl

/-- The columns of a body, each with its value. -/
def fields (body : Json) (cols : List String) : List (String × Option Json) :=
  cols.map fun c => (c, body.field c)

theorem pickColumn_ok {picked picked' : List String × List Json} {c : String}
    (h : pickColumn body picked c = .ok picked') :
    picked'.1 = picked.1 ++ present (fields body [c]) ∧
      picked'.2 = picked.2 ++ values (fields body [c]) := by
  unfold pickColumn at h
  cases hprop : body.prop c with
  | error e =>
    rw [hprop] at h
    cases h
  | ok o =>
    rw [hprop] at h
    have ho := prop_ok hprop
    cases o with
    | none =>
      cases h
      simp [fields, present, values, ← ho]
    | some v =>
      cases h
      simp [fields, present, values, ← ho]

theorem foldlM_pickColumn {cols : List String} : ∀ {picked picked' : List String × List Json},
    cols.foldlM (pickColumn body) picked = .ok picked' →
      picked'.1 = picked.1 ++ present (fields body cols) ∧
        picked'.2 = picked.2 ++ values (fields body cols) := by
  induction cols with
  | nil =>
    intro picked picked' h
    cases h
    exact ⟨(List.append_nil _).symm, (List.append_nil _).symm⟩
  | cons c cols ih =>
    intro picked picked' h
    rw [List.foldlM_cons] at h
    cases hstep : pickColumn body picked c with
    | error e =>
      rw [hstep] at h
      cases h
    | ok next =>
      rw [hstep] at h
      obtain ⟨hkeys, hvals⟩ := pickColumn_ok hstep
      obtain ⟨hkeys', hvals'⟩ := ih h
      have hcons : fields body (c :: cols) = fields body [c] ++ fields body cols := rfl
      rw [hkeys', hvals', hkeys, hvals, hcons]
      simp [present, values]

/-- `pick` has the columns that are there, each with its value. -/
theorem pick_ok {cols keys : List String} {vals : List Json}
    (h : pick body cols = .ok (keys, vals)) :
    keys = present (fields body cols) ∧ vals = values (fields body cols) :=
  foldlM_pickColumn h

theorem present_resourceCols (r : Resource) (body : Json) :
    present (resourceCols r body) = present (fields body r.cols) := by
  unfold resourceCols fields present
  rw [List.filter_map, List.filter_map, List.map_map, List.map_map]
  simp [Function.comp_def]

theorem values_resourceCols (r : Resource) (body : Json) :
    values (resourceCols r body) = (values (fields body r.cols)).map .json := by
  unfold resourceCols fields values
  rw [List.filterMap_map, List.filterMap_map, List.map_filterMap]
  rfl

/-- The names of a table have no `$`. -/
structure Resource.Plain (r : Resource) : Prop where
  table : '$' ∉ r.table.toList
  pk : '$' ∉ r.pk.toList
  cols : ∀ c ∈ r.cols, '$' ∉ c.toList

theorem resources_plain : ∀ e ∈ resources, e.2.Plain := by
  have hall : ∀ e ∈ resources, '$' ∉ e.2.table.toList ∧ '$' ∉ e.2.pk.toList ∧
      ∀ c ∈ e.2.cols, '$' ∉ c.toList := by
    simp [resources, providers]
  intro e he
  obtain ⟨htable, hpk, hcols⟩ := hall e he
  exact ⟨htable, hpk, hcols⟩

variable {r : Resource}

theorem Resource.Plain.present (h : r.Plain) :
    ∀ c ∈ present (resourceCols r body), '$' ∉ c.toList := by
  intro c hc
  refine h.cols c ?_
  simpa [resourceCols, Function.comp_def] using mem_of_present hc

theorem postResource_aligned (hr : r.Plain) (h : postResource r body = .ok st) :
    Aligned (resourceCols r body) [] (insertText r) st := by
  unfold postResource at h
  obtain ⟨⟨keys, vals⟩, hpick, h⟩ := bind_ok h
  obtain ⟨rfl, rfl⟩ := pick_ok hpick
  dsimp only at h
  split at h
  · cases h
  · cases h
    have hlen := length_present (fields body r.cols)
    have hvals : (values (fields body r.cols)).map Bound.json =
        values (resourceCols r body) ++ [] := by
      rw [values_resourceCols, List.append_nil]
    refine .of_vals ?_ hvals ?_
    · show _ = insertText r _
      unfold insertText
      rw [present_resourceCols, mapIdx_slot hlen]
    · have hcount : ((values (fields body r.cols)).map Bound.json).length =
          (present (resourceCols r body)).length := by
        rw [List.length_map, present_resourceCols, hlen]
      show Marks _ {k | 1 ≤ k ∧ k ≤ ((values (fields body r.cols)).map Bound.json).length}
      rw [hcount]
      exact insertText_marks hr.table hr.present

/-- An update of what was pushed for columns, and the id behind it. -/
theorem update_aligned {cols : List (String × Option Bound)} {s : Sets Bound}
    (h : Pushed assign cols s) {front middle back id : String} (hfront : '$' ∉ front.toList)
    (hmiddle : Separates middle.toList) (hback : Separates back.toList)
    (hcols : ∀ c ∈ cols.map Prod.fst, '$' ∉ c.toList)
    (htext : st.text = front ++ ",".intercalate s.sets ++ middle ++ slot (s.vals.length + 1) ++ back)
    (hvals : st.vals = s.vals ++ [.text id]) :
    Aligned cols [.text id] (updateText front middle back) st := by
  have hlen : s.vals.length = (present cols).length := by
    rw [h.vals, length_present]
  have hcount : st.vals.length = (present cols).length + 1 := by
    rw [hvals, List.length_append, hlen]
    rfl
  refine .of_vals ?_ ?_ ?_
  · rw [htext, h.sets, hlen]
    rfl
  · rw [hvals, h.vals]
  · rw [hcount]
    exact updateText_marks hfront hmiddle hback fun c hc => hcols c (mem_of_present hc)

theorem putResource_aligned {id : String} (hr : r.Plain) (h : putResource r body id = .ok st) :
    Aligned (resourceCols r body) [.text id] (resourceText r) st := by
  unfold putResource at h
  obtain ⟨⟨keys, vals⟩, hpick, h⟩ := bind_ok h
  obtain ⟨rfl, rfl⟩ := pick_ok hpick
  dsimp only at h
  split at h
  · cases h
  · cases h
    have hpushed : Pushed assign (resourceCols r body)
        { sets := numbered assign (present (fields body r.cols))
          vals := (values (fields body r.cols)).map .json } :=
      ⟨by rw [present_resourceCols], (values_resourceCols r body).symm⟩
    refine update_aligned hpushed ?_ ?_ ⟨by simp, ' ', by simp, by decide⟩ ?_ ?_ rfl
    · simp [hr.table]
    · exact ⟨by simp [hr.pk], ' ', by simp, by decide⟩
    · simpa [resourceCols, Function.comp_def] using hr.cols
    · rw [List.length_map, ← length_present]
      simp only [String.append_assoc]
      rfl

theorem accountSets_pushed {hash : Json → Option String} {s : Sets Bound}
    (h : accountSets hash body = .ok s) : Pushed assign (accountCols hash body) s := by
  have hbody : body ≠ .null := by
    rintro rfl
    cases h
  have hthree := (((Pushed.empty assign).pushSome "allowed_sender_domains"
    ((body.field "allowed_sender_domains").map Bound.json)).pushSome "ip_allowlist"
    ((body.field "ip_allowlist").map Bound.json)).pushSome "enabled"
    ((body.field "enabled").map Bound.json)
  have hall := fun o => hthree.pushSome "password_hash" o
  unfold accountSets at h
  simp only [prop_eq hbody] at h
  change (match (body.field "password").filter Json.truthy with
    | none => _
    | some password => _) = _ at h
  unfold accountCols
  split at h
  · rename_i hnone
    cases h
    rw [hnone]
    exact hall none
  · rename_i password hsome
    split at h
    · rename_i hash' hhash
      cases h
      rw [hsome, Option.bind_some, hhash]
      exact hall (some (.text hash'))
    · cases h

theorem putAccount_aligned {hash : Json → Option String} {id : String}
    (h : putAccount hash body id = .ok st) :
    Aligned (accountCols hash body) [.text id] accountText st := by
  unfold putAccount at h
  obtain ⟨s, hs, h⟩ := bind_ok h
  split at h
  · cases h
  · cases h
    exact update_aligned (accountSets_pushed hs) (by simp) ⟨by simp, ' ', by simp, by decide⟩
      ⟨by simp, '\n', by simp, by decide⟩ (by simp [accountCols]) (by simp) rfl

theorem channelSets_pushed {validWebhookURL : Json → Bool} {encrypt : Json → Option String}
    {s : Sets Bound} (h : channelSets validWebhookURL encrypt body = .ok s) :
    Pushed assign (channelCols encrypt body) s := by
  have hbody : body ≠ .null := by
    rintro rfl
    cases h
  have hfour := ((((Pushed.empty assign).pushSome "name"
    ((body.field "name").map Bound.json)).pushSome "min_severity"
    ((body.field "min_severity").map fun v => Bound.text (severity v))).pushSome "enabled"
    ((body.field "enabled").map Bound.json)).pushSome "target"
    ((body.field "target").map Bound.json)
  have hall := fun o => hfour.pushSome "secret" o
  unfold channelSets at h
  simp only [prop_eq hbody] at h
  change (match (body.field "url").filter Json.truthy with
    | none => _
    | some url => _) = _ at h
  unfold channelCols
  split at h
  · rename_i hnone
    cases h
    rw [hnone]
    exact hall none
  · rename_i url hsome
    split at h
    · cases h
    · split at h
      · rename_i e hencrypt
        cases h
        rw [hsome, Option.bind_some, hencrypt]
        exact hall (some (.text e))
      · cases h

theorem putAlertChannel_aligned {validWebhookURL : Json → Bool} {encrypt : Json → Option String}
    {id : String} (h : putAlertChannel validWebhookURL encrypt body id = .ok st) :
    Aligned (channelCols encrypt body) [.text id] channelText st := by
  unfold putAlertChannel at h
  obtain ⟨s, hs, h⟩ := bind_ok h
  split at h
  · cases h
  · cases h
    exact update_aligned (channelSets_pushed hs) (by simp) ⟨by simp, ' ', by simp, by decide⟩
      ⟨by simp, ' ', by simp, by decide⟩ (by simp [channelCols]) (by simp) rfl

theorem listMessages_aligned (number : Option Param → Option Number)
    (query : String → Option Param) :
    Aligned (filterCols query) [.number (listLimit number (query "limit"))] messagesText
      (listMessages number query) := by
  have hpushed : Pushed filterText (filterCols query) _ :=
    ((Pushed.empty filterText).pushSome "status"
      (((query "status").filter Param.truthy).map Param.bound)).pushSome "q"
      (((query "q").filter Param.truthy).map fun q : Param => Bound.text ("%" ++ q.text ++ "%"))
  have hlen := length_present (filterCols query)
  have hnumbered := length_numbered filterText (present (filterCols query))
  have hvals : (listMessages number query).vals =
      values (filterCols query) ++ [.number (listLimit number (query "limit"))] := by
    unfold listMessages
    rw [← hpushed.vals]
  have hcount : (listMessages number query).vals.length =
      (present (filterCols query)).length + 1 := by
    rw [hvals, List.length_append, hlen]
    rfl
  refine .of_vals ?_ hvals ?_
  · unfold listMessages messagesText
    dsimp only
    rw [hpushed.sets, hpushed.vals, hnumbered, List.length_append, hlen]
    rfl
  · rw [hcount]
    refine messagesText_marks fun c hc => ?_
    have hnames : ∀ c ∈ (filterCols query).map Prod.fst, '$' ∉ c.toList := by simp [filterCols]
    exact hnames c (mem_of_present hc)

/-- **Names and values stay aligned** in every statement that is put together from a request: the
    columns are those of the fixed list for which the request has a value, each bound to its own
    value, and the id or the limit comes last. -/
theorem statements_aligned {e : String × Resource} (he : e ∈ resources)
    (hash encrypt : Json → Option String) (validWebhookURL : Json → Bool)
    (number : Option Param → Option Number) (body : Json) (id : String)
    (query : String → Option Param) :
    (∀ st, postResource e.2 body = .ok st →
      Aligned (resourceCols e.2 body) [] (insertText e.2) st) ∧
    (∀ st, putResource e.2 body id = .ok st →
      Aligned (resourceCols e.2 body) [.text id] (resourceText e.2) st) ∧
    (∀ st, putAccount hash body id = .ok st →
      Aligned (accountCols hash body) [.text id] accountText st) ∧
    (∀ st, putAlertChannel validWebhookURL encrypt body id = .ok st →
      Aligned (channelCols encrypt body) [.text id] channelText st) ∧
    Aligned (filterCols query) [.number (listLimit number (query "limit"))] messagesText
      (listMessages number query) := by
  have hplain := resources_plain e he
  exact ⟨fun _ h => postResource_aligned hplain h, fun _ h => putResource_aligned hplain h,
    fun _ h => putAccount_aligned h, fun _ h => putAlertChannel_aligned h,
    listMessages_aligned number query⟩

/-- A body with a false, an empty and a null value, and a name that is SQL. -/
def sampleBody : Json :=
  .obj [("name", .str ""), ("enabled", .bool false), ("password", .str "p"),
    ("url", .str "https://a.test"), ("min_severity", .null), ("id=1;--", .num 0)]

/-- The query `?q=a`. -/
def sampleQuery (name : String) : Option Param := if name = "q" then some (.one "a") else none

/-- Its statements: what is false, empty or null is written too, and nothing else is. -/
theorem statements_aligned_sample :
    Aligned (resourceCols providers sampleBody) [] (insertText providers)
      ⟨"INSERT INTO providers (name,enabled) VALUES ($1,$2) RETURNING *",
        [.json (.str ""), .json (.bool false)]⟩ ∧
    Aligned (resourceCols providers sampleBody) [.text "7"] (resourceText providers)
      ⟨"UPDATE providers SET name=$1,enabled=$2 WHERE id=$3 RETURNING *",
        [.json (.str ""), .json (.bool false), .text "7"]⟩ ∧
    Aligned (accountCols (fun _ => some "h") sampleBody) [.text "7"] accountText
      ⟨"UPDATE accounts SET enabled=$1,password_hash=$2 WHERE id=$3\n       " ++
          "RETURNING id, username, allowed_sender_domains, enabled",
        [.json (.bool false), .text "h", .text "7"]⟩ ∧
    Aligned (channelCols (fun _ => some "e") sampleBody) [.text "7"] channelText
      ⟨"update alert_channels set name=$1,min_severity=$2,enabled=$3,secret=$4 where id=$5 " ++
          "returning id, name, type, min_severity, enabled",
        [.json (.str ""), .text "warning", .json (.bool false), .text "e", .text "7"]⟩ := by
  obtain ⟨hpost, hput, haccount, hchannel, -⟩ :=
    statements_aligned (e := ("providers", providers)) List.mem_cons_self (fun _ => some "h")
      (fun _ => some "e") (fun _ => true) (fun _ => none) sampleBody "7" sampleQuery
  exact ⟨hpost _ rfl, hput _ rfl, haccount _ rfl, hchannel _ rfl⟩

/-- **The search term is bound between percent signs**: the list is asked for `a`, and `%a%` is
    bound. -/
theorem search_term_wrapped :
    ¬ ∀ (number : Option Param → Option Number) (query : String → Option Param),
      Aligned
        [ ("status", ((query "status").filter Param.truthy).map Param.bound)
        , ("q", ((query "q").filter Param.truthy).map Param.bound) ]
        [.number (listLimit number (query "limit"))] messagesText (listMessages number query) := by
  intro hclaim
  have hbinds := (hclaim (fun _ => none) sampleQuery).binds
  have hbound : [("q", Bound.text "%a%")] = [("q", Bound.text "a")] := hbinds
  simp at hbound

end Novamail.Admin

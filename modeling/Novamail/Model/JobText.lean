/-
  The texts of jobs: what `jobPublishing` of `internal/amqp/amqp.go` writes, and what
  `json.Unmarshal` of a handler reads, for `model.RelayJob` with all its fields.

  A job that is deferred is written, read and written again, once for each retry; the text of any
  retry reads as the first job with its attempts counted up (`read_afterDeferrals`).  Only a job
  with a date that cannot be written is never published again.  What is published conforms to `api/relay-job.schema.json` unless it carries a trace (`conforms_iff`).
-/
import Novamail.Core.Records
import Novamail.Model.Message

namespace Novamail

open Novamail.Core.Json Novamail.Core.Rfc3339

/-- `model.BodyRef`, with the backend as it is written. -/
structure BodyRefText where
  backend : String := ""
  key : String := ""
  deriving DecidableEq, Repr

/-- `model.RelayJob`, with every field. -/
structure JobRecord where
  v : Int64 := 0
  messageID : MsgId := ""
  bodyRef : BodyRefText := {}
  envelope : Envelope := { mailFrom := "", rcptTo := [] }
  routingHints : RoutingHints := {}
  attempt : Int64 := 0
  enqueuedAt : Moment := zeroTime
  dsnReturn : String := ""
  dsnSuppress : Bool := false
  trace : Into.Labels := Into.Labels.empty

/-- The `backend` of a text. -/
def Backend.text : Backend → String
  | .fs => "fs"
  | .pg => "pg"

/-- The record says what the job says. -/
structure JobRecord.Tells (r : JobRecord) (j : RelayJob) : Prop where
  v : r.v.toInt = j.v
  messageID : r.messageID = j.messageID
  bodyRef : r.bodyRef = { backend := j.bodyRef.backend.text, key := j.bodyRef.key }
  envelope : r.envelope = j.envelope
  routingHints : r.routingHints = j.routingHints
  attempt : r.attempt.toInt = j.attempt
  dsnReturn : r.dsnReturn = j.dsnReturn
  dsnSuppress : r.dsnSuppress = j.dsnSuppress

/-! ## Writing -/

/-- The value of a date. -/
def dateValue (m : Moment) : Value := .str (String.ofList m.1.text)

namespace JobRecord

/-- The members that every job has, given the values of its hints and its date. -/
def members (r : JobRecord) (hints date : Value) : List (String × Value) :=
  [("v", .num (.ofInt r.v.toInt)),
    ("messageId", .str r.messageID),
    ("bodyRef", .obj [("backend", .str r.bodyRef.backend), ("key", .str r.bodyRef.key)]),
    ("envelope", .obj [("mailFrom", .str r.envelope.mailFrom),
      ("rcptTo", .arr (r.envelope.rcptTo.map .str))]),
    ("routingHints", hints),
    ("attempt", .num (.ofInt r.attempt.toInt)),
    ("enqueuedAt", date)]

/-- The hints, without those that are empty. -/
def hintsValue (h : RoutingHints) : Value :=
  .obj (omitEmpty "recipientDomain" (h.recipientDomain = "") (.str h.recipientDomain) ++
    omitEmpty "senderDomain" (h.senderDomain = "") (.str h.senderDomain))

/-- The members that are always written. -/
def required (r : JobRecord) : List (String × Value) :=
  r.members (hintsValue r.routingHints) (dateValue r.enqueuedAt)

/-- The members that are left out when they are empty. -/
def optional (r : JobRecord) : List (String × Value) :=
  omitEmpty "dsnReturn" (r.dsnReturn = "") (.str r.dsnReturn) ++
    (omitEmpty "dsnSuppress" (!r.dsnSuppress) (.bool r.dsnSuppress) ++
      omitEmpty "trace" r.trace.1.isEmpty (.obj r.trace.members))

/-- The value of a job. -/
def value (r : JobRecord) : Value := .obj (r.required ++ r.optional)

/-- `json.Marshal` of a job; none is the error of its date. -/
def marshal (r : JobRecord) : Option String :=
  if r.enqueuedAt.1.Writable then some (r.value.text htmlStyle) else none

/-! ## Reading -/

/-- The fields of `model.BodyRef`. -/
def bodyRefFields : List (String × Into BodyRefText) :=
  [("backend", Into.at_ (·.backend) (fun b s => { b with backend := s }) Into.string),
    ("key", Into.at_ (·.key) (fun b s => { b with key := s }) Into.string)]

/-- The fields of `model.Envelope`. -/
def envelopeFields : List (String × Into Envelope) :=
  [("mailFrom", Into.at_ (·.mailFrom) (fun e s => { e with mailFrom := s }) Into.string),
    ("rcptTo", Into.at_ (·.rcptTo) (fun e ss => { e with rcptTo := ss }) Into.strings)]

/-- The fields of `model.RoutingHints`. -/
def routingHintsFields : List (String × Into RoutingHints) :=
  [("recipientDomain",
      Into.at_ (·.recipientDomain) (fun h s => { h with recipientDomain := s }) Into.string),
    ("senderDomain",
      Into.at_ (·.senderDomain) (fun h s => { h with senderDomain := s }) Into.string)]

/-- The fields of `model.RelayJob`. -/
def fields : List (String × Into JobRecord) :=
  [("v", Into.at_ (·.v) (fun r n => { r with v := n }) Into.int),
    ("messageId", Into.at_ (·.messageID) (fun r s => { r with messageID := s }) Into.string),
    ("bodyRef",
      Into.at_ (·.bodyRef) (fun r b => { r with bodyRef := b }) (Into.record bodyRefFields)),
    ("envelope",
      Into.at_ (·.envelope) (fun r e => { r with envelope := e }) (Into.record envelopeFields)),
    ("routingHints", Into.at_ (·.routingHints) (fun r h => { r with routingHints := h })
      (Into.record routingHintsFields)),
    ("attempt", Into.at_ (·.attempt) (fun r n => { r with attempt := n }) Into.int),
    ("enqueuedAt", Into.at_ (·.enqueuedAt) (fun r m => { r with enqueuedAt := m }) Into.moment),
    ("dsnReturn", Into.at_ (·.dsnReturn) (fun r s => { r with dsnReturn := s }) Into.string),
    ("dsnSuppress", Into.at_ (·.dsnSuppress) (fun r b => { r with dsnSuppress := b }) Into.bool),
    ("trace", Into.at_ (·.trace) (fun r m => { r with trace := m }) Into.map)]

/-- `json.Unmarshal` of a job; none is the error on which a handler drops the message. -/
def unmarshal (s : String) : Option JobRecord :=
  let p := Into.unmarshal (Into.record fields) {} s
  if p.2 then some p.1 else none

/-! ### What is read -/

/-- A reference is read as what it was written from. -/
theorem record_bodyRef (b : BodyRefText) :
    Into.record bodyRefFields (.obj [("backend", .str b.backend), ("key", .str b.key)]) {} =
      (b, true) := rfl

theorem record_envelope (e : Envelope) :
    Into.record envelopeFields (.obj [("mailFrom", .str e.mailFrom),
      ("rcptTo", .arr (e.rcptTo.map .str))]) { mailFrom := "", rcptTo := [] } = (e, true) := by
  show (({ mailFrom := e.mailFrom, rcptTo := (Into.strings (.arr (e.rcptTo.map .str)) []).1 } :
    Envelope), true && (Into.strings (.arr (e.rcptTo.map .str)) []).2) = _
  rw [Into.strings_arr]
  rfl

theorem record_routingHints (h : RoutingHints) :
    Into.record routingHintsFields (hintsValue h) {} = (h, true) := by
  rw [hintsValue, Into.record_obj, List.foldl_append,
    Into.foldl_omitEmpty (b := { recipientDomain := h.recipientDomain }) rfl (fun _ => rfl)
      (fun hgone => by rw [of_decide_eq_true hgone]) true,
    Into.foldl_omitEmpty (b := h) rfl (fun _ => rfl)
      (fun hgone => by rw [← of_decide_eq_true hgone]) true]

/-- The members that every job has, one after another. -/
theorem foldl_members (r : JobRecord) {hints date : Value}
    (hh : Into.record routingHintsFields hints {} = (r.routingHints, true))
    (hd : Into.moment date zeroTime = (r.enqueuedAt, true)) :
    (r.members hints date).foldl (Into.member fields) ({}, true) =
      ({ r with dsnReturn := "", dsnSuppress := false, trace := Into.Labels.empty }, true) := by
  have hv : Into.member fields ({}, true) ("v", .num (.ofInt r.v.toInt)) =
      ({ v := r.v }, true) := by
    refine Into.member_of_field rfl ?_ true
    simp only [Into.at_, Into.int_ofInt]
  have hid : Into.member fields ({ v := r.v }, true) ("messageId", .str r.messageID) =
      ({ v := r.v, messageID := r.messageID }, true) := by
    refine Into.member_of_field rfl ?_ true
    simp only [Into.at_, Into.string_str]
  have href : Into.member fields ({ v := r.v, messageID := r.messageID }, true)
      ("bodyRef", .obj [("backend", .str r.bodyRef.backend), ("key", .str r.bodyRef.key)]) =
      (⟨r.v, r.messageID, r.bodyRef, ⟨"", []⟩, {}, 0, zeroTime, "", false, .empty⟩, true) := by
    refine Into.member_of_field rfl ?_ true
    simp only [Into.at_, record_bodyRef]
  have henv : Into.member fields
      (⟨r.v, r.messageID, r.bodyRef, ⟨"", []⟩, {}, 0, zeroTime, "", false, .empty⟩, true)
      ("envelope", .obj [("mailFrom", .str r.envelope.mailFrom),
        ("rcptTo", .arr (r.envelope.rcptTo.map .str))]) =
      (⟨r.v, r.messageID, r.bodyRef, r.envelope, {}, 0, zeroTime, "", false, .empty⟩, true) := by
    refine Into.member_of_field rfl ?_ true
    simp only [Into.at_, record_envelope]
  have hhints : Into.member fields
      (⟨r.v, r.messageID, r.bodyRef, r.envelope, {}, 0, zeroTime, "", false, .empty⟩, true)
      ("routingHints", hints) =
      (⟨r.v, r.messageID, r.bodyRef, r.envelope, r.routingHints, 0, zeroTime, "", false, .empty⟩,
        true) := by
    refine Into.member_of_field rfl ?_ true
    simp only [Into.at_, hh]
  have hattempt : Into.member fields
      (⟨r.v, r.messageID, r.bodyRef, r.envelope, r.routingHints, 0, zeroTime, "", false, .empty⟩,
        true) ("attempt", .num (.ofInt r.attempt.toInt)) =
      (⟨r.v, r.messageID, r.bodyRef, r.envelope, r.routingHints, r.attempt, zeroTime, "", false,
        .empty⟩, true) := by
    refine Into.member_of_field rfl ?_ true
    simp only [Into.at_, Into.int_ofInt]
  have hat : Into.member fields
      (⟨r.v, r.messageID, r.bodyRef, r.envelope, r.routingHints, r.attempt, zeroTime, "", false,
        .empty⟩, true) ("enqueuedAt", date) =
      (⟨r.v, r.messageID, r.bodyRef, r.envelope, r.routingHints, r.attempt, r.enqueuedAt, "", false,
        .empty⟩, true) := by
    refine Into.member_of_field rfl ?_ true
    simp only [Into.at_, hd]
  simp only [members, List.foldl_cons, List.foldl_nil]
  rw [hv, hid, href, henv, hhints, hattempt, hat]

/-- The date of Go's writer is read. -/
theorem moment_dateValue {m : Moment} (h : m.1.Writable) :
    Into.moment (dateValue m) zeroTime = (m, true) := by
  refine Into.moment_str ?_ zeroTime
  rw [String.toList_ofList, parse_text h]

/-- The members that may be left out. -/
theorem foldl_optional (r : JobRecord) : r.optional.foldl (Into.member fields)
    ({ r with dsnReturn := "", dsnSuppress := false, trace := Into.Labels.empty }, true) =
      (r, true) := by
  unfold optional
  rw [List.foldl_append, List.foldl_append,
    Into.foldl_omitEmpty (b := { r with dsnSuppress := false, trace := Into.Labels.empty }) rfl
      (fun _ => rfl) (fun hgone => by rw [of_decide_eq_true hgone]) true,
    Into.foldl_omitEmpty (b := { r with trace := Into.Labels.empty }) rfl (fun _ => rfl)
      (fun hgone => by rw [show r.dsnSuppress = false by simpa using hgone]) true]
  have hthere : Into.at_ (·.trace) (fun (r : JobRecord) m => { r with trace := m }) Into.map
      (.obj r.trace.members) { r with trace := Into.Labels.empty } = (r, true) :=
    Into.at_eq (Into.map_members r.trace)
  refine Into.foldl_omitEmpty rfl (fun _ => hthere) (fun hgone => ?_) true
  have hempty : r.trace = Into.Labels.empty := Subtype.ext (List.isEmpty_iff.mp hgone)
  rw [← hempty]

/-- **A job is read back as it was published**, if it can be. -/
theorem unmarshal_marshal (r : JobRecord) :
    r.marshal.bind unmarshal = if r.enqueuedAt.1.Writable then some r else none := by
  unfold marshal
  by_cases hdate : r.enqueuedAt.1.Writable
  · have hread : Into.record fields r.value {} = (r, true) := by
      unfold value
      rw [Into.record_obj, List.foldl_append, required,
        r.foldl_members (record_routingHints _) (moment_dateValue hdate), foldl_optional]
    rw [if_pos hdate, if_pos hdate, Option.bind_some]
    unfold unmarshal
    rw [Into.unmarshal_text, hread]
    rfl
  · rw [if_neg hdate, if_neg hdate]
    rfl

/-! ## Deferrals -/

/-- What `defer_` publishes for a text that it read: the job, with one attempt more, if it can be
    written. -/
def republished (s : String) : Option String :=
  (unmarshal s).bind fun r => { r with attempt := r.attempt + 1 }.marshal

/-- The text on the bus after a number of deferrals; none when one of them could not publish. -/
def afterDeferrals : Nat → String → Option String
  | 0, s => some s
  | n + 1, s => (republished s).bind (afterDeferrals n)

/-- The job after a number of deferrals: with the attempts counted up, and none when its date
    cannot be written. -/
def deferred (n : Nat) (r : JobRecord) : Option JobRecord :=
  if n = 0 ∨ r.enqueuedAt.1.Writable then some { r with attempt := r.attempt + Int64.ofNat n }
  else none

/-- One deferral more. -/
theorem deferred_succ (n : Nat) (r : JobRecord) :
    (if r.enqueuedAt.1.Writable then deferred n { r with attempt := r.attempt + 1 } else none) =
      deferred (n + 1) r := by
  unfold deferred
  by_cases hdate : r.enqueuedAt.1.Writable
  · have hsum : r.attempt + 1 + Int64.ofNat n = r.attempt + Int64.ofNat (n + 1) := by
      rw [Int64.ofNat_add, Int64.add_assoc, Int64.add_comm 1]
      rfl
    rw [if_pos hdate, if_pos (.inr hdate), if_pos (.inr hdate)]
    exact congrArg (fun k => some { r with attempt := k }) hsum
  · rw [if_neg hdate, if_neg (not_or.mpr ⟨Nat.succ_ne_zero n, hdate⟩)]

/-- **Every retry carries the job that was submitted.**  Whoever wrote the first text, and however
    often the job was deferred, it reads as the first job, every field of it, with the attempts
    counted up; if the date of the first job cannot be written, it is not deferred at all. -/
theorem read_afterDeferrals (n : Nat) (s : String) :
    (afterDeferrals n s).bind unmarshal = (unmarshal s).bind (deferred n) := by
  induction n generalizing s with
  | zero =>
    show unmarshal s = _
    cases unmarshal s with
    | none => rfl
    | some r =>
      show some r = some { r with attempt := r.attempt + 0 }
      rw [Int64.add_zero]
  | succ n ih =>
    have hrest : ∀ t : Option String, (t.bind (afterDeferrals n)).bind unmarshal =
        (t.bind unmarshal).bind (deferred n) := by
      intro t
      cases t with
      | none => rfl
      | some s => exact ih s
    show ((republished s).bind (afterDeferrals n)).bind unmarshal = _
    unfold republished
    cases unmarshal s with
    | none => rfl
    | some r =>
      rw [Option.bind_some, Option.bind_some, hrest, unmarshal_marshal, ← deferred_succ]
      by_cases hdate : r.enqueuedAt.1.Writable
      · rw [if_pos hdate, if_pos hdate, Option.bind_some]
      · rw [if_neg hdate, if_neg hdate, Option.bind_none]

/-! ## The schema -/

/-- The members that `api/relay-job.schema.json` names. -/
def jobProperties : List (String × Schema) :=
  [("v", .const 1),
    ("messageId", .string),
    ("bodyRef", .object ["backend", "key"] [("backend", .oneOf ["fs", "pg"]), ("key", .string)]),
    ("envelope", .object ["mailFrom", "rcptTo"]
      [("mailFrom", .string), ("rcptTo", .array 1 .string)]),
    ("routingHints", .object [] [("recipientDomain", .string), ("senderDomain", .string)]),
    ("attempt", .atLeast 0),
    ("enqueuedAt", .string),
    ("dsnReturn", .string),
    ("dsnSuppress", .boolean)]

/-- The members that it requires. -/
def jobRequired : List String := ["v", "messageId", "bodyRef", "envelope", "attempt", "enqueuedAt"]

/-- `api/relay-job.schema.json`. -/
def relayJobSchema : Schema := .object jobRequired jobProperties

/-- The members that may be left out conform, but for the trace. -/
theorem accepts_optional (r : JobRecord) :
    Schema.acceptsMembers r.optional jobProperties = r.trace.1.isEmpty := by
  have h₁ : Schema.acceptsMembers (omitEmpty "dsnReturn" (r.dsnReturn = "") (.str r.dsnReturn))
      jobProperties = (decide (r.dsnReturn = "") || true) :=
    Schema.acceptsMembers_omitEmpty (s := .string) rfl
  have h₂ : Schema.acceptsMembers (omitEmpty "dsnSuppress" (!r.dsnSuppress) (.bool r.dsnSuppress))
      jobProperties = (!r.dsnSuppress || true) :=
    Schema.acceptsMembers_omitEmpty (s := .boolean) rfl
  have h₃ : Schema.acceptsMembers (omitEmpty "trace" r.trace.1.isEmpty (.obj r.trace.members))
      jobProperties = r.trace.1.isEmpty := Schema.acceptsMembers_unknown rfl
  unfold optional
  rw [Schema.acceptsMembers_append, Schema.acceptsMembers_append, h₁, h₂, h₃]
  simp only [Bool.or_true, Bool.true_and]

/-- The hints conform, whichever of them are written. -/
theorem accepts_hintsValue (h : RoutingHints) :
    Schema.accepts (hintsValue h)
      (.object [] [("recipientDomain", .string), ("senderDomain", .string)]) = true := by
  rw [hintsValue, Schema.accepts_obj, Schema.acceptsMembers_append,
    Schema.acceptsMembers_omitEmpty rfl, Schema.acceptsMembers_omitEmpty rfl]
  show (true && ((_ || true) && (_ || true))) = true
  simp only [Bool.or_true, Bool.and_true]

/-- The members that every job has conform if four of the values do. -/
theorem accepts_members (r : JobRecord) {hints : Value} (date : String)
    (hh : Schema.accepts hints
      (.object [] [("recipientDomain", .string), ("senderDomain", .string)]) = true) :
    Schema.acceptsMembers (r.members hints (.str date)) jobProperties =
      (decide (r.v.toInt = 1) && (decide (r.bodyRef.backend ∈ ["fs", "pg"]) &&
        (decide (1 ≤ r.envelope.rcptTo.length) && decide (0 ≤ r.attempt.toInt)))) := by
  simp [members, jobProperties, Schema.acceptsMembers, Schema.accepts, List.lookup_cons,
    Literal.toInt?_ofInt, hh, Schema.acceptsAll_strings]

/-- Every member that the schema requires is there. -/
theorem any_members (r : JobRecord) (hints date : Value) :
    ∀ k ∈ jobRequired, ((r.members hints date).any fun m => m.1 = k) = true := by
  intro k hk
  simp only [jobRequired, List.mem_cons, List.not_mem_nil, or_false] at hk
  rcases hk with rfl | rfl | rfl | rfl | rfl | rfl
  all_goals rfl

/-- **A job conforms to its schema unless it carries a trace**: with the version, a backend and a
    recipient as every producer writes them, the members that a job may leave out conform as well,
    except for the one that the schema does not know. -/
theorem conforms_iff (r : JobRecord) :
    Schema.accepts r.value relayJobSchema = true ↔
      r.v.toInt = 1 ∧ r.bodyRef.backend ∈ ["fs", "pg"] ∧ r.envelope.rcptTo ≠ [] ∧
        0 ≤ r.attempt.toInt ∧ r.trace.1 = [] := by
  have hall : (jobRequired.all fun k => (r.required ++ r.optional).any fun m => m.1 = k) = true :=
    List.all_eq_true.mpr fun k hk => by
      rw [List.any_append, required, any_members r _ _ k hk, Bool.true_or]
  have hone : 1 ≤ r.envelope.rcptTo.length ↔ r.envelope.rcptTo ≠ [] :=
    Nat.one_le_iff_ne_zero.trans (not_congr List.length_eq_zero_iff)
  rw [value, relayJobSchema, Schema.accepts_obj, hall, Schema.acceptsMembers_append, required,
    dateValue, accepts_members r _ (accepts_hintsValue _), accepts_optional]
  simp only [Bool.true_and, Bool.and_eq_true, decide_eq_true_eq, hone, List.isEmpty_iff, and_assoc]

end JobRecord

end Novamail

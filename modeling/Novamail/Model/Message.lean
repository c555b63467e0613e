/-
  The types of `internal/model/model.go`, and the address functions of the two mail binaries.

  A relay job is what travels on the bus: it carries references and cheap hints, never the body.
  `enqueuedAt` and `trace` are left out (no handler reads them).  `lower` is Go's `strings.ToLower`
  and JavaScript's `toLowerCase` on ASCII letters, where the two agree; outside ASCII they do not,
  and what depends on that takes them as parameters (`Novamail.Mail.Requeues`).
-/
import Mathlib.Logic.Basic

namespace Novamail

/-- Raw RFC 822 bytes. -/
abbrev Bytes := List UInt8

/-- A message id, also the key of its body (`newID`, `randomUUID`).  It stands for a uuid in any
    spelling: Go draws 32 hex digits, and the uuid columns print them with dashes. -/
abbrev MsgId := String

/-! ## Strings -/

/-- `strings.ToLower` and `toLowerCase` on ASCII. -/
def lower (s : String) : String := String.ofList (s.toList.map Char.toLower)

/-- No other character is `*` in lowercase. -/
theorem toLower_eq_star {c : Char} (h : c.toLower = '*') : c = '*' := by
  unfold Char.toLower at h
  split at h
  · rename_i hupper
    have hval : (c.val + ('a'.val - 'A'.val)).toNat = 42 := congrArg (fun d => d.val.toNat) h
    have hlo : 65 ≤ c.val.toNat := UInt32.le_iff_toNat_le.mp hupper.1
    have hhi : c.val.toNat ≤ 90 := UInt32.le_iff_toNat_le.mp hupper.2
    have hadd : (c.val + ('a'.val - 'A'.val)).toNat = (c.val.toNat + 32) % 4294967296 :=
      UInt32.toNat_add ..
    omega
  · exact h

/-- Only `"*"` is `"*"` in lowercase. -/
theorem lower_ne_star {s : String} (h : s ≠ "*") : lower s ≠ "*" := by
  intro hlower
  have hlist : s.toList.map Char.toLower = ['*'] := by
    rw [← String.toList_ofList (l := s.toList.map Char.toLower)]
    exact congrArg String.toList hlower
  obtain ⟨c, hc, hstar⟩ := List.map_eq_singleton_iff.mp hlist
  rw [toLower_eq_star hstar] at hc
  exact h (String.toList_injective hc)

/-- Lowercase is lowercase. -/
theorem toLower_toLower (c : Char) : c.toLower.toLower = c.toLower := by
  by_cases hupper : c.val ≥ 'A'.val ∧ c.val ≤ 'Z'.val
  · have hval : c.toLower.val = c.val + ('a'.val - 'A'.val) := by
      unfold Char.toLower
      rw [dif_pos hupper]
    have hlo : 65 ≤ c.val.toNat := UInt32.le_iff_toNat_le.mp hupper.1
    have hhi : c.val.toNat ≤ 90 := UInt32.le_iff_toNat_le.mp hupper.2
    have hadd : (c.val + ('a'.val - 'A'.val)).toNat = (c.val.toNat + 32) % 4294967296 :=
      UInt32.toNat_add ..
    have hnot : ¬(c.toLower.val ≥ 'A'.val ∧ c.toLower.val ≤ 'Z'.val) := by
      rintro ⟨-, hle⟩
      have hle : c.toLower.val.toNat ≤ 90 := UInt32.le_iff_toNat_le.mp hle
      rw [hval, hadd] at hle
      omega
    generalize c.toLower = d at hnot ⊢
    unfold Char.toLower
    rw [dif_neg hnot]
  · have hsame : c.toLower = c := by
      unfold Char.toLower
      rw [dif_neg hupper]
    rw [hsame, hsame]

theorem lower_lower (s : String) : lower (lower s) = lower s := by
  unfold lower
  rw [String.toList_ofList, List.map_map]
  exact congrArg String.ofList (List.map_congr_left fun c _ => toLower_toLower c)

/-- What follows the last `c`, if `c` occurs: `s[strings.LastIndex(s, c)+1:]`. -/
def afterLast (c : Char) : List Char → Option (List Char)
  | [] => none
  | x :: xs =>
    match afterLast c xs with
    | some t => some t
    | none => if x = c then some xs else none

/-- `domainOf` of one address: what follows the last `@`, lowercased; empty without one. -/
def addrDomain (addr : String) : String :=
  match afterLast '@' addr.toList with
  | some t => lower (String.ofList t)
  | none => ""

/-- `domainOf` (ingress): the domain of the FIRST address, lowercased. -/
def domainOf : List String → String
  | [] => ""
  | a :: _ => addrDomain a

example : domainOf ["alice@Example.COM", "bob@other.test"] = "example.com" := by decide
example : domainOf ["noatsign"] = "" := by decide

/-! ## Messages and jobs -/

/-- `messages.status`. -/
inductive Status where
  | queued | relayed | deferred | bounced | failed
  deriving DecidableEq, Repr

/-- The statuses of a message that is still to be delivered (`status IN ('queued','deferred')`). -/
def Status.live : Status → Bool
  | .queued | .deferred => true
  | .relayed | .bounced | .failed => false

/-- `message_events.kind`. -/
inductive EventKind where
  | queued | relayed | deferred | bounced | failed
  deriving DecidableEq, Repr

/-- The body store a `BodyRef` names: `"fs"` or `"pg"`. -/
inductive Backend where
  | fs | pg
  deriving DecidableEq, Repr

/-- `model.BodyRef`. -/
structure BodyRef where
  backend : Backend
  key : String
  deriving DecidableEq, Repr

/-- `model.Envelope`. -/
structure Envelope where
  mailFrom : String
  rcptTo : List String
  deriving DecidableEq, Repr

/-- `model.RoutingHints`. -/
structure RoutingHints where
  recipientDomain : String := ""
  senderDomain : String := ""
  deriving DecidableEq, Repr

/-- `RelayJobVersion`. -/
def relayJobVersion : Nat := 1

/-- `model.RelayJob`. -/
structure RelayJob where
  v : Nat := relayJobVersion
  messageID : MsgId
  bodyRef : BodyRef
  envelope : Envelope
  routingHints : RoutingHints
  attempt : Int := 0
  dsnReturn : String := ""
  dsnSuppress : Bool := false
  deriving DecidableEq, Repr

/-- The body of a bus message: the JSON of a job, or bytes that `json.Unmarshal` refuses. -/
inductive Wire where
  | job (j : RelayJob)
  | garbage
  deriving DecidableEq, Repr

/-- The message carries this id. -/
def Wire.carries (id : MsgId) : Wire → Bool
  | .job j => j.messageID = id
  | .garbage => false

/-- `model.MessageMeta`. -/
structure MessageMeta where
  subject : String := ""
  messageID : String := ""
  sizeBytes : Nat
  deriving DecidableEq, Repr

/-- `smtp.SMTPError`: reply code, enhanced code, text. -/
structure SMTPError where
  code : Nat
  enhanced : Nat × Nat × Nat
  message : String
  deriving DecidableEq, Repr

end Novamail

/-
  `deliverability.ts`: the grade of an SPF record.

  The regular expressions of the source are the recognizers below, over lists of characters.  A TXT
  string reaches the code as Latin-1, where lowercasing turns no character into an ASCII one but
  the ASCII capitals; so `lower` compares as `toLowerCase` does.
-/
import Mathlib.Data.List.DropRight
import Novamail.Providers.Factory

namespace Novamail.Deliverability

/-! ## Text -/

/-- `\s` of a regular expression, which is also what `trim` removes. -/
def isSpace (c : Char) : Bool :=
  c ∈ ['\t', '\n', '\x0b', '\x0c', '\r', ' ', '\u00a0', '\u1680', '\u2028', '\u2029', '\u202f',
    '\u205f', '\u3000', '\ufeff'] || ('\u2000' ≤ c && c ≤ '\u200a')

/-- `\w`. -/
def isWord (c : Char) : Bool := c.isAlphanum || c = '_'

/-- `\b` after a word character: what follows does not continue the word. -/
def boundary (rest : List Char) : Bool := !rest.head?.any isWord

/-- `s.trim()`. -/
def trim (s : List Char) : List Char := (s.dropWhile isSpace).rdropWhile isSpace

/-- `s.split(/\s+/)`: a run of spaces is one separator. -/
def splitSpaces : List Char → List (List Char)
  | [] => [[]]
  | c :: cs =>
    if isSpace c then
      if cs.head?.any isSpace then splitSpaces cs else [] :: splitSpaces cs
    else
      match splitSpaces cs with
      | [] => [[c]]
      | w :: ws => (c :: w) :: ws

/-- What follows `text`, which is in lowercase, at the start of `s`, whatever the case there. -/
def after (text s : List Char) : Option (List Char) :=
  if text.isPrefixOf (s.map Char.toLower) then some (s.drop text.length) else none

/-- `[-~?+]`. -/
def isQualifier (c : Char) : Bool := c ∈ ['-', '~', '?', '+']

/-- `/^v=spf1\b/i.test(r.trim())`. -/
def isSpf (r : String) : Bool := (after "v=spf1".toList (trim r.toList)).any boundary

/-- `/[-~?+]all\b/i.test(s)`: somewhere in the text. -/
def hasAll : List Char → Bool
  | [] => false
  | c :: cs => (isQualifier c && (after "all".toList cs).any boundary) || hasAll cs

/-- `/^[-~?+]?all$/i.test(t)`. -/
def isAll (t : String) : Bool :=
  match (lower t).toList with
  | c :: cs => c :: cs = "all".toList || (isQualifier c && cs = "all".toList)
  | [] => false

/-! ## Grading -/

/-- `CheckStatus`. -/
inductive CheckStatus where
  | ok | warning | error | info
  deriving DecidableEq, Repr

/-- The kinds of records that are graded. -/
inductive RecordKind where
  | spf | dkim | dmarc | mx | mtaSts | bimi | tlsRpt
  deriving DecidableEq, Repr

/-- `RecordReport`. -/
structure RecordReport where
  record : RecordKind
  selector : Option String := none
  status : CheckStatus
  /-- What is published. -/
  found : Option String
  /-- The correct value, where it can be computed. -/
  expected : Option String := none
  detail : String
  /-- A record to publish. -/
  fix : Option String := none
  deriving DecidableEq, Repr

/-- `providerMechanism`: none for a generic smarthost. -/
def providerMechanism : ProviderType → Option String
  | .gmail => some "include:_spf.google.com"
  | .ses => some "include:amazonses.com"
  | .m365 => some "include:spf.protection.outlook.com"
  | .smtp | .direct | .unknown _ => none

/-- `buildSpf`. -/
def buildSpf (includes : List String) : String :=
  " ".intercalate (["v=spf1"] ++ includes ++ ["-all"])

/-- The terms of a record, `s.trim().split(/\s+/)`. -/
def terms (s : String) : List String := (splitSpaces (trim s.toList)).map String.ofList

/-- `mergeSpf`: the missing mechanisms go before the first `all`, or to the end with a `-all`. -/
def mergeSpf (existing : String) (missing : List String) : String :=
  let tokens := terms existing
  match tokens.findIdx? isAll with
  | some i => " ".intercalate (tokens.take i ++ missing ++ tokens.drop i)
  | none => " ".intercalate (tokens ++ missing ++ ["-all"])

/-- The required mechanisms that are not among the terms of the record. -/
def missingFrom (spf : String) (requiredIncludes : List String) : List String :=
  requiredIncludes.filter fun inc => lower inc ∉ (terms spf).map lower

/-- `gradeSpf`. -/
def gradeSpf (txtRecords requiredIncludes : List String) : RecordReport :=
  match txtRecords.filter isSpf with
  | [] =>
    { record := .spf, status := .error, found := none, detail := "No SPF record found.",
      expected := some (buildSpf requiredIncludes), fix := some (buildSpf requiredIncludes) }
  | spf :: more :: rest =>
    { record := .spf, status := .error, found := some spf,
      detail := "Multiple SPF records (" ++ toString (spf :: more :: rest).length ++
        ") — only one is allowed; mail will fail SPF." }
  | [spf] =>
    if missingFrom spf requiredIncludes ≠ [] then
      let fixed := mergeSpf spf (missingFrom spf requiredIncludes)
      { record := .spf, status := .warning, found := some spf,
        detail := "SPF does not authorize NovaMail's route — missing " ++
          ", ".intercalate (missingFrom spf requiredIncludes) ++ ".",
        expected := some fixed, fix := some fixed }
    else if !hasAll spf.toList then
      { record := .spf, status := .warning, found := some spf,
        detail := "SPF has no `all` mechanism (e.g. `-all`/`~all`) — add one to set the default." }
    else if requiredIncludes = [] then
      { record := .spf, status := .info, found := some spf,
        detail := "SPF present and valid. Generic smarthost route — can't auto-verify the " ++
          "include; ensure SPF authorizes your smarthost." }
    else
      { record := .spf, status := .ok, found := some spf,
        detail := "SPF authorizes NovaMail's route." }

/-- A record is graded ok exactly when it is the only one, has every required mechanism, of which
    there is one, and something that reads as an `all`. -/
theorem gradeSpf_ok {txtRecords requiredIncludes : List String} :
    (gradeSpf txtRecords requiredIncludes).status = .ok ↔
      ∃ spf, txtRecords.filter isSpf = [spf] ∧ missingFrom spf requiredIncludes = [] ∧
        hasAll spf.toList = true ∧ requiredIncludes ≠ [] := by
  unfold gradeSpf
  match txtRecords.filter isSpf with
  | [] => simp
  | spf :: more :: rest => simp
  | [spf] =>
    constructor
    · intro hok
      dsimp only at hok
      split at hok
      · cases hok
      · rename_i hmissing
        split at hok
        · cases hok
        · rename_i hall
          split at hok
          · cases hok
          · rename_i hsome
            exact ⟨spf, rfl, not_not.mp hmissing, by simpa using hall, hsome⟩
    · rintro ⟨other, hother, hmissing, hall, hsome⟩
      obtain rfl : spf = other := (List.cons.inj hother).1
      dsimp only
      rw [if_neg (not_not.mpr hmissing), if_neg (by simp [hall]), if_neg hsome]

example : (gradeSpf ["v=spf1 include:_spf.google.com ~all"] ["include:amazonses.com"]).fix =
    some "v=spf1 include:_spf.google.com include:amazonses.com ~all" := by decide

example : (gradeSpf ["v=spf1 include:amazonses.com.evil.example -all"]
    ["include:amazonses.com"]).status = .warning := by decide

end Novamail.Deliverability

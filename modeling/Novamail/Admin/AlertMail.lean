/-
  The mail of an alert, as its reader finds it.

  `emailContent` puts the domain of the report into the subject, and `injectEmail` puts the subject
  into a header that it writes as one text.  What a reader of the stored bytes finds is compared
  with the six fields that were meant.
-/
import Novamail.Admin.Alerts
import Novamail.Admin.Routes
import Novamail.Core.Mime

namespace Novamail.Alerts

open Novamail.Core Novamail.Core.Mime Novamail.Deliverability Novamail.Admin

/-! ## The content -/

/-- `r.record.toUpperCase()`. -/
def recordText : RecordKind → String
  | .spf => "SPF"
  | .dkim => "DKIM"
  | .dmarc => "DMARC"
  | .mx => "MX"
  | .mtaSts => "MTA_STS"
  | .bimi => "BIMI"
  | .tlsRpt => "TLS_RPT"

/-- The line of an issue, and that of its fix. -/
def issueText (r : RecordReport) : String :=
  "  • " ++ recordText r.record ++ " [" ++ statusText r.status ++ "]: " ++ r.detail ++
    match r.fix with
    | none => ""
    | some fix => if fix = "" then "" else "\n    fix: " ++ fix

/-- The issues of a report. -/
def issues (rep : DomainReport) : String :=
  "\n".intercalate
    ((rep.records.filter fun r => r.status = .warning || r.status = .error).map issueText)

/-- The subject and the text of an alert mail. -/
structure EmailContent where
  subject : String
  text : String
  deriving DecidableEq, Repr

/-- `emailContent`. -/
def emailContent (event : EventKind) (rep : DomainReport) (was : CheckStatus) : EmailContent :=
  match event with
  | .recovery =>
    { subject := "[NovaMail] " ++ rep.domain ++ " deliverability recovered"
      text := "Deliverability for " ++ rep.domain ++ " is healthy again (was " ++ statusText was ++
        ").\n\nChecked at " ++ rep.checkedAt ++ "." }
  | .regression =>
    { subject := "[NovaMail] " ++ rep.domain ++ " deliverability " ++ statusText rep.status ++
        " (was " ++ statusText was ++ ")"
      text := "Deliverability for " ++ rep.domain ++ " regressed: " ++ statusText was ++ " → " ++
        statusText rep.status ++ ".\n\nIssues:\n" ++ issues rep ++ "\n\nChecked at " ++
        rep.checkedAt ++ "." }

/-- `ch.target.split(",").map((s) => s.trim()).filter(Boolean)`. -/
def recipients (target : String) : List String :=
  (((splitOn ',' target.toList).map trim).filter (· ≠ [])).map String.ofList

/-- `send` for a channel whose type is email. -/
def sendEmail (ch : Channel) (event : EventKind) (rep : DomainReport) (was : CheckStatus) :
    Handler Bool :=
  match ch.target with
  | none => pure false
  | some target =>
    if target = "" then pure false
    else injectEmail (recipients target) (emailContent event rep was).subject
      (emailContent event rep was).text

/-! ## The mail that is meant -/

/-- The six fields. -/
def alertFields (id sender : String) (rcpts : List String) (subject date : String) :
    List (String × String) :=
  [ ("From", "NovaMail Alerts <" ++ sender ++ ">")
  , ("To", ", ".intercalate rcpts)
  , ("Subject", subject)
  , ("Date", date)
  , ("Message-ID", "<" ++ id ++ "@novamail>")
  , ("Content-Type", "text/plain; charset=utf-8") ]

/-- The mail of these fields, each on one line, with the text as its body. -/
def alertMail (id sender : String) (rcpts : List String) (content : EmailContent) (date : String) :
    Mail :=
  { header := fieldsOf (alertFields id sender rcpts content.subject date)
    body := (content.text ++ "\r\n").toList }

/-- What a reader makes of the bytes of a message. -/
def readMail (b : Bytes) : Option Mail := (decode b).bind mail

/-! ## Reading it -/

theorem clean_iff {s : String} : Clean s.toList ↔ hasNewline s = false := by
  unfold Clean hasNewline
  rw [List.any_eq_false]
  constructor
  · intro ⟨hcr, hlf⟩ c hc
    rw [Bool.or_eq_true, decide_eq_true_eq, decide_eq_true_eq]
    rintro (rfl | rfl)
    · exact hcr hc
    · exact hlf hc
  · intro h
    exact ⟨fun hc => h _ hc (by decide), fun hc => h _ hc (by decide)⟩

section

variable {id sender : String} {rcpts : List String} {subject text date : String}

/-- The bytes are a header of the fields, and the text behind it. -/
theorem decode_alertBody : decode (alertBody id sender rcpts subject text date) =
    some (unlines (headerLines (alertFields id sender rcpts subject date)) ++ crlf ++
      (text ++ "\r\n").toList) := by
  unfold alertBody
  rw [decode_toUTF8]
  refine congrArg some ?_
  simp only [alertFields, headerLines, unlines, fieldLine, crlf, List.map_cons, List.map_nil,
    List.flatMap_cons, List.flatMap_nil, String.toList_append, String.reduceToList,
    List.append_assoc, List.cons_append, List.nil_append]

/-- An id as `randomUUID` spells it: digits, letters and dashes. -/
def IsUuid (id : String) : Prop := ∀ c ∈ id.toList, c.isAlphanum ∨ c = '-'

theorem IsUuid.clean (h : IsUuid id) : Clean id.toList :=
  ⟨fun hc => absurd (h _ hc) (by decide), fun hc => absurd (h _ hc) (by decide)⟩

theorem clean_intercalate {sep : String} (hsep : Clean sep.toList)
    (hrcpts : ∀ r ∈ rcpts, Clean r.toList) : Clean (sep.intercalate rcpts).toList := by
  induction rcpts with
  | nil => exact ⟨List.not_mem_nil, List.not_mem_nil⟩
  | cons r rs ih =>
    have hr := hrcpts r List.mem_cons_self
    have hrs := ih fun r hr => hrcpts r (List.mem_cons_of_mem _ hr)
    cases rs with
    | nil => exact hr
    | cons r' rs =>
      rw [String.intercalate_cons_cons, clean_toList, clean_toList]
      exact ⟨⟨hr, hsep⟩, hrs⟩

/-- The guard of `injectEmail`, and a clean subject: every field is clean. -/
theorem alertFields_clean (hid : IsUuid id) (hsender : hasNewline sender = false)
    (hrcpts : rcpts.any hasNewline = false) (hsubject : Clean subject.toList)
    (hdate : Clean date.toList) :
    ∀ f ∈ alertFields id sender rcpts subject date, IsName f.1.toList ∧ Clean f.2.toList := by
  have hlit : ∀ s ∈ ["NovaMail Alerts <", ">", ", ", "<", "@novamail>",
      "text/plain; charset=utf-8"], Clean s.toList := by simp [Clean]
  have hname : ∀ s ∈ ["From", "To", "Subject", "Date", "Message-ID", "Content-Type"],
      IsName s.toList := by simp [IsName, isNameChar]
  have hto : Clean (", ".intercalate rcpts).toList := by
    refine clean_intercalate (hlit ", " (by simp)) fun r hr => clean_iff.mpr ?_
    rw [← Bool.not_eq_true]
    exact List.any_eq_false.mp hrcpts r hr
  intro f hf
  simp only [alertFields, List.mem_cons, List.not_mem_nil, or_false] at hf
  rcases hf with rfl | rfl | rfl | rfl | rfl | rfl
  · refine ⟨hname "From" (by simp), ?_⟩
    rw [clean_toList, clean_toList]
    exact ⟨⟨hlit _ (by simp), clean_iff.mpr hsender⟩, hlit _ (by simp)⟩
  · exact ⟨hname "To" (by simp), hto⟩
  · exact ⟨hname "Subject" (by simp), hsubject⟩
  · exact ⟨hname "Date" (by simp), hdate⟩
  · refine ⟨hname "Message-ID" (by simp), ?_⟩
    rw [clean_toList, clean_toList]
    exact ⟨⟨hlit _ (by simp), hid.clean⟩, hlit _ (by simp)⟩
  · exact ⟨hname "Content-Type" (by simp), hlit _ (by simp)⟩

/-- **The header is read back** exactly where the subject has no CR or LF. -/
theorem readMail_alertBody_iff {content : EmailContent} {t : Stamp} (hid : IsUuid id)
    (hsender : hasNewline sender = false) (hrcpts : rcpts.any hasNewline = false) :
    readMail (alertBody id sender rcpts content.subject content.text (t.written "GMT")) =
      some (alertMail id sender rcpts content (t.written "GMT")) ↔ Clean content.subject.toList := by
  unfold readMail
  rw [decode_alertBody, Option.bind_some]
  constructor
  · intro h
    have hsubject : (⟨"Subject".toList, [content.subject.toList]⟩ : Field) ∈
        (alertMail id sender rcpts content (t.written "GMT")).header :=
      .tail _ (.tail _ (.head _))
    exact mail_clean h _ hsubject _ (List.mem_singleton.mpr rfl)
  · intro hsubject
    have hzone : Clean "GMT".toList := by simp [Clean]
    have hclean := alertFields_clean hid hsender hrcpts hsubject (t.clean_written hzone)
    exact mail_headerLines hclean _

end

/-- The subject is clean exactly where the domain is: the rest of it is fixed. -/
theorem clean_subject_iff (event : EventKind) (rep : DomainReport) (was : CheckStatus) :
    Clean (emailContent event rep was).subject.toList ↔ Clean rep.domain.toList := by
  have hlit : ∀ s ∈ ["[NovaMail] ", " deliverability recovered", " deliverability ", " (was ",
      ")", "ok", "warning", "error", "info"], Clean s.toList := by simp [Clean]
  have hstatus : ∀ st, Clean (statusText st).toList := by
    intro st
    cases st <;> exact hlit _ (by simp [statusText])
  cases event with
  | recovery =>
    unfold emailContent
    dsimp only
    rw [clean_toList, clean_toList]
    constructor
    · exact fun h => h.1.2
    · exact fun h => ⟨⟨hlit _ (by simp), h⟩, hlit _ (by simp)⟩
  | regression =>
    unfold emailContent
    dsimp only
    simp only [clean_toList]
    constructor
    · exact fun h => h.1.1.1.1.1.2
    · exact fun h => ⟨⟨⟨⟨⟨⟨hlit _ (by simp), h⟩, hlit _ (by simp)⟩, hstatus _⟩, hlit _ (by simp)⟩,
        hstatus _⟩, hlit _ (by simp)⟩

/-! ## What is stored -/

/-- A run that stores bytes: they are a mail to these recipients, of the id it drew, the sender it
    read, which passed the guard, and the date it asked for. -/
theorem injectEmail_stores {rcpts : List String} {subject text : String}
    {es : List (Σ o : Op, o.Ret)} {r : Bool}
    (h : (injectEmail rcpts subject text).Transcript es r) {id : MsgId} {b : Bytes} {ok : Bool}
    (hstored : ⟨.write (.insertBody id b), ok⟩ ∈ es) :
    ∃ sender date, ⟨.newID, id⟩ ∈ es ∧ ⟨.ask .alertFrom, some sender⟩ ∈ es ∧
      ⟨.ask .now, date⟩ ∈ es ∧ hasNewline sender = false ∧ rcpts.any hasNewline = false ∧
      b = alertBody id sender rcpts subject text date := by
  unfold injectEmail at h
  split at h
  · rw [h.of_pure] at hstored
    cases hstored
  obtain ⟨id', es₁, rfl, h₁⟩ := h.of_lift_bind
  obtain ⟨sender, es₂, rfl, h₂⟩ := h₁.of_lift_bind
  have hended : es₂ ≠ [] := by
    rintro rfl
    simp at hstored
  cases sender with
  | none => exact absurd h₂.of_pure hended
  | some sender =>
    dsimp only at h₂
    split at h₂
    · exact absurd h₂.of_pure hended
    split at h₂
    · exact absurd h₂.of_pure hended
    rename_i hguard
    rw [Bool.or_eq_true, not_or, Bool.not_eq_true, Bool.not_eq_true] at hguard
    obtain ⟨date, es₃, rfl, h₃⟩ := h₂.of_lift_bind
    obtain ⟨ok₁, es₄, rfl, h₄⟩ := h₃.of_lift_bind
    -- what comes behind stores no body
    have hlater : (⟨.write (.insertBody id b), ok⟩ : Σ o : Op, o.Ret) ∉ es₄ := by
      split at h₄
      · rw [h₄.of_pure]
        exact List.not_mem_nil
      obtain ⟨ok₂, es₅, rfl, h₅⟩ := h₄.of_lift_bind
      split at h₅
      · rw [h₅.of_pure]
        simp
      have hlast : (Prog.call (Op.write (.publishRelayJob (alertJob id' sender rcpts)))
        Prog.pure).Transcript es₅ r := h₅
      cases hlast with
      | call ok₃ rest =>
        cases rest
        simp
    have hfirst : id = id' ∧ b = alertBody id' sender rcpts subject text date := by
      rcases List.mem_cons.mp hstored with heq | hstored
      · cases heq
      rcases List.mem_cons.mp hstored with heq | hstored
      · cases heq
      rcases List.mem_cons.mp hstored with heq | hstored
      · cases heq
      rcases List.mem_cons.mp hstored with heq | hstored
      · cases heq
        exact ⟨rfl, rfl⟩
      · exact absurd hstored hlater
    obtain ⟨rfl, rfl⟩ := hfirst
    exact ⟨sender, date, by simp, by simp, by simp, hguard.1, hguard.2, rfl⟩

/-! ## Runs -/

/-- A channel of one recipient. -/
def ops : Channel := ⟨"1", "ops", "email", some "ops@example.com", none, "warning"⟩

/-- A domain that is well again. -/
def recovered (domain : String) : DomainReport := ⟨domain, "2025-06-04T09:08:07.000Z", .ok, []⟩

/-- An id, and the date of a run. -/
def runID : MsgId := "1b9d6bcd-bbfd-4b2d-9b5d-ab8dfbbd4bed"

def runStamp : Stamp := ⟨3, 4, 5, 2025, 9, 8, 7⟩

/-- The bytes of the mail that the run stores. -/
def runBody (domain : String) : Bytes :=
  alertBody runID "alerts@example.com" ["ops@example.com"]
    (emailContent .recovery (recovered domain) .error).subject
    (emailContent .recovery (recovered domain) .error).text (runStamp.written "GMT")

/-- A run in which every call succeeds. -/
def runCalls (domain : String) : List (Σ o : Op, o.Ret) :=
  [ ⟨.newID, runID⟩
  , ⟨.ask .alertFrom, some "alerts@example.com"⟩
  , ⟨.ask .now, runStamp.written "GMT"⟩
  , ⟨.write (.insertBody runID (runBody domain)), true⟩
  , ⟨.write (.insertMessage runID
        { mailFrom := "alerts@example.com", rcptTo := ["ops@example.com"] }
        { backend := .pg, key := runID }
        { subject := (emailContent .recovery (recovered domain) .error).subject
          sizeBytes := (runBody domain).length } false), true⟩
  , ⟨.write (.publishRelayJob (alertJob runID "alerts@example.com" ["ops@example.com"])), true⟩ ]

theorem sendEmail_run (domain : String) :
    (sendEmail ops .recovery (recovered domain) .error).Transcript (runCalls domain) true := by
  have hrcpts : recipients "ops@example.com" = ["ops@example.com"] := by decide
  have hguard : ¬(hasNewline "alerts@example.com" || ["ops@example.com"].any hasNewline) = true := by
    decide
  unfold sendEmail ops
  dsimp only
  rw [if_neg (by decide), hrcpts]
  unfold injectEmail
  rw [if_neg (by decide)]
  refine .lift_bind (.lift_bind ?_)
  dsimp only
  rw [if_neg (by decide), if_neg hguard]
  have hlast (o : Op) (r : o.Ret) : (Prog.lift o : Handler o.Ret).Transcript [⟨o, r⟩] r := .one o r
  exact .lift_bind (.lift_bind (.lift_bind (hlast (.write _) true)))

/-- A domain with a line of its own. -/
def injected : String := "example.com\r\nBcc: eve@example.net"

/-- **A header is injected.**  The mail that is stored for such a domain has a seventh field. -/
theorem alert_mail_injected :
    (sendEmail ops .recovery (recovered injected) .error).Transcript (runCalls injected) true ∧
    ⟨.write (.insertBody runID (runBody injected)), true⟩ ∈ runCalls injected ∧
    ∃ m, readMail (runBody injected) = some m ∧ m.header.length = 7 ∧
      ⟨"Bcc".toList, ["eve@example.net deliverability recovered".toList]⟩ ∈ m.header := by
  let fs : List (String × String) :=
    [ ("From", "NovaMail Alerts <alerts@example.com>")
    , ("To", "ops@example.com")
    , ("Subject", "[NovaMail] example.com")
    , ("Bcc", "eve@example.net deliverability recovered")
    , ("Date", "Wed, 04 Jun 2025 09:08:07 GMT")
    , ("Message-ID", "<1b9d6bcd-bbfd-4b2d-9b5d-ab8dfbbd4bed@novamail>")
    , ("Content-Type", "text/plain; charset=utf-8") ]
  have hfs : ∀ f ∈ fs, IsName f.1.toList ∧ Clean f.2.toList := by decide +kernel
  have htext : unlines (headerLines (alertFields runID "alerts@example.com" ["ops@example.com"]
      (emailContent .recovery (recovered injected) .error).subject (runStamp.written "GMT"))) =
      unlines (headerLines fs) := by
    decide +kernel
  refine ⟨sendEmail_run injected, by simp [runCalls], ?_⟩
  unfold readMail runBody
  rw [decode_alertBody, Option.bind_some, htext, mail_headerLines hfs]
  exact ⟨_, rfl, rfl, .tail _ (.tail _ (.tail _ (.head _)))⟩

/-- **Alert mail is read as it was meant, exactly where the domain has no CR or LF.**  Whatever the
    channel, the event, the report and the settings, the bytes that a run of `send` stores are read
    as the six fields, each on one line, and the text behind them, if and only if the domain of the
    report has neither character. -/
theorem alert_mail_iff {ch : Channel} {event : EventKind} {rep : DomainReport} {was : CheckStatus}
    {es : List (Σ o : Op, o.Ret)} {r : Bool} (h : (sendEmail ch event rep was).Transcript es r)
    (huuid : ∀ id, ⟨.newID, id⟩ ∈ es → IsUuid id)
    (hnow : ∀ date, ⟨.ask .now, date⟩ ∈ es → ∃ t : Stamp, date = t.written "GMT")
    {id : MsgId} {b : Bytes} {ok : Bool} (hstored : ⟨.write (.insertBody id b), ok⟩ ∈ es) :
    ∃ target sender date, ch.target = some target ∧ ⟨.ask .alertFrom, some sender⟩ ∈ es ∧
      ⟨.ask .now, date⟩ ∈ es ∧
      (readMail b = some (alertMail id sender (recipients target) (emailContent event rep was) date)
        ↔ hasNewline rep.domain = false) := by
  unfold sendEmail at h
  split at h
  · rw [h.of_pure] at hstored
    cases hstored
  rename_i target htarget
  split at h
  · rw [h.of_pure] at hstored
    cases hstored
  obtain ⟨sender, date, hid, hfrom, hdate, hsender, hrcpts, rfl⟩ := injectEmail_stores h hstored
  obtain ⟨t, rfl⟩ := hnow date hdate
  refine ⟨target, sender, _, htarget, hfrom, hdate, ?_⟩
  rw [readMail_alertBody_iff (huuid id hid) hsender hrcpts, clean_subject_iff, clean_iff]

/-- A run for an ordinary domain. -/
theorem alert_mail_iff_ordinary :
    (⟨.write (.insertBody runID (runBody "example.com")), true⟩ : Σ o : Op, o.Ret) ∈
      runCalls "example.com" ∧
    ∃ target sender date, readMail (runBody "example.com") = some (alertMail runID sender
      (recipients target) (emailContent .recovery (recovered "example.com") .error) date) := by
  have hstored : (⟨.write (.insertBody runID (runBody "example.com")), true⟩ : Σ o : Op, o.Ret) ∈
      runCalls "example.com" := by simp [runCalls]
  have huuid : ∀ id, (⟨.newID, id⟩ : Σ o : Op, o.Ret) ∈ runCalls "example.com" → IsUuid id := by
    intro id hid
    have heq : id = runID := by simpa [runCalls] using hid
    rw [heq]
    exact forall_mem_of_all (by decide)
  have hnow : ∀ date, (⟨.ask .now, date⟩ : Σ o : Op, o.Ret) ∈ runCalls "example.com" →
      ∃ t : Stamp, date = t.written "GMT" := by
    intro date hdate
    exact ⟨runStamp, by simpa [runCalls] using hdate⟩
  obtain ⟨target, sender, date, -, -, -, hiff⟩ :=
    alert_mail_iff (sendEmail_run "example.com") huuid hnow hstored
  exact ⟨hstored, target, sender, date, hiff.mpr (by decide)⟩

end Novamail.Alerts

/-
  The bounce, as its reader finds it.

  `buildDSN` writes a multipart/report by lines; the diagnostic, which comes from a remote server,
  is written into one line of the first part and into one line of each group of the second.  What a
  reader of the bytes finds is compared with the report that was meant.
-/
import Novamail.Core.Mime
import Novamail.Dsn.Handle

namespace Novamail.Dsn

open Novamail.Core.Mime

/-- The time in the layout `time.RFC1123Z`, in UTC. -/
def rfc1123z (t : Stamp) : String := t.written "+0000"

/-! ## The report that is meant -/

/-- The eight fields of the header. -/
def dsnHeader (host id sender date : String) : List (String × String) :=
  [ ("From", "MAILER-DAEMON@" ++ host)
  , ("To", sender)
  , ("Subject", "Delivery Status Notification (Failure)")
  , ("Date", date)
  , ("Message-Id", "<dsn-" ++ id ++ "@" ++ host ++ ">")
  , ("MIME-Version", "1.0")
  , ("Auto-Submitted", "auto-replied")
  , ("Content-Type", "multipart/report; report-type=delivery-status; boundary=\"" ++
      ("novamail-dsn-" ++ id) ++ "\"") ]

def noticeHeader : List (String × String) := [("Content-Type", "text/plain; charset=utf-8")]

/-- The lines of the part for humans, as far as the diagnostic. -/
def noticeStart (host : String) (rcpts : List String) : List String :=
  [ "This is the mail delivery system at " ++ host ++ "."
  , ""
  , "Your message could not be delivered to the following recipient(s):"
  , "" ]
  ++ rcpts.map (fun r => "  " ++ r)
  ++ [""]

/-- The lines of the part for humans. -/
def noticeLines (host : String) (rcpts : List String) (detail : String) : List String :=
  noticeStart host rcpts ++ ["Diagnostic: " ++ detail, ""]

def statusHeader : List (String × String) := [("Content-Type", "message/delivery-status")]

def messageFields (host : String) : List (String × String) := [("Reporting-MTA", "dns; " ++ host)]

def recipientFields (detail r : String) : List (String × String) :=
  [ ("Final-Recipient", "rfc822; " ++ r)
  , ("Action", "failed")
  , ("Status", "5.0.0")
  , ("Diagnostic-Code", "smtp; " ++ detail) ]

/-- The diagnostic that is written. -/
def diagnostic (detail : String) : String :=
  if detail = "" then "delivery to upstream provider failed" else detail

/-- The report: eight fields, a notice, a group for the message and one for each recipient. -/
def bounceReport (host id sender : String) (rcpts : List String) (detail date : String) : Report :=
  { header := fieldsOf (dsnHeader host id sender date)
    notice := ⟨fieldsOf noticeHeader, (noticeLines host rcpts (diagnostic detail)).map String.toList⟩
    statusHeader := fieldsOf statusHeader
    message := fieldsOf (messageFields host)
    recipients := rcpts.map fun r => fieldsOf (recipientFields (diagnostic detail) r) }

/-- What a reader makes of the bytes of a message. -/
def readReport (b : Bytes) : Option Report := ((decode b).bind mail).bind report

/-! ## The lines -/

section

variable {host id sender : String} {rcpts : List String} {detail date : String}

/-- The boundary. -/
def boundary (id : String) : Text := ("novamail-dsn-" ++ id).toList

/-- The lines of the body. -/
def bodyLines (host id : String) (rcpts : List String) (detail : String) : List Text :=
  reportLines (boundary id) noticeHeader ((noticeLines host rcpts detail).map String.toList)
    statusHeader (messageFields host) (rcpts.map (recipientFields detail))

/-- What `buildDSN` writes is a header, an empty line, and the body of a report. -/
theorem dsnLines_eq : (dsnLines host id sender rcpts detail date).map String.toList =
    headerLines (dsnHeader host id sender date) ++ [] :: bodyLines host id rcpts detail := by
  simp only [dsnLines, bodyLines, reportLines, boundary, headerLines, dsnHeader, noticeHeader,
    noticeStart, noticeLines, statusHeader, messageFields, recipientFields, delimiter, closing,
    fieldLine, List.map_cons, List.map_nil, List.map_append, List.map_map, List.map_flatMap,
    List.flatMap_map, Function.comp_def, String.toList_append, String.reduceToList,
    List.append_assoc, List.cons_append, List.nil_append]

theorem toList_join (ls : List String) :
    (String.join (ls.map (· ++ "\r\n"))).toList = unlines (ls.map String.toList) := by
  unfold unlines
  rw [String.toList_join, List.flatMap_map, List.flatMap_map]
  refine List.flatMap_congr fun l _ => ?_
  exact String.toList_append

theorem decode_buildDSN : decode (buildDSN host id sender rcpts detail date) =
    some (unlines (headerLines (dsnHeader host id sender date)) ++ crlf ++
      unlines (bodyLines host id rcpts (diagnostic detail))) := by
  unfold buildDSN
  rw [decode_toUTF8, toList_join]
  refine congrArg some ?_
  show unlines ((dsnLines host id sender rcpts (diagnostic detail) date).map String.toList) = _
  rw [dsnLines_eq, unlines_append, List.append_assoc]
  rfl

/-! ## What is clean -/

/-- An id as `newID` spells it. -/
def IsHex (id : String) : Prop := ∀ c ∈ id.toList, c.isDigit ∨ ('a' ≤ c ∧ c ≤ 'f')

theorem IsHex.not_mem {c : Char} (h : IsHex id) (hc : ¬(c.isDigit ∨ ('a' ≤ c ∧ c ≤ 'f'))) :
    c ∉ id.toList := fun hmem => hc (h c hmem)

theorem IsHex.clean (h : IsHex id) : Clean id.toList :=
  ⟨h.not_mem (by decide), h.not_mem (by decide)⟩

/-- The names of the fields. -/
theorem names_ok : ∀ s ∈ ["From", "To", "Subject", "Date", "Message-Id", "MIME-Version",
    "Auto-Submitted", "Content-Type", "Reporting-MTA", "Final-Recipient", "Action", "Status",
    "Diagnostic-Code"], IsName s.toList ∧ s.toList.head? ≠ some '-' := by simp [IsName, isNameChar]

/-- The texts between the values. -/
theorem texts_clean : ∀ s ∈ ["MAILER-DAEMON@", "Delivery Status Notification (Failure)", "<dsn-",
    "@", ">", "1.0", "auto-replied", "multipart/report; report-type=delivery-status; boundary=\"",
    "novamail-dsn-", "\"", "text/plain; charset=utf-8", "message/delivery-status", "dns; ",
    "rfc822; ", "failed", "5.0.0", "smtp; ", "This is the mail delivery system at ", ".", "",
    "Your message could not be delivered to the following recipient(s):", "  ", "Diagnostic: ",
    "delivery to upstream provider failed", "+0000"], Clean s.toList := by simp [Clean]

/-- A field of a good name and a clean value. -/
theorem plain {f : String × String} (hname : IsName f.1.toList ∧ f.1.toList.head? ≠ some '-')
    (hvalue : Clean f.2.toList) : Plain f := ⟨hname.1, hvalue, hname.2⟩

theorem clean_diagnostic : Clean (diagnostic detail).toList ↔ Clean detail.toList := by
  unfold diagnostic
  split
  · rename_i hempty
    rw [hempty]
    exact iff_of_true (texts_clean _ (by simp)) (texts_clean _ (by simp))
  · rfl

/-- The fields of the header are clean, but for what is said of the inputs. -/
theorem dsnHeader_ok (hhost : Clean host.toList) (hid : IsHex id) (hsender : Clean sender.toList)
    (hdate : Clean date.toList) :
    ∀ f ∈ dsnHeader host id sender date, IsName f.1.toList ∧ Clean f.2.toList := by
  intro f hf
  simp only [dsnHeader, List.mem_cons, List.not_mem_nil, or_false] at hf
  rcases hf with rfl | rfl | rfl | rfl | rfl | rfl | rfl | rfl
  · refine ⟨(names_ok _ (by simp)).1, ?_⟩
    rw [clean_toList]
    exact ⟨texts_clean _ (by simp), hhost⟩
  · exact ⟨(names_ok _ (by simp)).1, hsender⟩
  · exact ⟨(names_ok _ (by simp)).1, texts_clean _ (by simp)⟩
  · exact ⟨(names_ok _ (by simp)).1, hdate⟩
  · refine ⟨(names_ok _ (by simp)).1, ?_⟩
    simp only [clean_toList]
    exact ⟨⟨⟨⟨texts_clean _ (by simp), hid.clean⟩, texts_clean _ (by simp)⟩, hhost⟩,
      texts_clean _ (by simp)⟩
  · exact ⟨(names_ok _ (by simp)).1, texts_clean _ (by simp)⟩
  · exact ⟨(names_ok _ (by simp)).1, texts_clean _ (by simp)⟩
  · refine ⟨(names_ok _ (by simp)).1, ?_⟩
    simp only [clean_toList]
    exact ⟨⟨texts_clean _ (by simp), texts_clean _ (by simp), hid.clean⟩, texts_clean _ (by simp)⟩

/-- So are those of a group. -/
theorem plain_groups (hhost : Clean host.toList) (hrcpts : ∀ r ∈ rcpts, Clean r.toList)
    (hdetail : Clean detail.toList) :
    ∀ g ∈ messageFields host :: rcpts.map (recipientFields detail),
      g ≠ [] ∧ ∀ f ∈ g, Plain f := by
  intro g hg
  rcases List.mem_cons.mp hg with rfl | hg
  · refine ⟨List.cons_ne_nil _ _, fun f hf => ?_⟩
    rw [List.mem_singleton.mp hf]
    exact plain (names_ok _ (by simp)) (clean_toList.mpr ⟨texts_clean _ (by simp), hhost⟩)
  · obtain ⟨r, hr, rfl⟩ := List.mem_map.mp hg
    refine ⟨List.cons_ne_nil _ _, fun f hf => ?_⟩
    simp only [recipientFields, List.mem_cons, List.not_mem_nil, or_false] at hf
    rcases hf with rfl | rfl | rfl | rfl
    · exact plain (names_ok _ (by simp)) (clean_toList.mpr ⟨texts_clean _ (by simp), hrcpts r hr⟩)
    · exact plain (names_ok _ (by simp)) (texts_clean _ (by simp))
    · exact plain (names_ok _ (by simp)) (texts_clean _ (by simp))
    · exact plain (names_ok _ (by simp)) (clean_toList.mpr ⟨texts_clean _ (by simp), hdetail⟩)

/-- And those of the parts. -/
theorem plain_types : (∀ f ∈ noticeHeader, Plain f) ∧ ∀ f ∈ statusHeader, Plain f := by
  constructor
  · intro f hf
    rw [List.mem_singleton.mp hf]
    exact plain (names_ok _ (by simp)) (texts_clean _ (by simp))
  · intro f hf
    rw [List.mem_singleton.mp hf]
    exact plain (names_ok _ (by simp)) (texts_clean _ (by simp))

/-- The notice is plain as far as the diagnostic. -/
theorem plainLine_noticeStart (hhost : Clean host.toList) (hrcpts : ∀ r ∈ rcpts, Clean r.toList) :
    ∀ l ∈ (noticeStart host rcpts).map String.toList, PlainLine l := by
  intro l hl
  obtain ⟨s, hs, rfl⟩ := List.mem_map.mp hl
  simp only [noticeStart, List.mem_append, List.mem_cons, List.mem_map, List.not_mem_nil,
    or_false] at hs
  rcases hs with ((rfl | rfl | rfl | rfl) | ⟨r, hr, rfl⟩) | rfl
  · refine ⟨?_, by simp [String.toList_append]⟩
    rw [clean_toList, clean_toList]
    exact ⟨⟨texts_clean _ (by simp), hhost⟩, texts_clean _ (by simp)⟩
  · exact ⟨texts_clean _ (by simp), by simp⟩
  · exact ⟨texts_clean _ (by simp), by simp⟩
  · exact ⟨texts_clean _ (by simp), by simp⟩
  · exact ⟨clean_toList.mpr ⟨texts_clean _ (by simp), hrcpts r hr⟩, by simp [String.toList_append]⟩
  · exact ⟨texts_clean _ (by simp), by simp⟩

/-- And the line with it. -/
theorem plainLine_diagnostic (hdetail : Clean detail.toList) :
    PlainLine ("Diagnostic: " ++ detail).toList :=
  ⟨clean_toList.mpr ⟨texts_clean _ (by simp), hdetail⟩, by simp [String.toList_append]⟩

theorem clean_boundary (hid : IsHex id) : Clean (boundary id) :=
  clean_toList.mpr ⟨texts_clean _ (by simp), hid.clean⟩

/-! ## The type of the message -/

/-- The value of the last field of the header. -/
def contentType (id : String) : Text :=
  ("multipart/report; report-type=delivery-status; boundary=\"" ++ ("novamail-dsn-" ++ id) ++
    "\"").toList

theorem valueOf_dsnHeader : valueOf "content-type".toList (fieldsOf (dsnHeader host id sender date)) =
    some (contentType id) := by
  have hother : ∀ s ∈ ["From", "To", "Subject", "Date", "Message-Id", "MIME-Version",
      "Auto-Submitted"], s.toList.map Char.toLower ≠ "content-type".toList := by simp
  have hself : "Content-Type".toList.map Char.toLower = "content-type".toList := by simp
  have hsplit : dsnHeader host id sender date = (dsnHeader host id sender date).dropLast ++
      [("Content-Type", "multipart/report; report-type=delivery-status; boundary=\"" ++
        ("novamail-dsn-" ++ id) ++ "\"")] := rfl
  rw [hsplit]
  refine valueOf_append ?_ hself
  intro f hf
  simp only [dsnHeader, List.dropLast_cons_cons, List.dropLast_singleton, List.mem_cons,
    List.not_mem_nil, or_false] at hf
  rcases hf with rfl | rfl | rfl | rfl | rfl | rfl | rfl <;> exact hother _ (by simp)

theorem contentType_splitOn (hid : IsHex id) : (contentType id).splitOn ';' =
    [ "multipart/report".toList
    , " report-type=delivery-status".toList
    , ' ' :: ("boundary".toList ++ ['=', '"'] ++ (("novamail-dsn-" ++ id).toList ++ ['"'])) ] := by
  have htext : contentType id = "multipart/report".toList ++ ';' ::
      (" report-type=delivery-status".toList ++ ';' ::
        ' ' :: ("boundary".toList ++ ['=', '"'] ++ (("novamail-dsn-" ++ id).toList ++ ['"']))) := by
    simp only [contentType, String.toList_append, String.reduceToList, List.cons_append,
      List.nil_append]
  have hlast : ';' ∉ ' ' :: ("boundary".toList ++ ['=', '"'] ++
      (("novamail-dsn-" ++ id).toList ++ ['"'])) := by
    have hsemi : ';' ∉ id.toList := hid.not_mem (by decide)
    simp [String.toList_append, hsemi]
  rw [htext, List.splitOn_append_cons_self_of_not_mem (by simp),
    List.splitOn_append_cons_self_of_not_mem (by simp), List.splitOn_eq_singleton hlast]

theorem mediaType_contentType (hid : IsHex id) :
    mediaType (contentType id) = "multipart/report".toList := by
  unfold mediaType
  rw [contentType_splitOn hid]
  rfl

theorem boundary_dsnHeader (hid : IsHex id) :
    parameter "boundary".toList (contentType id) = some ("novamail-dsn-" ++ id).toList := by
  have hname : isFold ("boundary".toList ++ ['=', '"']) = false := by decide
  have hquote : '"' ∉ ("novamail-dsn-" ++ id).toList := by
    have hid' : '"' ∉ id.toList := hid.not_mem (by decide)
    simp [String.toList_append, hid']
  have hother : quoted "boundary".toList " report-type=delivery-status".toList = none := by
    decide
  unfold parameter
  rw [contentType_splitOn hid, List.tail_cons, List.findSome?_cons, hother]
  show (List.findSome? _ _) = _
  rw [List.findSome?_cons, quoted_self hname hquote]

/-! ## Reading it -/

/-- **A body under the header of a bounce is read back.** -/
theorem report_bounce {notice : List Text} {gs : List (List (String × String))} (hid : IsHex id)
    (hnotice : ∀ l ∈ notice, PlainLine l)
    (hgs : ∀ g ∈ messageFields host :: gs, g ≠ [] ∧ ∀ f ∈ g, Plain f) (hne : gs ≠ []) :
    report ⟨fieldsOf (dsnHeader host id sender date), unlines (reportLines (boundary id)
        noticeHeader notice statusHeader (messageFields host) gs)⟩ =
      some ⟨fieldsOf (dsnHeader host id sender date), ⟨fieldsOf noticeHeader, notice⟩,
        fieldsOf statusHeader, fieldsOf (messageFields host), gs.map fieldsOf⟩ := by
  exact report_reportLines valueOf_dsnHeader (mediaType_contentType hid) (boundary_dsnHeader hid)
    (clean_boundary hid) plain_types.1 hnotice plain_types.2 hgs hne

/-! ### A diagnostic with line ends -/

/-- The lines in front of the diagnostic. -/
def openingLines (host id : String) (rcpts : List String) : List Text :=
  delimiter (boundary id) ::
    (headerLines noticeHeader ++ [] :: (noticeStart host rcpts).map String.toList)

theorem bodyLines_eq (host id : String) (rcpts : List String) (detail : String) :
    ∃ rest, bodyLines host id rcpts detail =
      openingLines host id rcpts ++ ("Diagnostic: " ++ detail).toList :: rest := by
  refine ⟨[] :: delimiter (boundary id) :: (headerLines statusHeader ++ [] ::
    (headerLines (messageFields host) ++ ((rcpts.map (recipientFields detail)).flatMap
      (fun g => [] :: headerLines g) ++ [[]]))) ++ [closing (boundary id)], ?_⟩
  simp only [bodyLines, reportLines, openingLines, noticeLines, List.map_append, List.map_cons,
    List.map_nil, List.append_assoc, List.cons_append, List.nil_append, String.reduceToList]

theorem openingLines_clean (hhost : Clean host.toList) (hid : IsHex id)
    (hrcpts : ∀ r ∈ rcpts, Clean r.toList) : ∀ l ∈ openingLines host id rcpts, Clean l := by
  intro l hl
  rcases List.mem_cons.mp hl with rfl | hl
  · exact clean_delimiter (clean_boundary hid)
  · exact (plainLine_part plain_types.1 (plainLine_noticeStart hhost hrcpts) l hl).1

/-- **A reply of several lines makes the bounce unreadable**: its first LF stands alone. -/
theorem bounce_unreadable {t : Stamp} {d d' : String} (hhost : Clean host.toList) (hid : IsHex id)
    (hsender : Clean sender.toList) (hrcpts : ∀ r ∈ rcpts, Clean r.toList) (hd : Clean d.toList) :
    readReport (buildDSN host id sender rcpts (d ++ "\n" ++ d') (rfc1123z t)) = none := by
  have hdate : Clean (rfc1123z t).toList := t.clean_written (texts_clean _ (by simp))
  have hdiag : diagnostic (d ++ "\n" ++ d') = d ++ "\n" ++ d' := by
    refine if_neg fun h => ?_
    have hlist := congrArg String.toList h
    simp [String.toList_append] at hlist
  obtain ⟨rest, hbody⟩ := bodyLines_eq host id rcpts (d ++ "\n" ++ d')
  have htext : unlines (bodyLines host id rcpts (d ++ "\n" ++ d')) =
      unlines (openingLines host id rcpts) ++
        (("Diagnostic: " ++ d).toList ++ '\n' :: (d'.toList ++ crlf ++ unlines rest)) := by
    rw [hbody, unlines_append]
    unfold unlines
    simp only [List.flatMap_cons, String.toList_append, String.reduceToList, List.append_assoc,
      List.cons_append, List.nil_append]
  have hlines : lines (unlines (bodyLines host id rcpts (d ++ "\n" ++ d'))) = none := by
    rw [htext, lines_append (openingLines_clean hhost hid hrcpts),
      lines_bare (plainLine_diagnostic hd).1]
    rfl
  unfold readReport
  rw [decode_buildDSN, Option.bind_some, hdiag,
    mail_headerLines (dsnHeader_ok hhost hid hsender hdate), Option.bind_some]
  simp only [report, valueOf_dsnHeader, boundary_dsnHeader hid, hlines, Option.bind_eq_bind,
    Option.bind_some, Option.bind_none]
  exact ite_self none

/-- The body of a diagnostic with one more line in it is the body of a report with one more field
    for each recipient. -/
theorem unlines_forged (host id : String) (rcpts : List String) (d : String) (f : String × String) :
    unlines (bodyLines host id rcpts (d ++ "\r\n" ++ (f.1 ++ ": " ++ f.2))) =
      unlines (reportLines (boundary id) noticeHeader
        ((noticeStart host rcpts ++ ["Diagnostic: " ++ d, f.1 ++ ": " ++ f.2, ""]).map
          String.toList)
        statusHeader (messageFields host) (rcpts.map fun r => recipientFields d r ++ [f])) := by
  have hgroups : unlines ((rcpts.map (recipientFields (d ++ "\r\n" ++ (f.1 ++ ": " ++ f.2)))).flatMap
      fun g => [] :: headerLines g) =
      unlines ((rcpts.map fun r => recipientFields d r ++ [f]).flatMap
        fun g => [] :: headerLines g) := by
    unfold unlines
    rw [List.flatMap_assoc, List.flatMap_assoc, List.flatMap_map, List.flatMap_map]
    refine List.flatMap_congr fun r _ => ?_
    simp only [headerLines, recipientFields, fieldLine, crlf, List.map_cons, List.map_nil,
      List.flatMap_cons, List.flatMap_nil, String.toList_append, String.reduceToList,
      List.append_assoc, List.cons_append, List.nil_append]
  have hnotice : unlines ((noticeLines host rcpts (d ++ "\r\n" ++ (f.1 ++ ": " ++ f.2))).map
      String.toList) = unlines ((noticeStart host rcpts ++
        ["Diagnostic: " ++ d, f.1 ++ ": " ++ f.2, ""]).map String.toList) := by
    unfold noticeLines
    rw [List.map_append, List.map_append, unlines_append, unlines_append,
      List.append_cancel_left_eq]
    simp only [unlines, crlf, List.map_cons, List.map_nil, List.flatMap_cons, List.flatMap_nil,
      String.toList_append, String.reduceToList, List.append_assoc, List.cons_append,
      List.nil_append]
  unfold bodyLines
  rw [unlines_reportLines, unlines_reportLines, hgroups, hnotice]

/-- **A line forges a field.**  A diagnostic that ends a line and goes on with a field gives every
    recipient that field. -/
theorem bounce_forges {t : Stamp} {d : String} {f : String × String} (hhost : Clean host.toList)
    (hid : IsHex id) (hsender : Clean sender.toList) (hne : rcpts ≠ [])
    (hrcpts : ∀ r ∈ rcpts, Clean r.toList) (hd : Clean d.toList) (hf : Plain f) :
    (readReport (buildDSN host id sender rcpts (d ++ "\r\n" ++ (f.1 ++ ": " ++ f.2))
        (rfc1123z t))).map Report.recipients =
      some (rcpts.map fun r => fieldsOf (recipientFields d r ++ [f])) := by
  have hdate : Clean (rfc1123z t).toList := t.clean_written (texts_clean _ (by simp))
  have hdiag : diagnostic (d ++ "\r\n" ++ (f.1 ++ ": " ++ f.2)) =
      d ++ "\r\n" ++ (f.1 ++ ": " ++ f.2) := by
    refine if_neg fun h => ?_
    have hlist := congrArg String.toList h
    simp [String.toList_append] at hlist
  have hnotice : ∀ l ∈ (noticeStart host rcpts ++
      ["Diagnostic: " ++ d, f.1 ++ ": " ++ f.2, ""]).map String.toList, PlainLine l := by
    have hline : PlainLine (f.1 ++ ": " ++ f.2).toList := by
      have htext : (f.1 ++ ": " ++ f.2).toList = fieldLine (f.1.toList, f.2.toList) := by
        simp [fieldLine, String.toList_append]
      have hlines : ∀ l ∈ headerLines [f], PlainLine l :=
        plainLine_headerLines (List.forall_mem_singleton.mpr hf)
      rw [htext]
      exact hlines _ (List.mem_singleton.mpr rfl)
    rw [List.map_append]
    intro l hl
    rcases List.mem_append.mp hl with hl | hl
    · exact plainLine_noticeStart hhost hrcpts l hl
    · simp only [List.map_cons, List.map_nil, List.mem_cons, List.not_mem_nil, or_false] at hl
      rcases hl with rfl | rfl | rfl
      · exact plainLine_diagnostic hd
      · exact hline
      · exact plainLine_nil
  have hgs : ∀ g ∈ messageFields host :: rcpts.map fun r => recipientFields d r ++ [f],
      g ≠ [] ∧ ∀ f ∈ g, Plain f := by
    have hold := plain_groups hhost hrcpts hd
    intro g hg
    rcases List.mem_cons.mp hg with rfl | hg
    · exact hold _ List.mem_cons_self
    · obtain ⟨r, hr, rfl⟩ := List.mem_map.mp hg
      refine ⟨List.cons_ne_nil _ _, fun f' hf' => ?_⟩
      rcases List.mem_append.mp hf' with hf' | hf'
      · exact (hold _ (List.mem_cons_of_mem _ (List.mem_map_of_mem hr))).2 f' hf'
      · rw [List.mem_singleton.mp hf']
        exact hf
  unfold readReport
  rw [decode_buildDSN, Option.bind_some, hdiag,
    mail_headerLines (dsnHeader_ok hhost hid hsender hdate), Option.bind_some, unlines_forged,
    report_bounce hid hnotice hgs (mt List.map_eq_nil_iff.mp hne), Option.map_some, List.map_map]
  rfl

/-- A reply of two lines, and a diagnostic with a status of its own, are not read as what was
    meant. -/
theorem bounce_misread :
    readReport (buildDSN "relay.example" "abc123" "alice@example.com" ["bob@downstream.test"]
      "550 no such user\n550 see example.net" (rfc1123z ⟨3, 4, 5, 2025, 9, 8, 7⟩)) = none ∧
    (readReport (buildDSN "relay.example" "abc123" "alice@example.com" ["bob@downstream.test"]
      "550 no\r\nStatus: 2.0.0" (rfc1123z ⟨3, 4, 5, 2025, 9, 8, 7⟩))).map Report.recipients =
    some [fieldsOf
      [ ("Final-Recipient", "rfc822; bob@downstream.test")
      , ("Action", "failed")
      , ("Status", "5.0.0")
      , ("Diagnostic-Code", "smtp; 550 no")
      , ("Status", "2.0.0") ]] := by
  have hid : IsHex "abc123" := Core.forall_mem_of_all (by simp)
  have hhost : Clean "relay.example".toList := by simp [Clean]
  have hsender : Clean "alice@example.com".toList := by simp [Clean]
  have hrcpts : ∀ r ∈ ["bob@downstream.test"], Clean r.toList := by simp [Clean]
  constructor
  · have hreply : "550 no such user\n550 see example.net" =
        "550 no such user" ++ "\n" ++ "550 see example.net" := by simp
    rw [hreply]
    exact bounce_unreadable hhost hid hsender hrcpts (by simp [Clean])
  · have hreply : "550 no\r\nStatus: 2.0.0" =
        "550 no" ++ "\r\n" ++ ("Status" ++ ": " ++ "2.0.0") := by simp
    have hf : Plain ("Status", "2.0.0") :=
      plain (names_ok _ (by simp)) (by simp [Clean])
    have hfields : recipientFields "550 no" "bob@downstream.test" ++ [("Status", "2.0.0")] =
      [ ("Final-Recipient", "rfc822; bob@downstream.test")
      , ("Action", "failed")
      , ("Status", "5.0.0")
      , ("Diagnostic-Code", "smtp; 550 no")
      , ("Status", "2.0.0") ] := by decide
    have hd : Clean "550 no".toList := by simp [Clean]
    have hforged := bounce_forges (t := ⟨3, 4, 5, 2025, 9, 8, 7⟩) hhost hid hsender
      (List.cons_ne_nil _ []) hrcpts hd hf
    rw [hreply, hforged, List.map_singleton, hfields]

/-- **The bounce is read as it was meant, exactly where the diagnostic has no CR or LF.**  For any
    host, id, sender and recipients without them the bytes are read as the eight fields, the two
    parts, and in the second the group of the message and one group of four fields for each
    recipient, if and only if the diagnostic has neither character. -/
theorem bounce_iff {t : Stamp} (hhost : Clean host.toList) (hid : IsHex id)
    (hsender : Clean sender.toList) (hne : rcpts ≠ []) (hrcpts : ∀ r ∈ rcpts, Clean r.toList) :
    readReport (buildDSN host id sender rcpts detail (rfc1123z t)) =
      some (bounceReport host id sender rcpts detail (rfc1123z t)) ↔ Clean detail.toList := by
  unfold readReport
  rw [decode_buildDSN, Option.bind_some]
  constructor
  · intro h
    obtain ⟨m, -, hreport⟩ := Option.bind_eq_some_iff.mp h
    have hmem : ("Diagnostic: " ++ diagnostic detail).toList ∈
        (bounceReport host id sender rcpts detail (rfc1123z t)).notice.body :=
      List.mem_map_of_mem (by simp [noticeLines])
    exact clean_diagnostic.mp (clean_toList.mp (report_clean hreport _ hmem)).2
  · intro hdetail
    have hdate : Clean (rfc1123z t).toList := t.clean_written (texts_clean _ (by simp))
    have hdiag : Clean (diagnostic detail).toList := clean_diagnostic.mpr hdetail
    have hnotice : ∀ l ∈ (noticeLines host rcpts (diagnostic detail)).map String.toList,
        PlainLine l := by
      unfold noticeLines
      rw [List.map_append]
      intro l hl
      rcases List.mem_append.mp hl with hl | hl
      · exact plainLine_noticeStart hhost hrcpts l hl
      · simp only [List.map_cons, List.map_nil, List.mem_cons, List.not_mem_nil, or_false] at hl
        rcases hl with rfl | rfl
        · exact plainLine_diagnostic hdiag
        · exact plainLine_nil
    rw [mail_headerLines (dsnHeader_ok hhost hid hsender hdate), Option.bind_some]
    refine (report_bounce hid hnotice (plain_groups hhost hrcpts hdiag)
      (mt List.map_eq_nil_iff.mp hne)).trans ?_
    rw [List.map_map]
    rfl

/-- A bounce of an ordinary failure. -/
theorem bounce_iff_ordinary :
    readReport (buildDSN "relay.example" "abc123" "alice@example.com" ["bob@downstream.test"]
      "550 no such user" (rfc1123z ⟨3, 4, 5, 2025, 9, 8, 7⟩)) =
    some (bounceReport "relay.example" "abc123" "alice@example.com" ["bob@downstream.test"]
      "550 no such user" (rfc1123z ⟨3, 4, 5, 2025, 9, 8, 7⟩)) := by
  have hid : IsHex "abc123" := Core.forall_mem_of_all (by simp)
  exact (bounce_iff (by simp [Clean]) hid (by simp [Clean]) (by decide)
    (by simp [Clean])).mpr (by simp [Clean])

end

end Novamail.Dsn

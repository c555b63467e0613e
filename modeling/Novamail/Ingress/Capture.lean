/-
  `captureWriter` of `cmd/ingress/backend.go`, and `Data` over the reads that a body arrives in.

  The body goes to the store through a tee, which shows each read to the capture writer: it counts
  the bytes and keeps the first of them for the headers.  What `Data` compares and records is taken
  from there, so it must not depend on how the network has split the body.  It does not: the count
  and the buffer are those of the bytes in a row, by the one invariant `Captures`.
-/
import Novamail.Ingress.Session

namespace Novamail.Ingress

open Novamail.Core

/-! ## The writer -/

/-- `captureWriter`. -/
structure CaptureWriter where
  hdr : Bytes := []
  n : Nat := 0
  limit : Int
  deriving DecidableEq, Repr

/-- `Write`: what it reports as written, with a nil error, and the writer after it. -/
def CaptureWriter.write (c : CaptureWriter) (p : Bytes) : Nat × CaptureWriter :=
  let c := { c with n := c.n + p.length }
  let rem : Int := c.limit - c.hdr.length
  (p.length,
    if 0 < rem then
      if p.length ≤ rem then { c with hdr := c.hdr ++ p }
      else { c with hdr := c.hdr ++ p.take rem.toNat }
    else c)

/-- One `Write` after the other: what each reports, and the writer after the last. -/
def CaptureWriter.writes (c : CaptureWriter) : List Bytes → List Nat × CaptureWriter
  | [] => ([], c)
  | p :: ps =>
    let (n, c) := c.write p
    let (ns, c) := c.writes ps
    (n :: ns, c)

/-- What a writer with this limit has after the bytes `bs`. -/
structure Captures (limit : Int) (bs : Bytes) (c : CaptureWriter) : Prop where
  bound : c.limit = limit
  n : c.n = bs.length
  hdr : c.hdr = bs.take limit.toNat

variable {limit : Int} {bs : Bytes} {c : CaptureWriter}

theorem Captures.init (limit : Int) : Captures limit [] { limit } := by
  constructor
  · rfl
  · rfl
  · exact List.take_nil.symm

/-- A write may fit, straddle the limit, or find the buffer full. -/
theorem Captures.write (h : Captures limit bs c) (p : Bytes) :
    Captures limit (bs ++ p) (c.write p).2 := by
  have hlen : c.hdr.length = min limit.toNat bs.length := by
    rw [h.hdr, List.length_take]
  have hlimit := h.bound
  unfold CaptureWriter.write
  dsimp only
  split_ifs with hroom hfits
  · -- it fits
    have hless : bs.length ≤ limit.toNat := by omega
    have hall : (bs ++ p).length ≤ limit.toNat := by
      rw [List.length_append]
      omega
    constructor
    · exact hlimit
    · show c.n + p.length = _
      rw [h.n, List.length_append]
    · show c.hdr ++ p = _
      rw [h.hdr, List.take_of_length_le hless, List.take_of_length_le hall]
  · -- it straddles the limit
    have hless : bs.length ≤ limit.toNat := by omega
    have hrem : (c.limit - c.hdr.length).toNat = limit.toNat - bs.length := by omega
    constructor
    · exact hlimit
    · show c.n + p.length = _
      rw [h.n, List.length_append]
    · show c.hdr ++ p.take (c.limit - c.hdr.length).toNat = _
      rw [hrem, h.hdr, List.take_append]
  · -- the buffer is full
    have hfull : limit.toNat ≤ bs.length := by omega
    constructor
    · exact hlimit
    · show c.n + p.length = _
      rw [h.n, List.length_append]
    · show c.hdr = _
      rw [h.hdr, List.take_append_of_le_length hfull]

theorem Captures.writes (h : Captures limit bs c) (ps : List Bytes) :
    (c.writes ps).1 = ps.map List.length ∧ Captures limit (bs ++ ps.flatten) (c.writes ps).2 := by
  induction ps generalizing c bs with
  | nil =>
    refine ⟨rfl, ?_⟩
    rw [List.flatten_nil, List.append_nil]
    exact h
  | cons p ps ih =>
    obtain ⟨hreports, hcaptures⟩ := ih (h.write p)
    constructor
    · show p.length :: ((c.write p).2.writes ps).1 = _
      rw [hreports]
      rfl
    · rw [List.flatten_cons, ← List.append_assoc]
      exact hcaptures

/-! ## `Data` -/

/-- `io.TeeReader(r, cap)`: the store gets what is read, and the writer each read that is not
    empty. -/
def tee (cap : CaptureWriter) : List Bytes → Bytes × CaptureWriter
  | [] => ([], cap)
  | p :: reads =>
    let cap := if 0 < p.length then (cap.write p).2 else cap
    let (body, cap) := tee cap reads
    (p ++ body, cap)

/-- `Data`, over the reads that its reader returns. -/
def dataOf (P : Platform) (s : Session) (reads : List Bytes) : Handler (Option DataError) := do
  let id ← newID
  let (body, cap) := tee { limit := captureLimit } reads
  if !(← write (.put id body)) then do
    ask (.inc .rejected)
    pure (some .call)
  else if (← ask .loadPolicy).any fun p =>
      0 < p.maxMessageBytes && p.maxMessageBytes < (cap.n : Int) then do
    let _ ← write (.delete id)
    ask (.inc .rejected)
    pure (some (.smtp errTooLarge))
  else do
    let (subject, messageID) := P.mimeHeader cap.hdr
    if !(← write (.insertMessage id { mailFrom := s.sender, rcptTo := s.rcpts }
        { backend := .fs, key := id } { subject, messageID, sizeBytes := cap.n } true)) then do
      ask (.inc .rejected)
      pure (some .call)
    else if !(← write (.publish .work (relayJob s id))) then do
      ask (.inc .rejected)
      pure (some .call)
    else do
      ask (.inc .accepted)
      pure none

theorem Captures.tee (h : Captures limit bs c) (reads : List Bytes) :
    (tee c reads).1 = reads.flatten ∧ Captures limit (bs ++ reads.flatten) (tee c reads).2 := by
  induction reads generalizing c bs with
  | nil =>
    refine ⟨rfl, ?_⟩
    rw [List.flatten_nil, List.append_nil]
    exact h
  | cons p reads ih =>
    have hread : Captures limit (bs ++ p) (if 0 < p.length then (c.write p).2 else c) := by
      split_ifs with hsome
      · exact h.write p
      · have hnone : p = [] := List.eq_nil_of_length_eq_zero (by omega)
        rw [hnone, List.append_nil]
        exact h
    obtain ⟨hbody, hcaptures⟩ := ih hread
    constructor
    · show p ++ (Ingress.tee _ reads).1 = _
      rw [hbody, List.flatten_cons]
    · rw [List.flatten_cons, ← List.append_assoc]
      exact hcaptures

/-- `Data` is a function of the bytes. -/
theorem dataOf_eq (P : Platform) (s : Session) (reads : List Bytes) :
    dataOf P s reads = data P s reads.flatten := by
  obtain ⟨hbody, hcap⟩ := (Captures.init captureLimit).tee reads
  have hn := hcap.n
  have hhdr := hcap.hdr
  rw [List.nil_append] at hn hhdr
  unfold dataOf data tooLarge metaOf
  simp only [hbody, hn, hhdr]
  rfl

/-- **Capture does not depend on the chunks.**  After any writes the count is the length of all
    bytes in a row and the buffer is the first of them, up to the limit; every write reports all of
    its bytes; and `Data` of a body in whatever reads is `Data` of the body. -/
theorem capture_chunks (P : Platform) (s : Session) (limit : Int) (ps : List Bytes) :
    (CaptureWriter.writes { limit } ps).1 = ps.map List.length ∧
    (CaptureWriter.writes { limit } ps).2.n = ps.flatten.length ∧
    (CaptureWriter.writes { limit } ps).2.hdr =
      ps.flatten.take (min limit ps.flatten.length).toNat ∧
    dataOf P s ps = data P s ps.flatten := by
  obtain ⟨hreports, hcap⟩ := (Captures.init limit).writes ps
  have hn := hcap.n
  have hhdr := hcap.hdr
  rw [List.nil_append] at hn hhdr
  refine ⟨hreports, hn, ?_, dataOf_eq P s ps⟩
  rw [hhdr, List.take_eq_take_iff]
  omega

end Novamail.Ingress

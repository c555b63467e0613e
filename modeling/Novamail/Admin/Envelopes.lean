/-
  The Admin API and the delivery worker read each other's envelopes.

  What one side lays out is what the other side cuts: nonce, ciphertext and tag of a seal are found
  again by both, whatever the length of the plaintext.  From there each of the four ways, from
  either writer to either reader, is the same two openings.
-/
import Mathlib.Tactic.NormNum
import Novamail.Model.Secrets

namespace Novamail.Secrets

open Novamail.Core

variable {A : AESGCM} {L : Codecs} {key nonce : Bytes}

/-! ## Layouts -/

/-- Go cuts off the nonce. -/
theorem Go.cut_layout (hn : nonce.length = 12) (sealed : Bytes) :
    Go.cut (nonce ++ sealed) = some (nonce, sealed) := by
  unfold Go.cut
  rw [List.length_append, if_neg (by omega), List.take_left' hn, List.drop_left' hn]

/-- Node cuts out nonce, ciphertext and tag. -/
theorem Ts.cut_layout {tag : Bytes} (hn : nonce.length = 12) (ht : tag.length = 16) (ct : Bytes) :
    Ts.cut (nonce ++ ct ++ tag) = (nonce, ct, tag) := by
  have hlen : (nonce ++ ct ++ tag).length = 28 + ct.length := by
    rw [List.length_append, List.length_append]
    omega
  have hhead : Ts.index (nonce ++ ct ++ tag) 12 = 12 := by
    unfold Ts.index
    rw [if_neg (by decide), hlen]
    omega
  have hmid : Ts.index (nonce ++ ct ++ tag) ((nonce ++ ct ++ tag).length - 16) = 12 + ct.length := by
    unfold Ts.index
    rw [hlen, if_neg (by omega)]
    omega
  have hend : Ts.index (nonce ++ ct ++ tag) (nonce ++ ct ++ tag).length = 28 + ct.length := by
    unfold Ts.index
    rw [hlen, if_neg (by omega)]
    omega
  have hbody : (nonce ++ ct).length = 12 + ct.length := by
    rw [List.length_append, hn]
  unfold Ts.cut Ts.subarray
  rw [hhead, hmid, hend]
  refine Prod.ext ?_ (Prod.ext ?_ ?_)
  · show ((nonce ++ ct ++ tag).take 12).drop 0 = nonce
    rw [List.drop_zero, List.append_assoc, List.take_left' hn]
  · show ((nonce ++ ct ++ tag).take (12 + ct.length)).drop 12 = ct
    rw [List.take_left' hbody, List.drop_left' hn]
  · show ((nonce ++ ct ++ tag).take (28 + ct.length)).drop (12 + ct.length) = tag
    rw [← hlen, List.take_length, List.drop_left' hbody]

/-! ## One seal -/

/-- What either side seals, as one text. -/
def sealedText (A : AESGCM) (key nonce p : Bytes) : String :=
  Base64.encode (nonce ++ A.encipher key nonce p ++ A.tag key nonce p)

theorem Go.sealGCM_eq (hk : key.length = 32) (p : Bytes) :
    Go.sealGCM A key nonce p = some (sealedText A key nonce p) := by
  unfold Go.sealGCM Go.newCipher Go.gcmSeal sealedText
  rw [if_pos (by simp [hk]), List.append_assoc]

theorem Ts.sealGCM_eq (hk : key.length = 32) (p : Bytes) :
    Ts.sealGCM A key nonce p = some (sealedText A key nonce p) := by
  unfold Ts.sealGCM Ts.cipher
  rw [if_pos hk]
  rfl

theorem Go.openGCM_sealed (hA : A.Lawful) (hk : key.length = 32) (hn : nonce.length = 12)
    (p : Bytes) : Go.openGCM A key (sealedText A key nonce p) = some p := by
  have htag := hA.length_tag p hk hn
  have hlen : (A.encipher key nonce p ++ A.tag key nonce p).length =
      (A.encipher key nonce p).length + 16 := by
    rw [List.length_append, htag]
  have hopen : Go.gcmOpen A key nonce (A.encipher key nonce p ++ A.tag key nonce p) = some p := by
    unfold Go.gcmOpen
    rw [if_neg (by omega), hlen, Nat.add_sub_cancel, List.take_left' rfl, List.drop_left' rfl]
    exact hA.decipher_encipher p hk hn
  unfold Go.openGCM sealedText
  rw [Base64.decode_encode, List.append_assoc]
  show (if Go.newCipher key then _ else none) = _
  rw [if_pos (by simp [Go.newCipher, hk]), Go.cut_layout hn]
  exact hopen

theorem Ts.openGCM_sealed (hA : A.Lawful) (hL : L.Lawful) (hk : key.length = 32)
    (hn : nonce.length = 12) (p : Bytes) :
    Ts.openGCM A L key (sealedText A key nonce p) = some p := by
  unfold Ts.openGCM sealedText
  rw [hL.fromBase64_encode, Ts.cut_layout hn (hA.length_tag p hk hn)]
  show (if key.length = 32 then _ else none) = some p
  rw [if_pos hk]
  exact hA.decipher_encipher p hk hn

/-! ## Envelopes -/

/-- The envelope of either side. -/
def enveloped (A : AESGCM) (kek : Key) (d : Draw) (p : Bytes) : Envelope :=
  ⟨1, sealedText A kek.1 d.dekNonce.1 d.dek.1, sealedText A d.dek.1 d.dataNonce.1 p⟩

theorem Go.encrypt_eq (kek : Key) (d : Draw) (p : Bytes) :
    Go.encrypt A L kek d p = some (L.marshal (enveloped A kek d p)) := by
  unfold Go.encrypt
  rw [Go.sealGCM_eq d.dek.2, Go.sealGCM_eq kek.2]
  rfl

theorem Ts.encrypt_eq (kek : Key) (d : Draw) (p : String) :
    Ts.encrypt A L kek d p = some (L.stringify (enveloped A kek d (utf8 p))) := by
  unfold Ts.encrypt
  rw [Ts.sealGCM_eq d.dek.2, Ts.sealGCM_eq kek.2]
  rfl

/-- The delivery worker reads the envelope from any writer that its JSON library reads. -/
theorem Go.decrypt_enveloped (hA : A.Lawful) {write : Envelope → String}
    (hw : Reads write L.unmarshal) (kek : Key) (d : Draw) (p : Bytes) :
    Go.decrypt A L kek (write (enveloped A kek d p)) = some p := by
  have hread : L.unmarshal (write (enveloped A kek d p)) = some (enveloped A kek d p) := hw _ _
  have hdek : Go.openGCM A kek.1 (enveloped A kek d p).dek = some d.dek.1 :=
    Go.openGCM_sealed hA kek.2 d.dekNonce.2 d.dek.1
  have hdata : Go.openGCM A d.dek.1 (enveloped A kek d p).data = some p :=
    Go.openGCM_sealed hA d.dek.2 d.dataNonce.2 p
  unfold Go.decrypt
  simp only [hread, hdek, hdata, Option.bind_eq_bind, Option.bind_some]

/-- A text survives its UTF-8. -/
theorem utf8Text_utf8 (L : Codecs) (p : String) : utf8Text L (utf8 p) = p := by
  have hbytes : (⟨(utf8 p).toArray⟩ : ByteArray) = p.toUTF8 := by
    unfold utf8
    rw [Array.toArray_toList]
  unfold utf8Text
  rw [hbytes, String.toUTF8_eq_toByteArray, String.fromUTF8?, dif_pos p.isValidUTF8]
  rfl

/-- So does the Admin API. -/
theorem Ts.decrypt_enveloped (hA : A.Lawful) (hL : L.Lawful) {write : Envelope → String}
    (hw : Reads write L.parse) (kek : Key) (d : Draw) (p : String) :
    Ts.decrypt A L kek (write (enveloped A kek d (utf8 p))) = some p := by
  have hread : L.parse (write (enveloped A kek d (utf8 p))) = some (enveloped A kek d (utf8 p)) :=
    hw _ _
  have hdek : Ts.openGCM A L kek.1 (enveloped A kek d (utf8 p)).dek = some d.dek.1 :=
    Ts.openGCM_sealed hA hL kek.2 d.dekNonce.2 d.dek.1
  have hdata : Ts.openGCM A L d.dek.1 (enveloped A kek d (utf8 p)).data = some (utf8 p) :=
    Ts.openGCM_sealed hA hL d.dek.2 d.dataNonce.2 (utf8 p)
  unfold Ts.decrypt
  simp only [hread, hdek, hdata, Option.bind_eq_bind, Option.bind_some, Option.pure_def,
    utf8Text_utf8]

/-- **Either side reads what either side has written**, and each finds in the other's layout the
    nonce, the ciphertext and the tag that went into it. -/
theorem envelopes_interoperate (hA : A.Lawful) (hL : L.Lawful) (kek : Key) (d : Draw) :
    (∀ p, ∃ e, Ts.encrypt A L kek d p = some e ∧ Go.decrypt A L kek e = some (utf8 p) ∧
      Ts.decrypt A L kek e = some p) ∧
    (∀ b, ∃ e, Go.encrypt A L kek d b = some e ∧ Go.decrypt A L kek e = some b ∧
      ∀ p, b = utf8 p → Ts.decrypt A L kek e = some p) ∧
    (∀ (key : Key) (nonce : Nonce) (b : Bytes),
      Go.cut (nonce.1 ++ A.encipher key.1 nonce.1 b ++ A.tag key.1 nonce.1 b) =
          some (nonce.1, Go.gcmSeal A key.1 nonce.1 b) ∧
        Ts.cut (nonce.1 ++ Go.gcmSeal A key.1 nonce.1 b) =
          (nonce.1, A.encipher key.1 nonce.1 b, A.tag key.1 nonce.1 b)) := by
  refine ⟨fun p => ?_, fun b => ?_, fun key nonce b => ?_⟩
  · exact ⟨_, Ts.encrypt_eq kek d p, Go.decrypt_enveloped hA hL.unmarshal_stringify kek d _,
      Ts.decrypt_enveloped hA hL hL.parse_stringify kek d p⟩
  · refine ⟨_, Go.encrypt_eq kek d b, Go.decrypt_enveloped hA hL.unmarshal_marshal kek d b, ?_⟩
    rintro p rfl
    exact Ts.decrypt_enveloped hA hL hL.parse_marshal kek d p
  · constructor
    · rw [List.append_assoc]
      exact Go.cut_layout nonce.2 _
    · unfold Go.gcmSeal
      rw [← List.append_assoc]
      exact Ts.cut_layout nonce.2 (hA.length_tag b key.2 nonce.2) _

/-! ## The pinned envelope -/

/-- One input of AES-GCM with its output. -/
structure GCMVector where
  key : Bytes
  nonce : Bytes
  plaintext : Bytes
  ciphertext : Bytes
  tag : Bytes

/-- The vector with this input. -/
def known (vs : List GCMVector) (key nonce p : Bytes) : Option GCMVector :=
  vs.find? fun v => v.key = key ∧ v.nonce = nonce ∧ v.plaintext = p

/-- The vector with this output. -/
def knownFrom (vs : List GCMVector) (key nonce ct tag : Bytes) : Option GCMVector :=
  vs.find? fun v => v.key = key ∧ v.nonce = nonce ∧ v.ciphertext = ct ∧ v.tag = tag

/-- The tag of what is not known. -/
def zeroTag : Bytes := List.replicate 16 0

/-- A cipher that knows some vectors, and leaves every other plaintext as it is. -/
def ofVectors (vs : List GCMVector) : AESGCM where
  encipher key nonce p := (known vs key nonce p).elim p GCMVector.ciphertext
  tag key nonce p := (known vs key nonce p).elim zeroTag GCMVector.tag
  decipher key nonce ct tag :=
    (knownFrom vs key nonce ct tag).elim (if tag = zeroTag then some ct else none) fun v =>
      some v.plaintext

theorem ofVectors_lawful {vs : List GCMVector}
    (htag : ∀ v ∈ vs, v.tag.length = 16 ∧ v.tag ≠ zeroTag)
    (hkey : ∀ v ∈ vs, ∀ v' ∈ vs, v.key = v'.key → v.plaintext = v'.plaintext) :
    (ofVectors vs).Lawful where
  length_tag {key nonce} p _ _ := by
    show ((known vs key nonce p).elim zeroTag GCMVector.tag).length = 16
    cases h : known vs key nonce p with
    | none => rfl
    | some v => exact (htag v (List.mem_of_find?_eq_some h)).1
  decipher_encipher {key nonce} p _ _ := by
    show (knownFrom vs key nonce ((known vs key nonce p).elim p GCMVector.ciphertext)
      ((known vs key nonce p).elim zeroTag GCMVector.tag)).elim _ _ = some p
    cases h : known vs key nonce p with
    | some v =>
      have hmem := List.mem_of_find?_eq_some h
      obtain ⟨rfl, rfl, rfl⟩ : v.key = key ∧ v.nonce = nonce ∧ v.plaintext = p := by
        simpa using List.find?_some h
      show (knownFrom vs v.key v.nonce v.ciphertext v.tag).elim _ _ = _
      cases hback : knownFrom vs v.key v.nonce v.ciphertext v.tag with
      | some v' =>
        have hsame : v'.key = v.key ∧ v'.nonce = v.nonce ∧ v'.ciphertext = v.ciphertext ∧
            v'.tag = v.tag := by simpa using List.find?_some hback
        exact congrArg some (hkey v' (List.mem_of_find?_eq_some hback) v hmem hsame.1)
      | none => exact absurd (List.find?_eq_none.mp hback v hmem) (by simp)
    | none =>
      -- no vector has the tag of an unknown one
      have hback : knownFrom vs key nonce p zeroTag = none := by
        refine List.find?_eq_none.mpr fun v hv => ?_
        simp only [decide_eq_true_eq]
        exact fun hv' => (htag v hv).2 hv'.2.2.2
      have hct : (ofVectors vs).encipher key nonce p = p := by
        show (known vs key nonce p).elim _ _ = p
        rw [h]
        rfl
      have htg : (ofVectors vs).tag key nonce p = zeroTag := by
        show (known vs key nonce p).elim _ _ = zeroTag
        rw [h]
        rfl
      show (knownFrom vs key nonce p zeroTag).elim _ _ = _
      rw [hback]
      show (if (ofVectors vs).tag key nonce p = zeroTag then some _ else none) = _
      rw [if_pos htg, hct]

/-- The text between the quotes of an envelope and around them. -/
def pieces (dek data : List Char) : List (List Char) :=
  ["\x7b".toList, "v".toList, ":1,".toList, "dek".toList, ":".toList, dek, ",".toList,
    "data".toList, ":".toList, data, "\x7d".toList]

/-- An envelope of version 1 as JSON without escapes. -/
def plainText (e : Envelope) : String :=
  String.ofList (['"'].intercalate (pieces e.dek.toList e.data.toList))

/-- It, read back. -/
def plainRead (s : String) : Option Envelope :=
  match s.toList.splitOn '"' with
  | [_, _, _, _, _, dek, _, _, _, data, _] => some ⟨1, String.ofList dek, String.ofList data⟩
  | _ => none

/-- Libraries that know JSON without escapes. -/
def plainCodecs : Codecs where
  marshal := plainText
  unmarshal := plainRead
  stringify := plainText
  parse := plainRead
  fromBase64 s := (Base64.decode s).getD []
  lossy _ := ""

theorem plainRead_plainText : Reads plainText plainRead := by
  intro a b
  have hquote : ∀ bs : Bytes, '"' ∉ Base64.encodeChars bs := fun bs h =>
    Base64.encodeChars_forall (P := (· ≠ '"')) (by decide) (by decide) bs _ h rfl
  unfold plainRead plainText
  rw [String.toList_ofList, List.splitOn_intercalate '"' ?_ (by simp [pieces])]
  · show some _ = some _
    simp [Base64.encode]
  · intro l hl
    simp only [pieces, Base64.encode, String.toList_ofList, List.mem_cons, List.not_mem_nil,
      or_false] at hl
    rcases hl with rfl | rfl | rfl | rfl | rfl | rfl | rfl | rfl | rfl | rfl | rfl
    all_goals first | exact hquote _ | decide

theorem plainCodecs_lawful : plainCodecs.Lawful where
  unmarshal_marshal := plainRead_plainText
  unmarshal_stringify := plainRead_plainText
  parse_marshal := plainRead_plainText
  parse_stringify := plainRead_plainText
  fromBase64_encode b := by
    show (Base64.decode (Base64.encode b)).getD [] = b
    rw [Base64.decode_encode]
    rfl

/-- The master key of `interop_test.go`. -/
def pinnedKek : Key := ⟨"0123456789abcdef0123456789abcdef".toList.map fun c => .ofNat c.toNat, by decide⟩

/-- What was drawn for its envelope. -/
def pinnedDraw : Draw where
  dek := ⟨[74, 36, 96, 21, 196, 19, 198, 96, 20, 141, 73, 81, 148, 230, 30, 73, 201, 93, 122, 238,
    164, 64, 91, 96, 11, 25, 13, 4, 158, 139, 123, 132], by decide⟩
  dataNonce := ⟨[235, 224, 32, 198, 74, 90, 209, 170, 2, 195, 239, 51], by decide⟩
  dekNonce := ⟨[255, 112, 163, 95, 122, 173, 220, 254, 141, 71, 225, 158], by decide⟩

/-- AES-256-GCM on the two seals of that envelope. -/
def pinnedVectors : List GCMVector :=
  [{ key := pinnedKek.1, nonce := pinnedDraw.dekNonce.1, plaintext := pinnedDraw.dek.1
     ciphertext := [47, 66, 233, 3, 38, 239, 19, 242, 186, 39, 132, 84, 35, 118, 50, 217, 87, 70, 61,
       195, 8, 79, 212, 255, 65, 53, 13, 220, 202, 173, 123, 245]
     tag := [74, 153, 122, 65, 201, 60, 3, 82, 69, 161, 142, 151, 237, 123, 182, 222] },
   { key := pinnedDraw.dek.1, nonce := pinnedDraw.dataNonce.1
     plaintext := "interop-check-novamail".toList.map fun c => .ofNat c.toNat
     ciphertext := [108, 97, 176, 93, 150, 79, 238, 245, 186, 115, 46, 146, 237, 140, 252, 22, 40, 233,
       116, 66, 104, 216]
     tag := [209, 188, 169, 133, 239, 37, 25, 19, 71, 243, 157, 127, 203, 123, 190, 26] }]

theorem pinned_lawful : (ofVectors pinnedVectors).Lawful :=
  ofVectors_lawful (by decide) (by decide)

theorem envelopes_interoperate_pinned : ∃ e,
    Ts.encrypt (ofVectors pinnedVectors) plainCodecs pinnedKek pinnedDraw "interop-check-novamail" =
        some e ∧
      Go.decrypt (ofVectors pinnedVectors) plainCodecs pinnedKek e =
        some (utf8 "interop-check-novamail") := by
  obtain ⟨e, henc, hdec, _⟩ := (envelopes_interoperate pinned_lawful plainCodecs_lawful pinnedKek
    pinnedDraw).1 "interop-check-novamail"
  exact ⟨e, henc, hdec⟩

example : Ts.encrypt (ofVectors pinnedVectors) plainCodecs pinnedKek pinnedDraw
    "interop-check-novamail" = some ("\x7b\"v\":1,\"dek\":\"/3CjX3qt3P6NR+GeL0LpAybvE/K6J4RUI3Yy2VdG" ++
      "PcMIT9T/QTUN3Mqte/VKmXpByTwDUkWhjpfte7be\",\"data\":\"6+Agxkpa0aoCw+8zbGGwXZZP7vW6cy6S7Yz8Fij" ++
      "pdEJo2NG8qYXvJRkTR/Odf8t7vho=\"\x7d") := by decide +kernel

end Novamail.Secrets

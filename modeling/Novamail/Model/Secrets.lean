/-
  Envelope encryption, twice: `internal/secrets/secrets.go` and `secrets.ts` of the Admin API.

  A random data key (DEK) encrypts the plaintext, and the master key (KEK) wraps the data key.  Each
  of the two is stored as base64 of nonce, ciphertext and tag.

  AES-GCM is the cipher of a record `AESGCM`; the two sides meet it through different interfaces.
  Go's `Seal` and `Open` have the tag behind the ciphertext in one slice, Node's cipher objects keep
  the tag apart.  What else comes from libraries is in the record `Codecs`.
-/
import Novamail.Core.Base64
import Novamail.Model.Message

namespace Novamail.Secrets

open Novamail.Core

/-! ## Libraries -/

/-- AES-GCM with a 16-byte tag and no additional data. -/
structure AESGCM where
  /-- The ciphertext. -/
  encipher : (key nonce plaintext : Bytes) → Bytes
  /-- The tag. -/
  tag : (key nonce plaintext : Bytes) → Bytes
  /-- The plaintext, if the tag is right. -/
  decipher : (key nonce ciphertext tag : Bytes) → Option Bytes

/-- Under a 32-byte key and a 12-byte nonce, opening inverts sealing. -/
structure AESGCM.Lawful (A : AESGCM) : Prop where
  length_tag : ∀ {key nonce : Bytes} (p : Bytes), key.length = 32 → nonce.length = 12 →
    (A.tag key nonce p).length = 16
  decipher_encipher : ∀ {key nonce : Bytes} (p : Bytes), key.length = 32 → nonce.length = 12 →
    A.decipher key nonce (A.encipher key nonce p) (A.tag key nonce p) = some p

/-- The JSON object of an envelope. -/
structure Envelope where
  v : Nat
  dek : String
  data : String
  deriving DecidableEq, Repr

/-- The JSON libraries of both sides, and Node's decoders. -/
structure Codecs where
  /-- `json.Marshal`. -/
  marshal : Envelope → String
  /-- `json.Unmarshal` into an `envelope`; none is an error. -/
  unmarshal : String → Option Envelope
  /-- `JSON.stringify`. -/
  stringify : Envelope → String
  /-- `JSON.parse`, with the fields read from the result; none is an exception. -/
  parse : String → Option Envelope
  /-- `Buffer.from(s, "base64")`, which takes anything. -/
  fromBase64 : String → Bytes
  /-- `toString("utf8")` of bytes that are not UTF-8. -/
  lossy : Bytes → String

/-- A reader gives back every envelope of base64 texts that a writer writes. -/
def Reads (write : Envelope → String) (read : String → Option Envelope) : Prop :=
  ∀ a b : Bytes, read (write ⟨1, Base64.encode a, Base64.encode b⟩) =
    some ⟨1, Base64.encode a, Base64.encode b⟩

/-- The libraries are right about what the other side, and their own, has written. -/
structure Codecs.Lawful (L : Codecs) : Prop where
  unmarshal_marshal : Reads L.marshal L.unmarshal
  unmarshal_stringify : Reads L.stringify L.unmarshal
  parse_marshal : Reads L.marshal L.parse
  parse_stringify : Reads L.stringify L.parse
  fromBase64_encode : ∀ b, L.fromBase64 (Base64.encode b) = b

/-- `Buffer.from(s, "utf8")` of a well-formed text. -/
def utf8 (s : String) : Bytes := s.toUTF8.data.toList

/-- `toString("utf8")`. -/
def utf8Text (L : Codecs) (b : Bytes) : String := (String.fromUTF8? ⟨b.toArray⟩).getD (L.lossy b)

/-- A 32-byte key. -/
abbrev Key := { k : Bytes // k.length = 32 }

/-- A 12-byte nonce. -/
abbrev Nonce := { n : Bytes // n.length = 12 }

/-- What an encryption draws: the data key, and a nonce for each of the two seals. -/
structure Draw where
  dek : Key
  dataNonce : Nonce
  dekNonce : Nonce

variable (A : AESGCM) (L : Codecs)

/-! ## `secrets.go` -/

namespace Go

/-- Why `New` takes no master key. -/
inductive KeyError
  /-- `secrets: decode master key: …`, with the decoder's error. -/
  | decode
  /-- `secrets: master key must be 32 bytes, got n`. -/
  | size (n : Nat)
  deriving DecidableEq, Repr

/-- `New`. -/
def new (kekB64 : String) : Except KeyError Key :=
  match Base64.decode kekB64 with
  | none => .error .decode
  | some kek => if h : kek.length = 32 then .ok ⟨kek, h⟩ else .error (.size kek.length)

/-- `aes.NewCipher` takes the key. -/
def newCipher (key : Bytes) : Bool := key.length = 16 || key.length = 24 || key.length = 32

/-- `gcm.Seal(nil, nonce, plaintext, nil)`. -/
def gcmSeal (key nonce plaintext : Bytes) : Bytes :=
  A.encipher key nonce plaintext ++ A.tag key nonce plaintext

/-- `gcm.Open(nil, nonce, sealed, nil)`. -/
def gcmOpen (key nonce sealed : Bytes) : Option Bytes :=
  if sealed.length < 16 then none
  else A.decipher key nonce (sealed.take (sealed.length - 16)) (sealed.drop (sealed.length - 16))

/-- `sealGCM`. -/
def sealGCM (key nonce plaintext : Bytes) : Option String :=
  if newCipher key then some (Base64.encode (nonce ++ gcmSeal A key nonce plaintext)) else none

/-- The nonce and the rest of an opened text; none when it is too short. -/
def cut (raw : Bytes) : Option (Bytes × Bytes) :=
  if raw.length < 12 then none else some (raw.take 12, raw.drop 12)

/-- `openGCM`. -/
def openGCM (key : Bytes) (b64 : String) : Option Bytes := do
  let raw ← Base64.decode b64
  if newCipher key then
    let (nonce, sealed) ← cut raw
    gcmOpen A key nonce sealed
  else none

/-- `Encrypt`. -/
def encrypt (kek : Key) (d : Draw) (plaintext : Bytes) : Option String := do
  let data ← sealGCM A d.dek.1 d.dataNonce.1 plaintext
  let wrapped ← sealGCM A kek.1 d.dekNonce.1 d.dek.1
  pure (L.marshal ⟨1, wrapped, data⟩)

/-- `Decrypt`. -/
def decrypt (kek : Key) (envJSON : String) : Option Bytes := do
  let e ← L.unmarshal envJSON
  let dek ← openGCM A kek.1 e.dek
  openGCM A dek e.data

end Go

/-! ## `secrets.ts` -/

namespace Ts

/-- `kek`, of what the environment has for `NOVAMAIL_SECRET_KEY`. -/
def kek (foreign : Char → List Base64.Glyph) (env : Option String) : Except String Key :=
  if env.getD "" = "" then .error "NOVAMAIL_SECRET_KEY not set"
  else
    -- `Buffer.from(b64, "base64")`
    let k := Base64.lenient foreign (env.getD "")
    if h : k.length = 32 then .ok ⟨k, h⟩ else .error "master key must be 32 bytes"

/-- `createCipheriv("aes-256-gcm", …)`: the bytes of `update` and `final`, and `getAuthTag`. -/
def cipher (key nonce plaintext : Bytes) : Option (Bytes × Bytes) :=
  if key.length = 32 then some (A.encipher key nonce plaintext, A.tag key nonce plaintext) else none

/-- `createDecipheriv("aes-256-gcm", …)` with `setAuthTag`. -/
def decipher (key nonce ciphertext tag : Bytes) : Option Bytes :=
  if key.length = 32 then A.decipher key nonce ciphertext tag else none

/-- An index of `subarray`: from the end when it is negative, and within the buffer. -/
def index (b : Bytes) (i : Int) : Nat :=
  if i < 0 then (b.length + i).toNat else min i.toNat b.length

/-- `b.subarray(start, stop)`. -/
def subarray (b : Bytes) (start stop : Int) : Bytes := (b.take (index b stop)).drop (index b start)

/-- `sealGCM`. -/
def sealGCM (key nonce plaintext : Bytes) : Option String := do
  let (ct, tag) ← cipher A key nonce plaintext
  pure (Base64.encode (nonce ++ ct ++ tag))

/-- The nonce, the ciphertext and the tag of a buffer. -/
def cut (buf : Bytes) : Bytes × Bytes × Bytes :=
  (subarray buf 0 12, subarray buf 12 (buf.length - 16),
    subarray buf (buf.length - 16) buf.length)

/-- `openGCM`. -/
def openGCM (key : Bytes) (b64 : String) : Option Bytes :=
  let (nonce, ct, tag) := cut (L.fromBase64 b64)
  decipher A key nonce ct tag

/-- `encrypt`. -/
def encrypt (kek : Key) (d : Draw) (plaintext : String) : Option String := do
  let data ← sealGCM A d.dek.1 d.dataNonce.1 (utf8 plaintext)
  let wrapped ← sealGCM A kek.1 d.dekNonce.1 d.dek.1
  pure (L.stringify ⟨1, wrapped, data⟩)

/-- `decrypt`. -/
def decrypt (kek : Key) (envelope : String) : Option String := do
  let e ← L.parse envelope
  let rawDek ← openGCM A L kek.1 e.dek
  let b ← openGCM A L rawDek e.data
  pure (utf8Text L b)

end Ts

end Novamail.Secrets

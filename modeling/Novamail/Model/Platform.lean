/-
  What the services take from libraries, as one record of functions.

  Address and key parsing, hashing, JSON of a credentials blob, MIME header reading and the DKIM
  library are not part of this repository.  They appear here as functions, with nothing assumed
  about them; results that need more say so.
-/
import Novamail.Model.Message

namespace Novamail

/-- `net.IP` in its 4-byte form when it has one, else its 16 bytes. -/
abbrev IP := List UInt8

/-- `net.IPNet`: network number and mask. -/
structure IPNet where
  ip : List UInt8
  mask : List UInt8
  deriving DecidableEq, Repr

/-- `IPNet.Contains`: same length, and equal under the mask byte by byte. -/
def IPNet.contains (n : IPNet) (ip : IP) : Bool :=
  ip.length = n.ip.length &&
    (List.zipWith (· &&& ·) n.ip n.mask = List.zipWith (· &&& ·) ip n.mask)

/-- `providers.Creds`: credentials of a provider, read per type. -/
structure Creds where
  username : String := ""
  password : String := ""
  clientID : String := ""
  clientSecret : String := ""
  refreshToken : String := ""
  deriving DecidableEq, Repr

/-- `dkim.Signer`: one domain, one selector, one private key. -/
structure Signer where
  domain : String
  selector : String
  key : Bytes
  deriving DecidableEq, Repr

/-- The library functions the services call. -/
structure Platform where
  /-- `net.ParseCIDR`; none is a parse error. -/
  parseCIDR : String → Option IPNet
  /-- `IP.String`. -/
  ipString : IP → String
  /-- HMAC-SHA256 of a key and a message. -/
  hmacSHA256 : Bytes → Bytes → Bytes
  /-- `base64.StdEncoding.EncodeToString`. -/
  base64 : Bytes → String
  /-- `Cipher.Decrypt` with the configured master key; none is an error. -/
  decrypt : String → Option Bytes
  /-- `json.Unmarshal` into an empty `Creds`: the fields it filled, and whether it succeeded. -/
  unmarshalCreds : Bytes → Creds × Bool
  /-- `pem.Decode` and `parseKey` of a private key; none is an error. -/
  parseKey : Bytes → Option Bytes
  /-- `ReadMIMEHeader` of a header block: `Subject` and `Message-Id`, empty when absent. -/
  mimeHeader : Bytes → String × String

/-- Libraries whose parsers accept nothing. -/
def Platform.plain : Platform where
  parseCIDR _ := none
  ipString _ := ""
  hmacSHA256 _ _ := []
  base64 _ := ""
  decrypt _ := none
  unmarshalCreds _ := ({}, false)
  parseKey _ := none
  mimeHeader _ := ("", "")

end Novamail

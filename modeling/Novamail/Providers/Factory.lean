/-
  `internal/providers/factory.go`: a provider instance from its database row, its credentials and
  its TLS policy.

  An instance is immutable configuration; what a connection does with it is in
  `Novamail.Providers.Send`.
-/
import Novamail.Model.Platform

namespace Novamail

/-- `tls.VersionTLS12`. -/
def tls12 : Nat := 0x0303
/-- `tls.VersionTLS13`. -/
def tls13 : Nat := 0x0304

/-- `providers.TLSPolicy`. -/
structure TLSPolicy where
  minVersion : Nat
  starttlsRequired : Bool
  deriving DecidableEq, Repr

/-- `DefaultTLSPolicy`. -/
def defaultTLSPolicy : TLSPolicy := ⟨tls12, false⟩

/-- `SMTPConfig.TLSMode`: `"none"`, `"starttls"`, `"implicit"`. -/
inductive TLSMode where
  | none | starttls | implicit
  deriving DecidableEq, Repr

/-- `providers.SMTPConfig`. -/
structure SMTPConfig where
  name : String
  addr : String
  tlsMode : TLSMode
  username : String
  password : String
  helo : String := ""
  insecure : Bool := false
  minTLSVersion : Nat
  maxIdleConns : Nat := 0
  deriving DecidableEq, Repr

/-- `providers.GmailConfig`. -/
structure GmailConfig where
  name : String
  addr : String
  user : String
  clientID : String
  clientSecret : String
  refreshToken : String
  tokenURL : String
  deriving DecidableEq, Repr

/-- `providers.DirectConfig`. -/
structure DirectConfig where
  name : String
  helo : String
  minTLSVersion : Nat
  deriving DecidableEq, Repr

/-- A provider instance: one of the three concrete types behind the `Provider` interface. -/
inductive Provider where
  | smtp (cfg : SMTPConfig)
  | gmail (cfg : GmailConfig)
  | direct (cfg : DirectConfig)
  deriving DecidableEq, Repr

/-- `Provider.Name`. -/
def Provider.name : Provider → String
  | .smtp c => c.name
  | .gmail c => c.name
  | .direct c => c.name

/-- `orDefault`. -/
def orDefault (v dflt : String) : String := if v = "" then dflt else v

/-- `NewSMTP`. -/
def newSMTP (c : SMTPConfig) : Provider := .smtp { c with name := orDefault c.name "smtp" }

/-- `NewGmail`. -/
def newGmail (c : GmailConfig) : Provider :=
  .gmail { c with
    name := orDefault c.name "gmail"
    addr := orDefault c.addr "smtp.gmail.com:587"
    tokenURL := orDefault c.tokenURL "https://oauth2.googleapis.com/token" }

/-- `NewDirect`. -/
def newDirect (c : DirectConfig) : Provider := .direct { c with name := orDefault c.name "direct" }

/-- `providers.type`; any other text is an unknown type. -/
inductive ProviderType where
  | smtp | ses | m365 | gmail | direct
  | unknown (text : String)
  deriving DecidableEq, Repr

/-- `model.Provider`: a row of the providers table. -/
structure ProviderRow where
  id : String
  name : String
  type : ProviderType
  endpoint : String
  authMode : String
  secretRef : String
  deriving DecidableEq, Repr

/-- `tlsModeFor`: plaintext only for `"ip"` and for an empty auth mode. -/
def tlsModeFor (authMode : String) : TLSMode :=
  if authMode = "smtp-auth" then .starttls
  else if authMode = "ip" ∨ authMode = "" then .none
  else .starttls

/-- `strings.Split(s, c)`. -/
def splitOn (c : Char) : List Char → List (List Char)
  | [] => [[]]
  | x :: xs =>
    match splitOn c xs with
    | [] => [[x]]
    | w :: ws => if x = c then [] :: w :: ws else (x :: w) :: ws

/-- `sesRegion`: the region in `email-smtp.<region>.amazonaws.com[:port]`. -/
def sesRegion (endpoint : String) : String :=
  let host := endpoint.toList.takeWhile (· ≠ ':')
  match splitOn '.' host with
  | first :: region :: _ :: _ :: _ =>
    if String.ofList first = "email-smtp" then String.ofList region else "us-east-1"
  | _ => "us-east-1"

/-- `sesSMTPPassword`: the SigV4-style HMAC chain, with the version byte 4 in front. -/
def sesSMTPPassword (P : Platform) (secretAccessKey region : String) : String :=
  let sign := fun (key : Bytes) (msg : String) => P.hmacSHA256 key msg.toUTF8.toList
  let sig := sign ("AWS4" ++ secretAccessKey).toUTF8.toList "11111111"
  let sig := sign sig region
  let sig := sign sig "ses"
  let sig := sign sig "aws4_request"
  let sig := sign sig "SendRawEmail"
  P.base64 (0x04 :: sig)

/-- `providers.New`; none is the unknown-type error.  `directHELO` is the package variable
    `DirectHELO` at the time of the call. -/
def newProvider (P : Platform) (directHELO : String) (p : ProviderRow) (c : Creds)
    (pol : TLSPolicy) : Option Provider :=
  match p.type with
  | .smtp =>
    let mode := tlsModeFor p.authMode
    let mode := if pol.starttlsRequired ∧ mode = .none then .starttls else mode
    some (newSMTP
      { name := p.name, addr := p.endpoint, tlsMode := mode, minTLSVersion := pol.minVersion,
        username := c.username, password := c.password })
  | .ses =>
    let addr := orDefault p.endpoint "email-smtp.us-east-1.amazonaws.com:587"
    let pass :=
      if p.authMode = "iam" then sesSMTPPassword P c.password (sesRegion addr) else c.password
    some (newSMTP
      { name := p.name, addr := addr, tlsMode := .starttls, minTLSVersion := pol.minVersion,
        username := c.username, password := pass })
  | .m365 =>
    some (newSMTP
      { name := p.name, addr := orDefault p.endpoint "smtp.office365.com:587",
        tlsMode := .starttls, minTLSVersion := pol.minVersion,
        username := c.username, password := c.password })
  | .gmail =>
    some (newGmail
      { name := p.name, addr := orDefault p.endpoint "smtp.gmail.com:587",
        user := c.username, clientID := c.clientID, clientSecret := c.clientSecret,
        refreshToken := c.refreshToken, tokenURL := "" })
  | .direct =>
    some (newDirect { name := p.name, helo := directHELO, minTLSVersion := pol.minVersion })
  | .unknown _ => none

end Novamail

/-
  The secrets from the operator to the worker: `PUT` and `DELETE /api/secrets/:ref` and the key
  generation of `routes.ts` write them, `resolveCreds` and the DKIM loop of `cmd/delivery/main.go`
  read them.

  The operator sends a value; the Admin API stores its text in an envelope; the worker opens the
  envelope and reads the text into `providers.Creds`.  Nothing of this is seen in what the worker
  routes with: it is what it would be if the table held the texts themselves
  (`encryption_is_transparent`).
-/
import Novamail.Admin.Envelopes
import Novamail.Core.Records
import Novamail.Delivery.State

namespace Novamail.Secrets

open Novamail.Core Novamail.Core.Json

/-! ## JSON of envelopes -/

/-- The object of an envelope. -/
def Envelope.value (e : Envelope) : Value :=
  .obj [("v", .num (.ofInt e.v)), ("dek", .str e.dek), ("data", .str e.data)]

/-- The fields of `envelope` in `secrets.go`.  Nothing looks at a version below zero. -/
def envelopeFields : List (String × Into Envelope) :=
  [("v", Into.at_ (fun e => Int64.ofNat e.v) (fun e n => { e with v := n.toNatClampNeg }) Into.int),
    ("dek", Into.at_ (·.dek) (fun e s => { e with dek := s }) Into.string),
    ("data", Into.at_ (·.data) (fun e s => { e with data := s }) Into.string)]

/-- `json.Unmarshal` into an `envelope`. -/
def unmarshalEnvelope (s : String) : Option Envelope :=
  let p := Into.unmarshal (Into.record envelopeFields) ⟨0, "", ""⟩ s
  if p.2 then some p.1 else none

/-- `const { dek, data } = …`: the last member of each name; none when one is no string, which the
    decoder after it would not take. -/
def destructure : Value → Option Envelope
  | .obj ms =>
    match ms.reverse.lookup "dek", ms.reverse.lookup "data" with
    | some (.str dek), some (.str data) => some ⟨1, dek, data⟩
    | _, _ => none
  | _ => none

/-- `JSON.parse(envelope)` and the fields of the result. -/
def parseEnvelope (s : String) : Option Envelope := (parse s).bind destructure

variable (foreign : Char → List Base64.Glyph) (lossy : Bytes → String)

/-- The two JSON libraries, and Node's decoders. -/
def jsonCodecs : Codecs where
  marshal e := e.value.text htmlStyle
  unmarshal := unmarshalEnvelope
  stringify e := e.value.text plainStyle
  parse := parseEnvelope
  fromBase64 := Base64.lenient foreign
  lossy := lossy

/-- Go reads an envelope of version 1, in whatever style it is written. -/
theorem unmarshalEnvelope_text (st : Style) (dek data : String) :
    unmarshalEnvelope ((Envelope.mk 1 dek data).value.text st) = some ⟨1, dek, data⟩ := by
  have hv : Into.member envelopeFields (⟨0, "", ""⟩, true) ("v", .num (.ofInt 1)) =
      (⟨1, "", ""⟩, true) := by
    refine Into.member_of_field rfl ?_ true
    have hone : ∀ a, Into.int (.num (.ofInt 1)) a = (1, true) := Into.int_ofInt 1
    simp only [Into.at_, hone]
    rfl
  have hread : Into.record envelopeFields (Envelope.mk 1 dek data).value ⟨0, "", ""⟩ =
      (⟨1, dek, data⟩, true) := by
    show ([("dek", Value.str dek), ("data", .str data)]).foldl (Into.member envelopeFields)
      (Into.member envelopeFields (⟨0, "", ""⟩, true) ("v", .num (.ofInt 1))) = _
    rw [hv]
    rfl
  unfold unmarshalEnvelope
  rw [Into.unmarshal_text, hread]
  rfl

/-- So does JavaScript. -/
theorem parseEnvelope_text (st : Style) (dek data : String) :
    parseEnvelope ((Envelope.mk 1 dek data).value.text st) = some ⟨1, dek, data⟩ := by
  have hfields : destructure (Envelope.mk 1 dek data).value = some ⟨1, dek, data⟩ := rfl
  unfold parseEnvelope
  rw [parse_write, Option.bind_some, hfields]

/-- **The JSON of the two sides fits together.** -/
theorem jsonCodecs_lawful : (jsonCodecs foreign lossy).Lawful where
  unmarshal_marshal a b := by
    simp only [jsonCodecs]
    exact unmarshalEnvelope_text htmlStyle (Base64.encode a) (Base64.encode b)
  unmarshal_stringify a b := by
    simp only [jsonCodecs]
    exact unmarshalEnvelope_text plainStyle (Base64.encode a) (Base64.encode b)
  parse_marshal a b := by
    simp only [jsonCodecs]
    exact parseEnvelope_text htmlStyle (Base64.encode a) (Base64.encode b)
  parse_stringify a b := by
    simp only [jsonCodecs]
    exact parseEnvelope_text plainStyle (Base64.encode a) (Base64.encode b)
  fromBase64_encode b := by
    simp only [jsonCodecs]
    exact Base64.lenient_of_decode (Base64.decode_encode b)

/-! ## Credentials -/

/-- The fields of `providers.Creds`, which has no tags. -/
def credsFields : List (String × Into Creds) :=
  [("Username", Into.at_ (·.username) (fun c s => { c with username := s }) Into.string),
    ("Password", Into.at_ (·.password) (fun c s => { c with password := s }) Into.string),
    ("ClientID", Into.at_ (·.clientID) (fun c s => { c with clientID := s }) Into.string),
    ("ClientSecret", Into.at_ (·.clientSecret) (fun c s => { c with clientSecret := s }) Into.string),
    ("RefreshToken", Into.at_ (·.refreshToken) (fun c s => { c with refreshToken := s }) Into.string)]

/-- `json.Unmarshal` of bytes into empty `Creds`. -/
def readCreds (b : Bytes) : Creds × Bool :=
  Into.unmarshal (Into.record credsFields) {} (utf8Text (jsonCodecs foreign lossy) b)

variable (A : AESGCM) (k : Key) (P : Platform)

/-- The libraries of a worker with this master key. -/
def worker : Platform :=
  { P with
    decrypt := Go.decrypt A (jsonCodecs foreign lossy) k
    unmarshalCreds := readCreds foreign lossy }

/-- The same worker if the table held the texts themselves. -/
def clearWorker : Platform :=
  { P with
    decrypt := fun s => some (utf8 s)
    unmarshalCreds := readCreds foreign lossy }

/-! ## Requests -/

/-- The text of a value: a string as it is, anything else as JSON. -/
def plaintext : Value → String
  | .str s => s
  | v => v.text plainStyle

/-- A request that writes a secret, with what it draws. -/
inductive SecretWrite where
  /-- `PUT /api/secrets/:ref`. -/
  | put (ref : String) (value : Value) (d : Draw)
  /-- `POST /api/dkim-keys/generate`: the private key of the new pair. -/
  | generate (domain selector pem : String) (d : Draw)
  /-- `DELETE /api/secrets/:ref`. -/
  | delete (ref : String)

/-- The table `secrets`: the envelope of a ref. -/
abbrev Table := String → Option String

/-- `INSERT … ON CONFLICT (ref) DO UPDATE` of an envelope; without one the request fails before
    it. -/
def upsertSecret (t : Table) (ref : String) : Option String → Table
  | none => t
  | some envelope => Function.update t ref (some envelope)

/-- What a request does to the table, when it seals so. -/
def SecretWrite.apply (sealing : Draw → String → Option String) (t : Table) : SecretWrite → Table
  | .put ref value d => upsertSecret t ref (sealing d (plaintext value))
  | .generate domain selector pem d =>
    upsertSecret t ("dkim/" ++ domain ++ "/" ++ selector) (sealing d pem)
  | .delete ref => Function.update t ref none

/-- The table after a number of requests. -/
def tableAfter (sealing : Draw → String → Option String) (ws : List SecretWrite) : Table :=
  ws.foldl (SecretWrite.apply sealing) fun _ => none

/-- The table as it is. -/
def sealedTable (ws : List SecretWrite) : Table :=
  tableAfter (Ts.encrypt A (jsonCodecs foreign lossy) k) ws

/-- The table with the texts themselves. -/
def clearTable (ws : List SecretWrite) : Table := tableAfter (fun _ p => some p) ws

/-! ## The table refines the one with the texts -/

/-- The envelope of a text. -/
def sealedWith (d : Draw) (p : String) : String :=
  (enveloped A k d (utf8 p)).value.text plainStyle

/-- A ref has an envelope of its text, and none when it has none. -/
def Refines (t clear : Table) : Prop :=
  ∀ ref, (clear ref = none ∧ t ref = none) ∨
    ∃ p d, clear ref = some p ∧ t ref = some (sealedWith A k d p)

theorem encrypt_eq_sealedWith (d : Draw) (p : String) :
    Ts.encrypt A (jsonCodecs foreign lossy) k d p = some (sealedWith A k d p) :=
  Ts.encrypt_eq k d p

theorem Refines.update {t clear : Table} (h : Refines A k t clear) (ref : String) (d : Draw)
    (p : String) : Refines A k (Function.update t ref (some (sealedWith A k d p)))
      (Function.update clear ref (some p)) := by
  intro r
  by_cases hr : r = ref
  · subst hr
    exact .inr ⟨p, d, Function.update_self .., Function.update_self ..⟩
  · rw [Function.update_of_ne hr, Function.update_of_ne hr]
    exact h r

theorem Refines.erase {t clear : Table} (h : Refines A k t clear) (ref : String) :
    Refines A k (Function.update t ref none) (Function.update clear ref none) := by
  intro r
  by_cases hr : r = ref
  · subst hr
    exact .inl ⟨Function.update_self .., Function.update_self ..⟩
  · rw [Function.update_of_ne hr, Function.update_of_ne hr]
    exact h r

/-- **One request** keeps the tables together. -/
theorem Refines.apply {t clear : Table} (h : Refines A k t clear) (w : SecretWrite) :
    Refines A k (w.apply (Ts.encrypt A (jsonCodecs foreign lossy) k) t)
      (w.apply (fun _ p => some p) clear) := by
  cases w with
  | put ref value d =>
    show Refines A k (upsertSecret t ref (Ts.encrypt A _ k d (plaintext value))) _
    rw [encrypt_eq_sealedWith]
    exact h.update A k ref d (plaintext value)
  | generate domain selector pem d =>
    show Refines A k (upsertSecret t _ (Ts.encrypt A _ k d pem)) _
    rw [encrypt_eq_sealedWith]
    exact h.update A k _ d pem
  | delete ref => exact h.erase A k ref

/-- **Any number of requests** do. -/
theorem refines_tables (ws : List SecretWrite) :
    Refines A k (sealedTable foreign lossy A k ws) (clearTable ws) := by
  have hrun : ∀ (ws : List SecretWrite) (t clear : Table), Refines A k t clear →
      Refines A k (ws.foldl (SecretWrite.apply (Ts.encrypt A (jsonCodecs foreign lossy) k)) t)
        (ws.foldl (SecretWrite.apply fun _ p => some p) clear) := by
    intro ws
    induction ws with
    | nil => exact fun t clear h => h
    | cons w ws ih => exact fun t clear h => ih _ _ (h.apply foreign lossy A k w)
  exact hrun ws _ _ fun ref => .inl ⟨rfl, rfl⟩

/-! ## What the worker makes of the table -/

variable {foreign lossy A k P}

theorem sealedWith_ne_empty (d : Draw) (p : String) : sealedWith A k d p ≠ "" := by
  intro h
  have hlist := congrArg String.toList h
  unfold sealedWith Value.text at hlist
  rw [String.toList_ofList] at hlist
  cases hlist

/-- The worker opens the envelope of a text. -/
theorem decrypt_sealedWith (hA : A.Lawful) (d : Draw) (p : String) :
    (worker foreign lossy A k P).decrypt (sealedWith A k d p) = some (utf8 p) := by
  have hw : Reads (fun e => e.value.text plainStyle) (jsonCodecs foreign lossy).unmarshal :=
    (jsonCodecs_lawful foreign lossy).unmarshal_stringify
  exact Go.decrypt_enveloped hA hw k d (utf8 p)

/-- An empty text holds no credentials. -/
theorem readCreds_empty : (readCreds foreign lossy (utf8 "")).2 = false := by
  unfold readCreds
  rw [utf8Text_utf8]
  rfl

theorem secretCreds_of_decrypt {P : Platform} {env : String} {pt : Bytes} (henv : env ≠ "")
    (hpt : P.decrypt env = some pt) : secretCreds P (some env) =
      if (P.unmarshalCreds pt).2 then some (P.unmarshalCreds pt).1 else none := by
  simp only [secretCreds, if_neg henv, hpt]

theorem signerOf_of_decrypt {P : Platform} (key : DKIMKey) {env : String} {pem : Bytes}
    (henv : env ≠ "") (hpem : P.decrypt env = some pem) :
    signerOf P key (some env) = loadPEM P key.domain key.selector pem := by
  simp only [signerOf, if_neg henv, hpem]

/-- The credentials of a ref are those of its text. -/
theorem Refines.secretCreds {t clear : Table} (h : Refines A k t clear) (hA : A.Lawful)
    (ref : String) :
    secretCreds (worker foreign lossy A k P) (some ((t ref).getD "")) =
      secretCreds (clearWorker foreign lossy P) (some ((clear ref).getD "")) := by
  rcases h ref with ⟨hc, ht⟩ | ⟨p, d, hc, ht⟩
  · rw [hc, ht]
    rfl
  · rw [hc, ht, Option.getD_some, secretCreds_of_decrypt (P := worker foreign lossy A k P)
      (sealedWith_ne_empty d p) (decrypt_sealedWith hA d p)]
    show (if (readCreds foreign lossy (utf8 p)).2 then some (readCreds foreign lossy (utf8 p)).1
      else none) = if p = "" then none else
        if (readCreds foreign lossy (utf8 p)).2 then some (readCreds foreign lossy (utf8 p)).1
        else none
    by_cases hp : p = ""
    · rw [if_pos hp, hp, readCreds_empty]
      rfl
    · rw [if_neg hp]

/-- The signer of a ref is that of its text. -/
theorem Refines.signerOf {t clear : Table} (h : Refines A k t clear) (hA : A.Lawful)
    (key : DKIMKey) (ref : String) :
    signerOf (worker foreign lossy A k P) key (some ((t ref).getD "")) =
      signerOf (clearWorker foreign lossy P) key (some ((clear ref).getD "")) := by
  rcases h ref with ⟨hc, ht⟩ | ⟨p, d, hc, ht⟩
  · rw [hc, ht]
    rfl
  · rw [hc, ht, Option.getD_some, signerOf_of_decrypt (P := worker foreign lossy A k P) key
      (sealedWith_ne_empty d p) (decrypt_sealedWith hA d p)]
    show loadPEM P key.domain key.selector (utf8 p) =
      if p = "" then none else loadPEM P key.domain key.selector (utf8 p)
    by_cases hp : p = ""
    · have hempty : utf8 p = [] := by rw [hp]; rfl
      rw [if_pos hp, loadPEM, if_pos (.inr (.inr hempty))]
    · rw [if_neg hp]

/-- **Encryption at rest is transparent.**  After any requests that write secrets, the worker routes
    as if the table held the texts themselves: with the same providers, credentials and signers. -/
theorem encryption_is_transparent (hA : A.Lawful) (db : ConfigDb) (ws : List SecretWrite) :
    (buildState (worker foreign lossy A k P) true).eval
        { db with secrets := sealedTable foreign lossy A k ws }.answer =
      (buildState (clearWorker foreign lossy P) true).eval
        { db with secrets := clearTable ws }.answer := by
  have htables := refines_tables foreign lossy A k ws
  have hinstance : addInstance (worker foreign lossy A k P) true
      (((db.settingString "direct_helo")).getD "localhost")
      (TLSPolicies.build (db.answer .getTLSPolicies).rows)
      { db with secrets := sealedTable foreign lossy A k ws }.answer =
      addInstance (clearWorker foreign lossy P) true
      (((db.settingString "direct_helo")).getD "localhost")
      (TLSPolicies.build (db.answer .getTLSPolicies).rows)
      { db with secrets := clearTable ws }.answer := by
    funext acc p
    have hcreds : credsOf (worker foreign lossy A k P) true p.secretRef
        (some ((sealedTable foreign lossy A k ws p.secretRef).getD "")) (db.secretFile p.secretRef) =
        credsOf (clearWorker foreign lossy P) true p.secretRef
          (some ((clearTable ws p.secretRef).getD "")) (db.secretFile p.secretRef) := by
      unfold credsOf
      rw [htables.secretCreds hA p.secretRef]
      rfl
    unfold addInstance
    dsimp only [ConfigDb.answer]
    rw [hcreds]
    rfl
  have hsigner : addSigner (worker foreign lossy A k P)
      { db with secrets := sealedTable foreign lossy A k ws }.answer =
      addSigner (clearWorker foreign lossy P) { db with secrets := clearTable ws }.answer := by
    funext acc key
    unfold addSigner
    dsimp only [ConfigDb.answer]
    rw [htables.signerOf hA key key.privateRef]
  rw [buildState_eval, buildState_eval]
  unfold instancesOf signersOf
  dsimp only [ConfigDb.answer] at hinstance ⊢
  rw [hinstance, hsigner]

/-- A worker with the pinned master key. -/
def pinnedWorker : Platform :=
  worker (fun _ => []) (fun _ => "") (ofVectors pinnedVectors) pinnedKek .plain

/-- The table with envelopes under this key. -/
def pinnedTable (ws : List SecretWrite) : Table :=
  sealedTable (fun _ => []) (fun _ => "") (ofVectors pinnedVectors) pinnedKek ws

theorem encryption_is_transparent_pinned :
    let db : ConfigDb := { providers := [⟨⟨"p1", "SES", .ses, "", "smtp-auth", "ses"⟩, true⟩] }
    let ws : List SecretWrite := [.put "ses" (.obj [("username", .str "AKIA")]) pinnedDraw]
    (buildState pinnedWorker true).eval { db with secrets := pinnedTable ws }.answer =
      (buildState (clearWorker (fun _ => []) (fun _ => "") .plain) true).eval
        { db with secrets := clearTable ws }.answer :=
  encryption_is_transparent pinned_lawful _ _

/-! ## What the operator sends -/

/-- The text of a value that is a string. -/
def stringOf : Value → Option String
  | .str s => some s
  | _ => none

/-- The last string under a name, in whatever case; empty when there is none. -/
def lastNamed (name : String) (ms : List (String × Value)) : String :=
  (ms.filterMap fun m => if Into.sameName name m.1 then stringOf m.2 else none).getLast?.getD ""

/-- The credentials in the members of an object. -/
def credsIn (ms : List (String × Value)) : Creds where
  username := lastNamed "Username" ms
  password := lastNamed "Password" ms
  clientID := lastNamed "ClientID" ms
  clientSecret := lastNamed "ClientSecret" ms
  refreshToken := lastNamed "RefreshToken" ms

/-- The value goes into a place for a string: it is one, or `null`. -/
def fitsString : Value → Bool
  | .str _ | .null => true
  | _ => false

/-- A member that names credentials fits. -/
def fits (m : String × Value) : Bool :=
  (credsFields.all fun f => !Into.sameName f.1 m.1) || fitsString m.2

theorem lastNamed_append (name : String) (ms : List (String × Value)) (m : String × Value) :
    lastNamed name (ms ++ [m]) =
      if Into.sameName name m.1 then (stringOf m.2).getD (lastNamed name ms)
      else lastNamed name ms := by
  unfold lastNamed
  rw [List.filterMap_append]
  split
  · rename_i hname
    cases h : stringOf m.2 with
    | none =>
      rw [List.filterMap_cons_none (by rw [if_pos hname, h]), List.filterMap_nil, List.append_nil]
      rfl
    | some s =>
      rw [List.filterMap_cons_some (by rw [if_pos hname, h]), List.filterMap_nil,
        List.getLast?_concat]
      rfl
  · rename_i hname
    rw [List.filterMap_cons_none (by rw [if_neg hname]), List.filterMap_nil, List.append_nil]

theorem credsFields_distinct : Into.Distinct credsFields := by
  simp only [Into.Distinct, credsFields, List.pairwise_cons, List.mem_cons, List.not_mem_nil,
    or_false, forall_eq_or_imp, forall_eq, List.Pairwise.nil, and_true, false_imp_iff,
    implies_true]
  decide

/-- One more member of the object. -/
theorem member_creds (ms : List (String × Value)) (m : String × Value) (ok : Bool) :
    Into.member credsFields (credsIn ms, ok) m = (credsIn (ms ++ [m]), ok && fits m) := by
  by_cases hnamed : ∃ f ∈ credsFields, Into.sameName f.1 m.1 = true
  · obtain ⟨f, hf, hk⟩ := hnamed
    have hfits : fits m = fitsString m.2 := by
      have hany : (credsFields.all fun f => !Into.sameName f.1 m.1) = false :=
        List.all_eq_false.mpr ⟨f, hf, by rw [hk]; exact Bool.false_ne_true⟩
      rw [fits, hany, Bool.false_or]
    unfold Into.member
    rw [Into.field_of_sameName credsFields_distinct hf hk, hfits]
    simp only [credsFields, List.mem_cons, List.not_mem_nil, or_false] at hf
    have hcongr := Into.sameName_congr hk
    unfold credsIn
    simp only [lastNamed_append, hcongr]
    rcases hf with rfl | rfl | rfl | rfl | rfl
    all_goals
      cases m.2 <;> rfl
  · have hnone : ∀ f ∈ credsFields, Into.sameName f.1 m.1 = false := fun f hf =>
      Bool.eq_false_iff.mpr fun hk => hnamed ⟨f, hf, hk⟩
    have hfits : fits m = true := by
      have hall : (credsFields.all fun f => !Into.sameName f.1 m.1) = true :=
        List.all_eq_true.mpr fun f hf => by rw [hnone f hf]; rfl
      rw [fits, hall, Bool.true_or]
    unfold Into.member
    rw [Into.field_eq_none hnone, hfits, Bool.and_true]
    have hsame (f : String × Into Creds) (hf : f ∈ credsFields) :
        lastNamed f.1 (ms ++ [m]) = lastNamed f.1 ms := by
      rw [lastNamed_append, hnone f hf, if_neg Bool.false_ne_true]
    have hcreds : credsIn (ms ++ [m]) = credsIn ms := by
      have h₁ := hsame _ (.head _)
      have h₂ := hsame _ (.tail _ (.head _))
      have h₃ := hsame _ (.tail _ (.tail _ (.head _)))
      have h₄ := hsame _ (.tail _ (.tail _ (.tail _ (.head _))))
      have h₅ := hsame _ (.tail _ (.tail _ (.tail _ (.tail _ (.head _)))))
      unfold credsIn
      dsimp only at h₁ h₂ h₃ h₄ h₅
      rw [h₁, h₂, h₃, h₄, h₅]
    rw [hcreds]

/-- **The credentials of an object** are the last string under each name, in whatever case; the
    object is refused if one of its members under these names is no string. -/
theorem record_creds (ms : List (String × Value)) :
    Into.record credsFields (.obj ms) {} = (credsIn ms, ms.all fits) := by
  rw [Into.record_obj]
  induction ms using List.reverseRecOn with
  | nil => rfl
  | append_singleton ms m ih =>
    rw [List.foldl_append, ih, List.foldl_cons, List.foldl_nil, member_creds, List.all_append]
    simp only [List.all_cons, List.all_nil, Bool.and_true]

/-- The ref that a request writes. -/
def SecretWrite.ref : SecretWrite → String
  | .put ref _ _ | .delete ref => ref
  | .generate domain selector _ _ => "dkim/" ++ domain ++ "/" ++ selector

/-- A request leaves the other refs alone. -/
theorem SecretWrite.apply_of_ne {sealing : Draw → String → Option String} {t : Table}
    {w : SecretWrite} {ref : String} (h : w.ref ≠ ref) : w.apply sealing t ref = t ref := by
  have hup : ∀ e : Option String, upsertSecret t w.ref e ref = t ref := fun e => by
    cases e with
    | none => rfl
    | some e => exact Function.update_of_ne h.symm _ _
  cases w with
  | put r value d => exact hup _
  | generate domain selector pem d => exact hup _
  | delete r => exact Function.update_of_ne h.symm _ _

/-- What was put last is there. -/
theorem clearTable_put {ws ws' : List SecretWrite} {ref : String} {v : Value} {d : Draw}
    (h : ∀ w ∈ ws', w.ref ≠ ref) :
    clearTable (ws ++ .put ref v d :: ws') ref = some (plaintext v) := by
  have hlater : ∀ (ws' : List SecretWrite) (t : Table), (∀ w ∈ ws', w.ref ≠ ref) →
      ws'.foldl (SecretWrite.apply fun _ p => some p) t ref = t ref := by
    intro ws'
    induction ws' with
    | nil => exact fun t _ => rfl
    | cons w ws' ih =>
      intro t hall
      rw [List.foldl_cons, ih _ fun w hw => hall w (List.mem_cons_of_mem _ hw)]
      exact SecretWrite.apply_of_ne (hall w List.mem_cons_self)
  unfold clearTable tableAfter
  rw [List.foldl_append, List.foldl_cons, hlater ws' _ h]
  exact Function.update_self ..

/-- **A provider logs in with what the operator sent.**  An object that was put under a ref is what
    the worker reads there, through any number of requests for other refs; if one of its members
    under the names of credentials is no string, the worker finds nothing, and goes to the file. -/
theorem operator_credentials (hA : A.Lawful) {ws ws' : List SecretWrite} {ref : String}
    {ms : List (String × Value)} {d : Draw} (h : ∀ w ∈ ws', w.ref ≠ ref) :
    secretCreds (worker foreign lossy A k P)
        (some ((sealedTable foreign lossy A k (ws ++ .put ref (.obj ms) d :: ws') ref).getD "")) =
      if ms.all fits then some (credsIn ms) else none := by
  have hread : readCreds foreign lossy (utf8 (plaintext (.obj ms))) = (credsIn ms, ms.all fits) := by
    unfold readCreds
    rw [utf8Text_utf8]
    show Into.unmarshal (Into.record credsFields) {} ((Value.obj ms).text plainStyle) = _
    rw [Into.unmarshal_text, record_creds]
  rw [(refines_tables foreign lossy A k _).secretCreds hA ref, clearTable_put h]
  show (if plaintext (.obj ms) = "" then none else
    if (readCreds foreign lossy (utf8 (plaintext (.obj ms)))).2 then
      some (readCreds foreign lossy (utf8 (plaintext (.obj ms)))).1 else none) = _
  have hnonempty : plaintext (.obj ms) ≠ "" := by
    intro hempty
    have hlist := congrArg String.toList hempty
    simp only [plaintext, Value.text] at hlist
    rw [String.toList_ofList] at hlist
    cases hlist
  rw [if_neg hnonempty, hread]

theorem operator_credentials_pinned :
    secretCreds pinnedWorker
        (some ((pinnedTable ([.put "ses" .null pinnedDraw] ++ .put "ses" (.obj
          [("username", .str "AKIA"), ("PassWord", .str "old"), ("PASSWORD", .str "new")])
            pinnedDraw :: [.delete "m365"]) "ses").getD "")) =
      some { username := "AKIA", password := "new" } :=
  (operator_credentials pinned_lawful (List.forall_mem_singleton.mpr (by decide))).trans rfl

end Novamail.Secrets

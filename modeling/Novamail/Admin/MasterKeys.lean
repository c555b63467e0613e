/-
  The master key on the two planes: `New` of `secrets.go` and `kek` of `secrets.ts`.

  Both are given the text of `NOVAMAIL_SECRET_KEY`, and want 32 bytes from it.  Go's decoder wants
  the standard alphabet and its padding.  Node's takes any text, and reads the digits that it finds
  in front of the first `=`; 43 of them are 32 bytes, however they are written.
-/
import Novamail.Admin.Envelopes

namespace Novamail.Secrets

open Novamail.Core

/-! ## What each side takes -/

/-- The base64 of 32 bytes in the standard alphabet: 43 digits and one `=`, with line breaks
    anywhere. -/
def Standard (s : String) : Prop :=
  ∃ ds : List Char, (s.toList.filter fun c => c ≠ '\r' ∧ c ≠ '\n') = ds ++ ['='] ∧
    (∀ c ∈ ds, (Base64.value c).isSome) ∧ ds.length = 43

/-- In front of the first `=` are 43 digits of either alphabet, whatever is between them. -/
def Readable (foreign : Char → List Base64.Glyph) (s : String) : Prop :=
  ((s.toList.flatMap (Base64.glyphs foreign)).takeWhile (· ≠ .stop)).length = 43

variable {foreign : Char → List Base64.Glyph} {s : String}

theorem readable_iff : Readable foreign s ↔ (Base64.digitsIn foreign s).length = 43 := by
  unfold Readable Base64.digitsIn
  rw [Base64.length_sextets]

theorem Standard.padded (h : Standard s) : ∃ ds : List Char,
    Base64.Padded (s.toList.filter fun c => c ≠ '\r' ∧ c ≠ '\n') ds 1 ∧ ds.length = 43 := by
  obtain ⟨ds, hsplit, hdigits, hlen⟩ := h
  exact ⟨ds, ⟨hsplit, hdigits, by omega, by omega⟩, hlen⟩

/-- All of the digits count. -/
theorem length_filterMap_value {ds : List Char} (h : ∀ c ∈ ds, (Base64.value c).isSome) :
    (ds.filterMap Base64.value).length = ds.length := by
  rw [List.length_filterMap_eq_countP]
  exact List.countP_eq_length.mpr h

theorem Standard.readable (h : Standard s) : Readable foreign s := by
  obtain ⟨ds, hp, hlen⟩ := h.padded
  rw [readable_iff, hp.digitsIn, length_filterMap_value hp.digits, hlen]

/-- 32 bytes are 43 digits. -/
theorem length_lenient : (Base64.lenient foreign s).length = 32 ↔ Readable foreign s := by
  unfold Base64.lenient
  rw [readable_iff, Base64.length_bytesOf]
  omega

/-- Go takes the standard texts, and reads in them what Node would. -/
theorem Go.new_eq_ok (foreign : Char → List Base64.Glyph) {k : Key} :
    Go.new s = .ok k ↔ Standard s ∧ k.1 = Base64.lenient foreign s := by
  constructor
  · intro h
    unfold Go.new at h
    split at h
    · cases h
    · rename_i bs hbs
      have hsame : Base64.lenient foreign s = bs := Base64.lenient_of_decode hbs
      split at h
      · rename_i h32
        cases h
        refine ⟨?_, hsame.symm⟩
        obtain ⟨ds, p, hp, rfl⟩ := Base64.Padded.of_decode hbs
        have hlen := hp.whole
        have hfew := hp.few
        rw [Base64.length_bytesOf, length_filterMap_value hp.digits] at h32
        obtain rfl : p = 1 := by omega
        exact ⟨ds, hp.split, hp.digits, by omega⟩
      · cases h
  · rintro ⟨hs, hk⟩
    obtain ⟨ds, hp, -⟩ := hs.padded
    have hdecode : Base64.decode s = some (Base64.bytesOf (ds.filterMap Base64.value)) := hp.decode
    have hsame : k.1 = Base64.bytesOf (ds.filterMap Base64.value) :=
      hk.trans (Base64.lenient_of_decode hdecode)
    unfold Go.new
    simp only [hdecode, ← hsame, k.2, dite_true]

/-- Node takes the readable texts. -/
theorem Ts.kek_eq_ok {env : Option String} {k : Key} :
    Ts.kek foreign env = .ok k ↔
      Readable foreign (env.getD "") ∧ k.1 = Base64.lenient foreign (env.getD "") := by
  have hempty : ¬ Readable foreign "" := nofun
  constructor
  · intro h
    unfold Ts.kek at h
    split at h
    · cases h
    · dsimp only at h
      split at h
      · rename_i h32
        cases h
        exact ⟨length_lenient.mp h32, rfl⟩
      · cases h
  · rintro ⟨hr, hk⟩
    have hset : env.getD "" ≠ "" := by
      intro hno
      rw [hno] at hr
      exact hempty hr
    unfold Ts.kek
    rw [if_neg hset]
    simp only [← hk, k.2, dite_true]

/-! ## One text for both -/

/-- The two sides have the same key, or neither has one. -/
def SameKey (foreign : Char → List Base64.Glyph) (env : Option String) : Prop :=
  ∀ k : Key, Ts.kek foreign env = .ok k ↔ Go.new (env.getD "") = .ok k

/-- The envelope of an Admin API with this environment. -/
def Ts.write (A : AESGCM) (L : Codecs) (foreign : Char → List Base64.Glyph) (env : Option String)
    (d : Draw) (plaintext : String) : Option String := do
  let k ← (Ts.kek foreign env).toOption
  Ts.encrypt A L k d plaintext

/-- What a delivery worker with this environment reads in an envelope. -/
def Go.read (A : AESGCM) (L : Codecs) (env : Option String) (envelope : String) : Option Bytes := do
  let k ← (Go.new (env.getD "")).toOption
  Go.decrypt A L k envelope

/-- The delivery worker reads all that the Admin API writes. -/
def WorkerReads (A : AESGCM) (L : Codecs) (foreign : Char → List Base64.Glyph)
    (env : Option String) : Prop :=
  ∀ (d : Draw) (p envelope : String), Ts.write A L foreign env d p = some envelope →
    Go.read A L env envelope = some (utf8 p)

variable {A : AESGCM} {L : Codecs} {env : Option String}

theorem sameKey_iff : SameKey foreign env ↔
    (Readable foreign (env.getD "") → Standard (env.getD "")) := by
  constructor
  · intro h hr
    have hkek : Ts.kek foreign env = .ok ⟨_, length_lenient.mpr hr⟩ := Ts.kek_eq_ok.mpr ⟨hr, rfl⟩
    exact ((Go.new_eq_ok foreign).mp ((h _).mp hkek)).1
  · intro h k
    rw [Ts.kek_eq_ok, Go.new_eq_ok foreign]
    exact and_congr_left fun _ => ⟨h, Standard.readable⟩

theorem workerReads_iff (hA : A.Lawful) (hL : Reads L.stringify L.unmarshal) :
    WorkerReads A L foreign env ↔
      (Readable foreign (env.getD "") → Standard (env.getD "")) := by
  have hwrite : ∀ {k : Key}, Ts.kek foreign env = .ok k → ∀ d p,
      Ts.write A L foreign env d p = some (L.stringify (enveloped A k d (utf8 p))) := by
    intro k hk d p
    unfold Ts.write
    rw [hk]
    exact Ts.encrypt_eq k d p
  constructor
  · intro h hr
    have hkek : Ts.kek foreign env = .ok ⟨_, length_lenient.mpr hr⟩ := Ts.kek_eq_ok.mpr ⟨hr, rfl⟩
    -- one envelope is enough to see that the worker has a key
    have hread := h pinnedDraw "" _ (hwrite hkek pinnedDraw "")
    unfold Go.read at hread
    obtain ⟨k, hk, -⟩ := Option.bind_eq_some_iff.mp hread
    cases hnew : Go.new (env.getD "") with
    | error e =>
      rw [hnew] at hk
      cases hk
    | ok k' => exact ((Go.new_eq_ok foreign).mp hnew).1
  · intro h d p envelope henv
    have hkey := henv
    unfold Ts.write at hkey
    obtain ⟨k, hk, -⟩ := Option.bind_eq_some_iff.mp hkey
    cases hkek : Ts.kek foreign env with
    | error e =>
      rw [hkek] at hk
      cases hk
    | ok k' =>
      obtain rfl := Option.some.inj (henv.symm.trans (hwrite hkek d p))
      have hnew := (sameKey_iff.mpr h k').mp hkek
      unfold Go.read
      rw [hnew]
      exact Go.decrypt_enveloped hA hL k' d (utf8 p)

/-- **Both planes have the same key exactly if the 43 digits that Node finds are standard base64**,
    alone and padded; and exactly then the delivery worker reads what the Admin API writes. -/
theorem master_keys_agree_iff (hA : A.Lawful) (hL : Reads L.stringify L.unmarshal)
    (foreign : Char → List Base64.Glyph) (env : Option String) :
    (SameKey foreign env ↔ (Readable foreign (env.getD "") → Standard (env.getD ""))) ∧
    (WorkerReads A L foreign env ↔
      (Readable foreign (env.getD "") → Standard (env.getD ""))) :=
  ⟨sameKey_iff, workerReads_iff hA hL⟩

/-! ## A key without padding -/

/-- The base64 of a key, without its padding. -/
def unpadded : String := "MDEyMzQ1Njc4OWFiY2RlZjAxMjM0NTY3ODlhYmNkZWY"

/-- With the padding both have the key. -/
theorem master_keys_agree_padded : SameKey (fun _ => []) (some (unpadded ++ "=")) :=
  (master_keys_agree_iff pinned_lawful plainCodecs_lawful.unmarshal_stringify (fun _ => [])
    (some (unpadded ++ "="))).1.mpr fun _ =>
      ⟨unpadded.toList, by decide, by simp [unpadded, Base64.value], by simp [unpadded]⟩

/-- **Without it the Admin API has the key and the worker has none**, and no envelope is read. -/
theorem master_keys_differ :
    Ts.kek (fun _ => []) (some unpadded) = .ok pinnedKek ∧ Go.new unpadded = .error .decode ∧
      ¬ SameKey (fun _ => []) (some unpadded) ∧
      ¬ WorkerReads (ofVectors pinnedVectors) plainCodecs (fun _ => []) (some unpadded) := by
  have hkek : Ts.kek (fun _ => []) (some unpadded) = .ok pinnedKek := rfl
  have hnew : Go.new unpadded = .error .decode := rfl
  refine ⟨hkek, hnew, fun hsame => ?_, fun hreads => ?_⟩
  · have hboth := (hsame pinnedKek).mp hkek
    rw [show Go.new ((some unpadded).getD "") = .error .decode from hnew] at hboth
    cases hboth
  · cases hreads pinnedDraw "" _ (Ts.encrypt_eq pinnedKek pinnedDraw "")

end Novamail.Secrets

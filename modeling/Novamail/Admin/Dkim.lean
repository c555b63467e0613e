/-
  `POST /api/dkim-keys/generate` of `routes.ts`, and the two tables it writes.

  The rotation of a key is three statements and an announcement, without a transaction: the private
  key into `secrets`, the active keys of the domain to `retiring`, the new key into `dkim_keys`.
  Each statement may be done, fail, or be done and reported as failed, and between any two of them
  the statements of other requests may come.

  The request's phase says which statements it has behind it, and how many keys its own UPDATE has
  retired.  `KeyTurn` lists what it may do from there; nothing below looks at the program again.
-/
import Novamail.Core.Pool
import Novamail.World.Calls

namespace Novamail

open Novamail.Core

/-! ## The tables -/

/-- A row of `dkim_keys`, without its domain and selector. -/
structure DKIMRow where
  privateRef : String
  publicKey : String
  rotation : Rotation
  deriving DecidableEq, Repr

/-- `secrets` by ref, and `dkim_keys` by domain and selector (they are UNIQUE). -/
structure KeyTables where
  secrets : String → Option String := fun _ => none
  keys : String × String → Option DKIMRow := fun _ => none

namespace KeyTables

/-- The key is in rotation active. -/
def Active (s : KeyTables) (k : String × String) : Prop :=
  ∃ row, s.keys k = some row ∧ row.rotation = .active

/-- The key is an active key of a domain, given lowercased: the delivery worker files its signer
    under `strings.ToLower(k.Domain)`. -/
def ActiveOf (s : KeyTables) (c : String) (k : String × String) : Prop :=
  s.Active k ∧ lower k.1 = c

end KeyTables

/-! ## The statements -/

/-- A statement of the request. -/
inductive KeyStmt where
  /-- `INSERT INTO secrets … ON CONFLICT (ref) DO UPDATE`. -/
  | upsertSecret (ref envelope : String)
  /-- `UPDATE dkim_keys SET rotation='retiring' WHERE domain=$1 AND rotation='active'`. -/
  | retire (domain : String)
  /-- `INSERT INTO dkim_keys … ON CONFLICT (domain, selector) DO UPDATE`. -/
  | upsertKey (domain selector privateRef publicKey : String)
  /-- `publishConfigChanged`, which reads the next epoch. -/
  | publishConfigChanged
  deriving DecidableEq, Repr

/-- The number of rows it changed; none when it throws. -/
@[reducible] def KeyStmt.Ret : KeyStmt → Type := fun _ => Option Nat

namespace KeyStmt

/-- One row under the UPDATE. -/
def retireRow (r : DKIMRow) : DKIMRow :=
  if r.rotation = .active then { r with rotation := .retiring } else r

/-- The effect of a statement. -/
def apply (s : KeyTables) : KeyStmt → KeyTables
  | .upsertSecret ref envelope => { s with secrets := Function.update s.secrets ref (some envelope) }
  | .retire domain =>
    { s with keys := fun k => if k.1 = domain then (s.keys k).map retireRow else s.keys k }
  | .upsertKey domain selector privateRef publicKey =>
    { s with
      keys := Function.update s.keys (domain, selector) (some ⟨privateRef, publicKey, .active⟩) }
  | .publishConfigChanged => s

/-- The row count of a statement that is done.  Of the UPDATE it matters here only whether it is
    zero. -/
def Counts (s : KeyTables) : KeyStmt → Nat → Prop
  | .upsertSecret _ _, n | .upsertKey _ _ _ _, n => n = 1
  | .retire domain, n => n = 0 ↔ ∀ k, s.Active k → k.1 ≠ domain
  | .publishConfigChanged, n => n = 0

/-- What a statement may answer, and the tables after it. -/
inductive Exec (s : KeyTables) (o : KeyStmt) : Option Nat → Fate → KeyTables → Prop where
  | ok {n : Nat} (h : o.Counts s n) : Exec s o (some n) .ok (o.apply s)
  | failed : Exec s o none .failed s
  | lost : Exec s o none .lost (o.apply s)

end KeyStmt

/-- The tables change as the fate says. -/
theorem KeyStmt.Exec.shared_eq {s s' : KeyTables} {o : KeyStmt} {n : Option Nat} {f : Fate}
    (h : o.Exec s n f s') : s' = if f.applied then o.apply s else s := by
  cases h with
  | ok | failed | lost => rfl

/-- The caller is answered as the fate says. -/
theorem KeyStmt.Exec.reported_eq {s s' : KeyTables} {o : KeyStmt} {n : Option Nat} {f : Fate}
    (h : o.Exec s n f s') : f.reported = n.isSome := by
  cases h with
  | ok | failed | lost => rfl

/-- An active row was there before, or is the row of an upsert. -/
theorem KeyStmt.Exec.row_was {s s' : KeyTables} {o : KeyStmt} {n : Option Nat} {f : Fate}
    {k : String × String} {row : DKIMRow} (h : o.Exec s n f s') (hrow : s'.keys k = some row)
    (hact : row.rotation = .active) :
    s.keys k = some row ∨
      f.applied = true ∧ o = .upsertKey k.1 k.2 row.privateRef row.publicKey := by
  rw [h.shared_eq] at hrow
  split at hrow
  · rename_i hf
    cases o with
    | upsertSecret | publishConfigChanged => exact .inl hrow
    | retire domain =>
      replace hrow : (if k.1 = domain then (s.keys k).map retireRow else s.keys k) = some row := hrow
      split at hrow
      · obtain ⟨old, hold, rfl⟩ := Option.map_eq_some_iff.mp hrow
        -- a row that was active is now retiring, another is as it was
        unfold retireRow at hact ⊢
        split at hact
        · cases hact
        · contradiction
      · exact .inl hrow
    | upsertKey domain selector ref pub =>
      replace hrow : Function.update s.keys (domain, selector) (some ⟨ref, pub, .active⟩) k =
        some row := hrow
      by_cases hk : k = (domain, selector)
      · subst hk
        rw [Function.update_self] at hrow
        cases hrow
        exact .inr ⟨hf, rfl⟩
      · rw [Function.update_of_ne hk] at hrow
        exact .inl hrow
  · exact .inl hrow

/-- Only the upsert of a secret changes one. -/
theorem KeyStmt.Exec.secrets_eq {s s' : KeyTables} {o : KeyStmt} {n : Option Nat} {f : Fate}
    {ref : String} (h : o.Exec s n f s')
    (ho : f.applied = true → ∀ e, o ≠ .upsertSecret ref e) : s'.secrets ref = s.secrets ref := by
  rw [h.shared_eq]
  split
  · rename_i hf
    cases o with
    | retire | upsertKey | publishConfigChanged => rfl
    | upsertSecret ref' e =>
      exact Function.update_of_ne (fun hr => ho hf e (by rw [hr])) _ _
  · rfl

/-- The UPDATE leaves its domain without an active key. -/
theorem KeyTables.active_retire {s : KeyTables} {k : String × String} {domain : String} :
    ((KeyStmt.retire domain).apply s).Active k ↔ s.Active k ∧ k.1 ≠ domain := by
  unfold KeyTables.Active
  show (∃ row, (if k.1 = domain then (s.keys k).map KeyStmt.retireRow else s.keys k) = some row ∧
    row.rotation = .active) ↔ _
  by_cases hd : k.1 = domain
  · rw [if_pos hd]
    refine ⟨fun ⟨row, hrow, hact⟩ => ?_, fun h => absurd hd h.2⟩
    obtain ⟨old, hold, rfl⟩ := Option.map_eq_some_iff.mp hrow
    -- a row that was active is now retiring, another keeps a rotation that is not active
    unfold KeyStmt.retireRow at hact
    split at hact
    · cases hact
    · contradiction
  · rw [if_neg hd]
    exact ⟨fun h => ⟨h, hd⟩, fun h => h.1⟩

/-- The row that an upsert leaves. -/
theorem KeyStmt.Exec.row_upsertKey {s s' : KeyTables} {q : String × String} {ref pub : String}
    {n : Option Nat} {f : Fate} (h : (KeyStmt.upsertKey q.1 q.2 ref pub).Exec s n f s')
    (hf : f.applied = true) : s'.keys q = some ⟨ref, pub, .active⟩ := by
  rw [h.shared_eq, if_pos hf]
  exact Function.update_self ..

/-- The row count of a statement that was done. -/
theorem KeyStmt.Exec.counts {s s' : KeyTables} {o : KeyStmt} {n : Nat} {f : Fate}
    (h : o.Exec s (some n) f s') : o.Counts s n := by
  cases h with
  | ok h => exact h

/-! ## The request -/

/-- The body of the request. -/
structure GenerateBody where
  domain : Option String := none
  selector : Option String := none
  deriving DecidableEq, Repr

/-- What the crypto library draws for a request: the key pair (the public key as base64 of its
    DER), and the envelope of the private key, none when `encrypt` throws. -/
structure KeyDraw where
  publicKey : String
  privateKey : String
  envelope : Option String
  deriving DecidableEq, Repr

/-- A request with its draw. -/
structure KeyTask where
  body : GenerateBody
  draw : KeyDraw
  deriving DecidableEq, Repr

namespace KeyTask

/-- `b.domain`. -/
def domain (t : KeyTask) : String := t.body.domain.getD ""

/-- `b.selector`. -/
def selector (t : KeyTask) : String := t.body.selector.getD ""

/-- The key of the request in `dkim_keys`. -/
def key (t : KeyTask) : String × String := (t.domain, t.selector)

/-- The ref of its private key in `secrets`. -/
def ref (t : KeyTask) : String := "dkim/" ++ t.domain ++ "/" ++ t.selector

/-- The domain as the delivery worker compares it. -/
def cls (t : KeyTask) : String := lower t.domain

end KeyTask

/-- The reply. -/
inductive GenerateReply where
  /-- 201, with the DNS record to publish. -/
  | created (domain selector name value : String)
  /-- 400. -/
  | badRequest
  /-- 500: a statement or the encryption has thrown. -/
  | error
  deriving DecidableEq, Repr

/-- The request has completed. -/
def GenerateReply.isCreated : GenerateReply → Bool
  | .created _ _ _ _ => true
  | .badRequest | .error => false

/-- Make a statement. -/
def stmt (o : KeyStmt) : Prog KeyStmt.Ret (Option Nat) := Prog.lift o

/-- `POST /api/dkim-keys/generate`. -/
def generate (t : KeyTask) : Prog KeyStmt.Ret GenerateReply := do
  if t.domain = "" || t.selector = "" then pure .badRequest
  else
    match t.draw.envelope with
    | none => pure .error
    | some envelope =>
      if (← stmt (.upsertSecret t.ref envelope)).isNone then pure .error
      else if (← stmt (.retire t.domain)).isNone then pure .error
      else if (← stmt (.upsertKey t.domain t.selector t.ref t.draw.publicKey)).isNone then
        pure .error
      else if (← stmt .publishConfigChanged).isNone then pure .error
      else pure (.created t.domain t.selector (t.selector ++ "._domainkey." ++ t.domain)
        ("v=DKIM1; k=rsa; p=" ++ t.draw.publicKey))

/-! ## Its phases -/

/-- What a request has behind it, with the number of keys its UPDATE has retired. -/
inductive KeyPhase where
  | begun
  | stored
  | retired (n : Nat)
  | rotated (n : Nat)
  | announced (n : Nat)
  | failed
  deriving DecidableEq, Repr

/-- The keys the request has retired. -/
def KeyPhase.dropped : KeyPhase → Nat
  | .retired n | .rotated n | .announced n => n
  | .begun | .stored | .failed => 0

/-- The request has upserted its key. -/
def KeyPhase.upserted : KeyPhase → Bool
  | .rotated _ | .announced _ => true
  | .begun | .stored | .retired _ | .failed => false

/-- The phase after a statement. -/
def KeyPhase.next (ph : KeyPhase) (r : Option Nat) : KeyPhase :=
  match r, ph with
  | none, _ => .failed
  | some _, .begun => .stored
  | some n, .stored => .retired n
  | some _, .retired n => .rotated n
  | some _, .rotated n => .announced n
  | some _, ph => ph

/-- The statement a request makes in each phase. -/
inductive KeyTurn (t : KeyTask) : KeyPhase → KeyStmt → Prop where
  | store {envelope : String} (h : t.draw.envelope = some envelope) :
      KeyTurn t .begun (.upsertSecret t.ref envelope)
  | retire : KeyTurn t .stored (.retire t.domain)
  | rotate {n : Nat} :
      KeyTurn t (.retired n) (.upsertKey t.domain t.selector t.ref t.draw.publicKey)
  | announce {n : Nat} : KeyTurn t (.rotated n) .publishConfigChanged

theorem KeyTurn.of_retire {t : KeyTask} {ph : KeyPhase} {d : String}
    (h : KeyTurn t ph (.retire d)) : ph = .stored ∧ d = t.domain := by
  cases h with
  | retire => exact ⟨rfl, rfl⟩

theorem KeyTurn.of_retired {t : KeyTask} {n : Nat} {o : KeyStmt} (h : KeyTurn t (.retired n) o) :
    o = .upsertKey t.domain t.selector t.ref t.draw.publicKey := by
  cases h with
  | rotate => rfl

/-- The phases a request may end in, with the reply. -/
inductive KeyFin : KeyPhase → GenerateReply → Prop where
  | refused : KeyFin .begun .badRequest
  | unsealed : KeyFin .begun .error
  | failed : KeyFin .failed .error
  | created {n : Nat} {domain selector name value : String} :
      KeyFin (.announced n) (.created domain selector name value)

theorem KeyFin.upserted {ph : KeyPhase} {a : GenerateReply} (h : KeyFin ph a)
    (ha : a.isCreated = true) : ph.upserted = true := by
  cases h with
  | refused | unsealed | failed => cases ha
  | created => rfl

theorem KeyFin.created_of_dropped {ph : KeyPhase} {a : GenerateReply} (h : KeyFin ph a)
    (hd : 0 < ph.dropped) : a.isCreated = true := by
  cases h with
  | refused | unsealed | failed => exact absurd hd (Nat.lt_irrefl 0)
  | created => rfl

/-- The requests as a service.  `init` says from which tables, `genuine` what the crypto library
    may draw. -/
def dkimKeys (init : KeyTables → Prop) (genuine : KeyDraw → Prop) :
    Service KeyTables KeyTask KeyStmt.Ret Fate Empty GenerateReply KeyPhase where
  init := init
  starts _ t := genuine t.draw
  body := generate
  exec s _ o r f s' := o.Exec s r f s'
  world _ _ _ := False
  discipline t := { allow := KeyTurn t, next := fun ph _ r => ph.next r }
  birth _ := .begun

/-- A request that is running. -/
abbrev KeyRequest := Running KeyTask KeyStmt.Ret GenerateReply KeyPhase
/-- The tables and the requests that are running. -/
abbrev KeyPool := Pool KeyTables KeyTask KeyStmt.Ret GenerateReply KeyPhase
/-- A step of them. -/
abbrev KeyAct := Act KeyTask KeyStmt.Ret Fate Empty GenerateReply KeyPhase

section
variable {init : KeyTables → Prop} {genuine : KeyDraw → Prop} {ok : KeyPool → KeyAct → Prop}

/-- The request makes its statements in this order and stops at the first that throws. -/
theorem generate_obeys (t : KeyTask) :
    (generate t).Obeys ((dkimKeys init genuine).discipline t) KeyFin .begun := by
  unfold generate
  split
  · exact .refused
  · split
    · exact .unsealed
    · rename_i envelope henv
      refine Prog.obeys_lift_bind.mpr ⟨.store henv, fun r => ?_⟩
      cases r with
      | none => exact .failed
      | some n₁ =>
        refine Prog.obeys_lift_bind.mpr ⟨.retire, fun r => ?_⟩
        cases r with
        | none => exact .failed
        | some n =>
          refine Prog.obeys_lift_bind.mpr ⟨.rotate, fun r => ?_⟩
          cases r with
          | none => exact .failed
          | some n₂ =>
            refine Prog.obeys_lift_bind.mpr ⟨.announce, fun r => ?_⟩
            cases r with
            | none => exact .failed
            | some n₃ => exact .created

/-- The next statement of a running request. -/
theorem KeyRequest.turn {p : KeyPool} (h : Reach (dkimKeys init genuine).lts ok p)
    {r : KeyRequest} (hr : r ∈ p.running) {o : KeyStmt} {k : Option Nat → Prog KeyStmt.Ret _}
    (hk : r.rest = .call o k) : KeyTurn r.task r.past o :=
  (Service.obeys (fun _ => KeyFin) generate_obeys h r hr).allows hk

/-- The reply of a running request. -/
theorem KeyRequest.reply {p : KeyPool} (h : Reach (dkimKeys init genuine).lts ok p)
    {r : KeyRequest} (hr : r ∈ p.running) {a : GenerateReply} (hk : r.rest = .pure a) :
    KeyFin r.past a :=
  (Service.obeys (fun _ => KeyFin) generate_obeys h r hr).result hk

/-! ## Steps -/

/-- What a step is, with the phase the request made it in. -/
inductive KeyEvent (p p' : KeyPool) : KeyAct → Prop where
  | start {t : KeyTask} (hs : p'.shared = p.shared)
      (hr : ∃ r : KeyRequest, r.task = t ∧ r.past = .begun ∧ p'.running = r ::ₘ p.running) :
      KeyEvent p p' (.start t)
  | call {r r' : KeyRequest} {rs : Multiset KeyRequest} {o : KeyStmt} {n : Option Nat} {f : Fate}
      (hr : p.running = r ::ₘ rs) (hr' : p'.running = r' ::ₘ rs) (ht : r'.task = r.task)
      (hp : r'.past = r.past.next n) (hturn : KeyTurn r.task r.past o)
      (hx : o.Exec p.shared n f p'.shared) : KeyEvent p p' (.call r o n f)
  | finish {r : KeyRequest} {rs : Multiset KeyRequest} {a : GenerateReply}
      (hs : p'.shared = p.shared) (hr : p.running = r ::ₘ rs) (hr' : p'.running = rs)
      (hfin : KeyFin r.past a) : KeyEvent p p' (.finish r a)

/-- **Every step of the service is one of these.** -/
theorem KeyEvent.of_step {p p' : KeyPool} {l : KeyAct}
    (h : Reach (dkimKeys init genuine).lts ok p) (hst : (dkimKeys init genuine).Step p l p') :
    KeyEvent p p' l := by
  cases hst with
  | start hg => exact .start rfl ⟨_, rfl, rfl, rfl⟩
  | @call r rs o k a f s hr hk hx =>
    have hmem : r ∈ p.running := hr ▸ Multiset.mem_cons_self r rs
    exact .call hr rfl rfl rfl (KeyRequest.turn h hmem hk) hx
  | @finish r rs a hr hk =>
    have hmem : r ∈ p.running := hr ▸ Multiset.mem_cons_self r rs
    exact .finish rfl hr rfl (KeyRequest.reply h hmem hk)
  | world hw => exact hw.elim

/-- The first statement of a request that runs alone. -/
theorem KeyStmt.solo {t : KeyTask} {s s' s'' : KeyTables} {ph : KeyPhase} {o : KeyStmt}
    {k : Option Nat → Prog KeyStmt.Ret GenerateReply} {n : Option Nat} {f : Fate}
    {a : GenerateReply} (hx : o.Exec s n f s')
    (hok : ∀ r : KeyRequest, r.task = t → r.past = ph → ok ⟨s, {r}⟩ (.call r o n f))
    (rest : (dkimKeys init genuine).Solo ok t s' (ph.next n) (k n) a s'') :
    (dkimKeys init genuine).Solo ok t s ph (.call o k) a s'' := .call hok hx rest

end

end Novamail

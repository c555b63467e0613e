/-
  The two halves of a DKIM key pair.

  A request writes the private key into one table and, two statements later, the public key into
  another.  In between the row of the old public key names the new private key.  The invariant says
  of every active row that its halves belong together, or that a running request whose private key
  is the stored one has still to write its public key (`Owes`).

  The stored key of a ref is the one of the request that wrote it last; it does not matter which
  request writes its public key first, so long as that one writes its own after it.  `paired`
  leaves out the steps after which no request would.
-/
import Novamail.Admin.Rotation

namespace Novamail

open Novamail.Core

/-- What is taken from the crypto library: which private keys belong to a public key, and the
    private key in an envelope. -/
structure KeyLibrary where
  /-- public key (base64 of its DER), private key (PEM) -/
  counterpart : String → String → Prop
  decrypt : String → Option String

namespace KeyLibrary

variable (L : KeyLibrary)

/-- What the library draws is a key pair, and an envelope of its private key. -/
def Genuine (d : KeyDraw) : Prop :=
  L.counterpart d.publicKey d.privateKey ∧
    ∀ e, d.envelope = some e → L.decrypt e = some d.privateKey

/-- The private key that the row names is the counterpart of its public key. -/
def Matched (s : KeyTables) (row : DKIMRow) : Prop :=
  ∃ e pem, s.secrets row.privateRef = some e ∧ L.decrypt e = some pem ∧
    L.counterpart row.publicKey pem

/-- Every active row is matched. -/
def Paired (s : KeyTables) : Prop :=
  ∀ k row, s.keys k = some row → row.rotation = .active → L.Matched s row

end KeyLibrary

/-! ## Requests that still have to write their public key -/

/-- The request has stored its private key and not yet upserted its public key. -/
def KeyPhase.pending : KeyPhase → Bool
  | .stored | .retired _ => true
  | .begun | .rotated _ | .announced _ | .failed => false

/-- The stored private key of the ref is the one of this request. -/
def KeyTask.Stored (t : KeyTask) (s : KeyTables) : Prop :=
  ∃ e, t.draw.envelope = some e ∧ s.secrets t.ref = some e

/-- The request has its private key stored and will write the public key of this row. -/
def Owes (p : KeyPool) (w : KeyRequest) (k : String × String) : Prop :=
  w ∈ p.running ∧ w.past.pending = true ∧ w.task.key = k ∧ w.task.Stored p.shared

/-- The active row of the request names its stored private key. -/
def KeyTask.AtStake (t : KeyTask) (s : KeyTables) : Prop :=
  t.Stored s ∧ ∃ row, s.keys t.key = some row ∧ row.rotation = .active ∧ row.privateRef = t.ref

/-- The steps of requests that keep the halves together.

    A private key that is stored where active rows name it is stored for the row of the request,
    and the request is told so.  No later statement fails without effect while the row is active
    and names the private key of the request.  A public key is upserted over the private key of its
    own request, or of another that still has to upsert its own for the same row. -/
def paired (p : KeyPool) : KeyAct → Prop
  | .call r (.upsertSecret ref _) _ f =>
    f.applied = true → ∀ k row, p.shared.keys k = some row → row.rotation = .active →
      row.privateRef = ref → f.reported = true ∧ k = r.task.key
  | .call r (.retire _) _ f => f = .failed → ¬ r.task.AtStake p.shared
  | .call r (.upsertKey _ _ _ _) _ f =>
    (f = .failed → ¬ r.task.AtStake p.shared) ∧
      (f.applied = true → r.task.Stored p.shared ∨ ∃ w, w ≠ r ∧ Owes p w r.task.key)
  | _ => True

/-- The halves of the row belong together, or a running request will see to it. -/
def Accounted (L : KeyLibrary) (p : KeyPool) (k : String × String) (row : DKIMRow) : Prop :=
  L.Matched p.shared row ∨ ∃ w, Owes p w k ∧ row.privateRef = w.task.ref

/-- Every active row is accounted for. -/
def AllAccounted (L : KeyLibrary) (p : KeyPool) : Prop :=
  ∀ k row, p.shared.keys k = some row → row.rotation = .active → Accounted L p k row

/-- Requests for one key use one ref. -/
theorem KeyTask.ref_eq {t t' : KeyTask} (h : t.key = t'.key) : t.ref = t'.ref := by
  injection h with hd hs
  rw [KeyTask.ref, KeyTask.ref, hd, hs]

section
variable {L : KeyLibrary} {p p' : KeyPool} {l : KeyAct}

/-- A row with the same secret stays matched. -/
theorem KeyLibrary.Matched.kept {s s' : KeyTables} {row : DKIMRow} (h : L.Matched s row)
    (hs : s'.secrets row.privateRef = s.secrets row.privateRef) : L.Matched s' row := by
  obtain ⟨e, pem, he, hrest⟩ := h
  exact ⟨e, pem, hs.trans he, hrest⟩

/-- A request goes on owing while it keeps running and its private key is the stored one. -/
theorem Owes.kept {w : KeyRequest} {k : String × String} (h : Owes p w k) (hw : w ∈ p'.running)
    (hs : p'.shared.secrets w.task.ref = p.shared.secrets w.task.ref) : Owes p' w k := by
  obtain ⟨-, hpend, hkey, e, he, hst⟩ := h
  exact ⟨hw, hpend, hkey, e, he, hs.trans hst⟩

/-- A running request other than the one that made the call goes on running. -/
theorem Owes.other {r r' w : KeyRequest} {rs : Multiset KeyRequest} {k : String × String}
    (hr : p.running = r ::ₘ rs) (hr' : p'.running = r' ::ₘ rs) (h : Owes p w k) (hne : w ≠ r) :
    w ∈ p'.running := by
  have hw := h.1
  rw [hr] at hw
  rw [hr']
  exact Multiset.mem_cons_of_mem ((Multiset.mem_cons.mp hw).resolve_left hne)

section call

variable {r r' : KeyRequest} {rs : Multiset KeyRequest} {o : KeyStmt} {n : Option Nat} {f : Fate}
  {k : String × String} {row : DKIMRow}

/-- A row stays accounted for when its secret stays, and the request that owes its public key is
    not the one that made the call, or is still pending after it. -/
theorem Accounted.kept (hr : p.running = r ::ₘ rs) (hr' : p'.running = r' ::ₘ rs)
    (ht : r'.task = r.task) (h : Accounted L p k row)
    (hs : p'.shared.secrets row.privateRef = p.shared.secrets row.privateRef)
    (hself : Owes p r k → row.privateRef = r.task.ref → r'.past.pending = true) :
    Accounted L p' k row := by
  rcases h with hm | ⟨w, hw, href⟩
  · exact .inl (hm.kept hs)
  · rw [href] at hs
    by_cases hwr : w = r
    · subst hwr
      have hpend := hself hw href
      obtain ⟨-, -, hkey, e, he, hst⟩ := hw
      refine .inr ⟨r', ⟨hr' ▸ Multiset.mem_cons_self r' rs, hpend, ht ▸ hkey, e, ht ▸ he, ?_⟩, ?_⟩
      · rw [ht]
        exact hs.trans hst
      · rw [ht]
        exact href
    · exact .inr ⟨w, hw.kept (hw.other hr hr' hwr) hs, href⟩

/-- A private key that has just been stored is owed its public key. -/
theorem Owes.store {e : String} (hr' : p'.running = r' ::ₘ rs) (ht : r'.task = r.task)
    (hp : r'.past = KeyPhase.begun.next n) (henv : r.task.draw.envelope = some e)
    (hx : (KeyStmt.upsertSecret r.task.ref e).Exec p.shared n f p'.shared)
    (hf : f.reported = true) : Owes p' r' r.task.key := by
  refine ⟨hr' ▸ Multiset.mem_cons_self r' rs, ?_, congrArg KeyTask.key ht, e, ht ▸ henv, ?_⟩
  · rw [hx.reported_eq] at hf
    obtain ⟨j, rfl⟩ := Option.isSome_iff_exists.mp hf
    rw [hp]
    rfl
  · rw [hx.shared_eq, if_pos (Fate.applied_of_reported hf), ht]
    exact Function.update_self ..

/-- A public key that has just been upserted is accounted for. -/
theorem Accounted.rotate (hr : p.running = r ::ₘ rs) (hr' : p'.running = r' ::ₘ rs)
    (hgen : L.Genuine r.task.draw)
    (hx : (KeyStmt.upsertKey r.task.key.1 r.task.key.2 r.task.ref r.task.draw.publicKey).Exec
      p.shared n f p'.shared)
    (hown : r.task.Stored p.shared ∨ ∃ w, w ≠ r ∧ Owes p w r.task.key) :
    Accounted L p' r.task.key ⟨r.task.ref, r.task.draw.publicKey, .active⟩ := by
  have hs : ∀ ref, p'.shared.secrets ref = p.shared.secrets ref :=
    fun ref => hx.secrets_eq fun _ _ => nofun
  rcases hown with ⟨e, henv, hst⟩ | ⟨w, hne, hw⟩
  · exact .inl ⟨e, _, (hs _).trans hst, hgen.2 e henv, hgen.1⟩
  · exact .inr ⟨w, hw.kept (hw.other hr hr' hne) (hs _), KeyTask.ref_eq hw.2.2.1.symm⟩

end call

/-- A step that keeps the halves together keeps every row accounted for. -/
theorem AllAccounted.step (hgen : ∀ r ∈ p.running, L.Genuine r.task.draw) (hok : paired p l)
    (hev : KeyEvent p p' l) (h : AllAccounted L p) : AllAccounted L p' := by
  intro k row hrow hact
  cases hev with
  | start hs hr =>
    obtain ⟨r, -, -, hr⟩ := hr
    rw [hs] at hrow
    rcases h k row hrow hact with hm | ⟨w, hw, href⟩
    · exact .inl (hs ▸ hm)
    · exact .inr ⟨w, hw.kept (hr ▸ Multiset.mem_cons_of_mem hw.1) (by rw [hs]), href⟩
  | @finish r rs a hs hr hr' hfin =>
    rw [hs] at hrow
    rcases h k row hrow hact with hm | ⟨w, hw, href⟩
    · exact .inl (hs ▸ hm)
    · -- a request that owes has not ended
      have hmem := hw.1
      rw [hr] at hmem
      rcases Multiset.mem_cons.mp hmem with rfl | hmem
      · have hpend := hw.2.1
        generalize w.past = ph at hfin hpend
        cases hfin with
        | refused | unsealed | failed | created => cases hpend
      · exact .inr ⟨w, hw.kept (hr' ▸ hmem) (by rw [hs]), href⟩
  | @call r r' rs o n f hr hr' ht hp hturn hx =>
    have hmem : r ∈ p.running := hr ▸ Multiset.mem_cons_self r rs
    generalize hph : r.past = ph at hturn hp
    cases hturn with
    | @store e henv =>
      have hold := (hx.row_was hrow hact).resolve_right fun h => nomatch h.2
      by_cases hat : f.applied = true ∧ row.privateRef = r.task.ref
      · obtain ⟨hrep, rfl⟩ := hok hat.1 k row hold hact hat.2
        refine .inr ⟨r', .store hr' ht hp henv hx hrep, ?_⟩
        rw [ht]
        exact hat.2
      · refine .kept hr hr' ht (h k row hold hact) (hx.secrets_eq fun hf e' he => ?_) fun hw _ => ?_
        · injection he with href
          exact hat ⟨hf, href.symm⟩
        · rw [Owes, hph] at hw
          exact absurd hw.2.1 Bool.false_ne_true
    | retire =>
      have hold := (hx.row_was hrow hact).resolve_right fun h => nomatch h.2
      refine .kept hr hr' ht (h k row hold hact) (hx.secrets_eq fun _ _ => nofun) fun hw href => ?_
      cases f with
      | ok =>
        obtain ⟨j, rfl⟩ := Option.isSome_iff_exists.mp (hx.reported_eq.symm.trans rfl)
        rw [hp]
        rfl
      | failed => exact absurd ⟨hw.2.2.2, row, hw.2.2.1 ▸ hold, hact, href⟩ (hok rfl)
      | lost =>
        -- the UPDATE has taken the row of the request out of the active ones
        have hgone : ((KeyStmt.retire r.task.domain).apply p.shared).Active k := by
          rw [← show p'.shared = (KeyStmt.retire r.task.domain).apply p.shared from hx.shared_eq]
          exact ⟨row, hrow, hact⟩
        exact absurd (congrArg Prod.fst hw.2.2.1.symm) (KeyTables.active_retire.mp hgone).2
    | @rotate j =>
      by_cases hat : f.applied = true ∧ k = r.task.key
      · obtain ⟨hf, rfl⟩ := hat
        rw [show p'.shared.keys r.task.key = _ from
          KeyStmt.Exec.row_upsertKey (q := r.task.key) hx hf] at hrow
        cases hrow
        exact .rotate hr hr' (hgen r hmem) hx (hok.2 hf)
      · have hold := (hx.row_was hrow hact).resolve_right fun hnew => by
          injection hnew.2 with h1 h2
          exact hat ⟨hnew.1, (Prod.ext h1 h2).symm⟩
        refine .kept hr hr' ht (h k row hold hact) (hx.secrets_eq fun _ _ => nofun)
          fun hw href => ?_
        -- the request that fails has nothing at stake
        cases f with
        | ok | lost => exact absurd ⟨rfl, hw.2.2.1.symm⟩ hat
        | failed => exact absurd ⟨hw.2.2.2, row, hw.2.2.1 ▸ hold, hact, href⟩ (hok.1 rfl)
    | announce =>
      have hold := (hx.row_was hrow hact).resolve_right fun h => nomatch h.2
      refine .kept hr hr' ht (h k row hold hact) (hx.secrets_eq fun _ _ => nofun) fun hw _ => ?_
      rw [Owes, hph] at hw
      exact absurd hw.2.1 Bool.false_ne_true

/-- **The halves of a key pair stay together.**  In every run whose steps keep them together,
    whenever no request is running the private key that an active row names is the counterpart of
    the row's public key. -/
theorem key_pairs_match
    (h : Reach (dkimKeys L.Paired L.Genuine).lts paired p) (hquiet : p.Quiet) :
    ∀ k row, p.shared.keys k = some row → row.rotation = .active → L.Matched p.shared row := by
  have hall : AllAccounted L p := by
    refine h.invariant (I := AllAccounted L) ?_ ?_
    · intro p hinit k row hrow hact
      exact .inl (hinit.1 k row hrow hact)
    · intro p l p' hreach ih hok hst
      have hgen := Service.tasks_invariant (Q := fun t => L.Genuine t.draw) (fun _ _ hg => hg) hreach
      exact ih.step hgen hok (KeyEvent.of_step hreach hst)
  intro k row hrow hact
  refine (hall k row hrow hact).resolve_right fun ⟨w, hw, _⟩ => ?_
  rw [Owes, show p.running = 0 from hquiet] at hw
  exact Multiset.notMem_zero w hw.1

end

/-! ## A regeneration that fails -/

/-- A library of two key pairs. -/
def twoPairs : KeyLibrary where
  counterpart pub priv := (pub, priv) ∈ [("P1", "K1"), ("P2", "K2")]
  decrypt e := if e = "E1" then some "K1" else if e = "E2" then some "K2" else none

instance (pub priv : String) : Decidable (twoPairs.counterpart pub priv) :=
  inferInstanceAs (Decidable ((pub, priv) ∈ [("P1", "K1"), ("P2", "K2")]))

theorem twoPairs_paired : twoPairs.Paired {} := fun _ _ h => nomatch h

theorem twoPairs_genuine : twoPairs.Genuine firstRequest.draw :=
  ⟨by decide, fun e he => by cases he; rfl⟩

/-- A run of the first request keeps the halves together. -/
theorem paired_firstRequest (r : KeyRequest) (i : Nat) (o : KeyStmt) (n : Option Nat)
    (ht : r.task = firstRequest) (ho : firstStatements[i]? = some o) :
    paired ⟨firstTables i, {r}⟩ (.call r o n .ok) := by
  match i, ho with
  | 0, rfl =>
    intro _ k row hrow hact
    exact absurd ⟨row, hrow, hact⟩ (not_active_firstTables (i := 0) (by decide) k)
  | 1, rfl => exact nofun
  | 2, rfl =>
    refine ⟨nofun, fun _ => .inl ?_⟩
    rw [ht]
    exact ⟨"E1", rfl, rfl⟩
  | 3, rfl => trivial

/-- After one request the halves of its key belong together. -/
theorem key_pairs_match_first :
    twoPairs.Matched (firstTables 4) ⟨"dkim/example.com/s1", "P1", .active⟩ := by
  obtain ⟨ls, r, -, -, htr⟩ := firstRequest_trace twoPairs.Paired twoPairs.Genuine paired
    twoPairs_paired twoPairs_genuine (fun _ _ => trivial) (fun _ _ _ => trivial)
    paired_firstRequest
  exact key_pairs_match htr.reach rfl ("example.com", "s1") _ rfl rfl

/-- Another request for the key of the first. -/
def regeneration : KeyTask where
  body := firstRequest.body
  draw := { publicKey := "P2", privateKey := "K2", envelope := some "E2" }

/-- The tables after its first statement. -/
def regenerationTables : KeyTables :=
  (firstTables 4).after [.upsertSecret "dkim/example.com/s1" "E2"]

/-- A regeneration whose UPDATE fails leaves the old public key with the new private key. -/
theorem failed_regeneration_mismatched :
    ¬ ∀ (L : KeyLibrary) (p : KeyPool),
      Reach (dkimKeys L.Paired L.Genuine).lts anyStep p → p.Quiet →
        ∀ k row, p.shared.keys k = some row → row.rotation = .active → L.Matched p.shared row := by
  intro hclaim
  obtain ⟨ls, r, -, -, htr⟩ := firstRequest_trace twoPairs.Paired twoPairs.Genuine anyStep
    twoPairs_paired twoPairs_genuine (fun _ _ => trivial) (fun _ _ _ => trivial)
    fun _ _ _ _ _ _ => trivial
  have hsecond : (dkimKeys twoPairs.Paired twoPairs.Genuine).Solo anyStep regeneration
      (firstTables 4) .begun (generate regeneration) .error regenerationTables := by
    refine KeyStmt.solo (o := .upsertSecret "dkim/example.com/s1" "E2") (n := some 1) (.ok rfl)
      (fun _ _ _ => trivial) ?_
    exact KeyStmt.solo (o := .retire "example.com") (n := none) .failed (fun _ _ _ => trivial) .pure
  have hgen : twoPairs.Genuine regeneration.draw := ⟨by decide, fun e he => by cases he; rfl⟩
  obtain ⟨ls', r', -, -, htr'⟩ := hsecond.trace hgen trivial (fun _ _ _ => trivial) htr
  obtain ⟨e, pem, he, hpem, hpair⟩ :=
    hclaim twoPairs _ htr'.reach rfl ("example.com", "s1") ⟨_, "P1", _⟩ rfl rfl
  cases he
  cases hpem
  revert hpair
  decide

end Novamail

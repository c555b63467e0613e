/-
  One active DKIM key per domain.

  Between the UPDATE that retires the old key and the upsert of the new one a domain has no active
  key, and nothing but the request itself will give it one.  So the invariant of a domain that has
  been given a key is: one is active, or some running request has retired it and owes another
  (`Covered`).  A request that fails does not pay, and two requests of one domain may both pay;
  `orderly` leaves out exactly the steps at which that happens.
-/
import Novamail.Admin.Dkim

namespace Novamail

open Novamail.Core

/-! ## What a statement does to the active keys -/

namespace KeyTables

variable {s s' : KeyTables} {k : String × String}

theorem active_upsertKey {q : String × String} {ref pub : String} :
    ((KeyStmt.upsertKey q.1 q.2 ref pub).apply s).Active k ↔ k = q ∨ s.Active k := by
  unfold Active
  by_cases hk : k = q
  · subst hk
    exact ⟨fun _ => .inl rfl, fun _ => ⟨_, Function.update_self .., rfl⟩⟩
  · show (∃ row, Function.update s.keys q _ k = some row ∧ _) ↔ _
    rw [Function.update_of_ne hk]
    exact ⟨.inr, fun h => h.resolve_left hk⟩

variable {o : KeyStmt} {n : Option Nat} {f : Fate}

/-- An active key stays active, unless a statement retires its domain. -/
theorem Active.kept (h : s.Active k) (hx : o.Exec s n f s')
    (ho : f.applied = true → o ≠ .retire k.1) : s'.Active k := by
  rw [hx.shared_eq]
  split
  · rename_i hf
    cases o with
    | upsertSecret | publishConfigChanged => exact h
    | retire domain => exact active_retire.mpr ⟨h, fun hd => ho hf (hd ▸ rfl)⟩
    | upsertKey domain selector ref pub =>
      exact (active_upsertKey (q := (domain, selector))).mpr (.inr h)
  · exact h

/-- A key becomes active by its own upsert alone. -/
theorem Active.was (h : s'.Active k) (hx : o.Exec s n f s') :
    s.Active k ∨ f.applied = true ∧ ∃ ref pub, o = .upsertKey k.1 k.2 ref pub := by
  obtain ⟨row, hrow, hact⟩ := h
  rcases hx.row_was hrow hact with hold | ⟨hf, ho⟩
  · exact .inl ⟨row, hold, hact⟩
  · exact .inr ⟨hf, _, _, ho⟩

/-- After its upsert a key is active. -/
theorem active_of_upsertKey {q : String × String} {ref pub : String}
    (hx : (KeyStmt.upsertKey q.1 q.2 ref pub).Exec s n f s') (hf : f.applied = true) :
    s'.Active q := by
  rw [hx.shared_eq, if_pos hf]
  exact active_upsertKey.mpr (.inl rfl)

/-- Each domain has at most one active key. -/
def OneEach (s : KeyTables) : Prop :=
  ∀ c k k', s.ActiveOf c k → s.ActiveOf c k' → k = k'

end KeyTables

/-! ## The steps that are left out -/

/-- The steps of an orderly rotation.  No statement fails once the request has retired a key, no
    UPDATE retires a key and is reported as failed, and an upsert that takes effect finds no other
    active key of the domain. -/
def orderly (p : KeyPool) : KeyAct → Prop
  | .call r o _ f =>
    (f.reported = false → r.past.dropped = 0) ∧
      match o with
      | .retire domain => f = .lost → ∀ k, p.shared.Active k → k.1 ≠ domain
      | .upsertKey domain selector _ _ =>
        f.applied = true → ∀ k, p.shared.ActiveOf (lower domain) k → k = (domain, selector)
      | _ => True
  | _ => True

/-! ## Domains that are covered -/

/-- The domain has an active key, or a running request has retired its key and is about to upsert
    another. -/
def Covered (p : KeyPool) (c : String) : Prop :=
  (∃ k, p.shared.ActiveOf c k) ∨
    ∃ r ∈ p.running, r.task.cls = c ∧ ∃ n, r.past = .retired (n + 1)

section
variable {p p' : KeyPool} {l : KeyAct}

/-- A request that retires an active key knows it. -/
theorem orderly_retire {r : KeyRequest} {n : Option Nat} {f : Fate} {k : String × String}
    (hok : orderly p (.call r (.retire k.1) n f)) (hturn : KeyTurn r.task r.past (.retire k.1))
    (hx : (KeyStmt.retire k.1).Exec p.shared n f p'.shared) (hf : f.applied = true)
    (hk : p.shared.Active k) :
    r.task.cls = lower k.1 ∧ ∃ j, r.past.next n = .retired (j + 1) := by
  obtain ⟨hph, hdom⟩ := hturn.of_retire
  have hsome : n.isSome := by
    rw [← hx.reported_eq]
    cases f with
    | ok => rfl
    | failed => cases hf
    | lost => exact absurd rfl (hok.2 rfl k hk)
  obtain ⟨j, rfl⟩ := Option.isSome_iff_exists.mp hsome
  refine ⟨congrArg lower hdom.symm, ?_⟩
  rw [hph]
  cases j with
  | zero => exact absurd rfl (hx.counts.mp rfl k hk)
  | succ j => exact ⟨j, rfl⟩

/-- No statement of a request fails once it has retired a key. -/
theorem orderly_dropped {r : KeyRequest} {o : KeyStmt} {n : Option Nat} {f : Fate}
    (hok : orderly p (.call r o n f)) (hx : o.Exec p.shared n f p'.shared)
    (hd : 0 < r.past.dropped) : ∃ j, n = some j := by
  refine Option.isSome_iff_exists.mp ?_
  rw [← hx.reported_eq]
  by_contra hf
  have hzero := hok.1 (Bool.eq_false_iff.mpr hf)
  omega

/-- An orderly step leaves a covered domain covered. -/
theorem Covered.step {c : String} (hok : orderly p l) (hev : KeyEvent p p' l)
    (h : Covered p c) : Covered p' c := by
  cases hev with
  | start hs hr =>
    obtain ⟨r, -, -, hr⟩ := hr
    rcases h with ⟨k, hk⟩ | ⟨w, hw, hc, hn⟩
    · exact .inl ⟨k, hs ▸ hk⟩
    · exact .inr ⟨w, hr ▸ Multiset.mem_cons_of_mem hw, hc, hn⟩
  | @finish r rs a hs hr hr' hfin =>
    rcases h with ⟨k, hk⟩ | ⟨w, hw, hc, n, hn⟩
    · exact .inl ⟨k, hs ▸ hk⟩
    · -- a request that owes a key has not ended
      rw [hr] at hw
      rcases Multiset.mem_cons.mp hw with rfl | hw
      · rw [hn] at hfin
        cases hfin
      · exact .inr ⟨w, hr' ▸ hw, hc, n, hn⟩
  | @call r r' rs o n f hr hr' ht hp hturn hx =>
    rcases h with ⟨k, hk⟩ | ⟨w, hw, hc, m, hm⟩
    · by_cases hd : f.applied = true ∧ o = .retire k.1
      · obtain ⟨hf, rfl⟩ := hd
        obtain ⟨hcls, hret⟩ := orderly_retire hok hturn hx hf hk.1
        refine .inr ⟨r', hr' ▸ Multiset.mem_cons_self r' rs, ?_, ?_⟩
        · rw [ht, hcls, hk.2]
        · rw [hp]
          exact hret
      · exact .inl ⟨k, hk.1.kept hx fun hf ho => hd ⟨hf, ho⟩, hk.2⟩
    · rw [hr] at hw
      rcases Multiset.mem_cons.mp hw with rfl | hw
      · -- the request that owes a key upserts it
        have hd : 0 < w.past.dropped := by
          rw [hm]
          exact Nat.succ_pos m
        obtain ⟨j, rfl⟩ := orderly_dropped hok hx hd
        rw [hm] at hturn
        rw [hturn.of_retired] at hx
        exact .inl ⟨w.task.key, KeyTables.active_of_upsertKey (q := w.task.key) hx
          (Fate.applied_of_reported hx.reported_eq), hc⟩
      · exact .inr ⟨w, hr' ▸ Multiset.mem_cons_of_mem hw, hc, m, hm⟩

/-- An orderly step leaves each domain with at most one active key. -/
theorem KeyTables.OneEach.step (hok : orderly p l) (hev : KeyEvent p p' l)
    (h : p.shared.OneEach) : p'.shared.OneEach := by
  cases hev with
  | start hs | finish hs =>
    rw [hs]
    exact h
  | @call r r' rs o n f hr hr' ht hp hturn hx =>
    intro c k k' hk hk'
    -- the key of an upsert is the only active one of its domain
    have hnew : ∀ q q', p'.shared.ActiveOf c q → p'.shared.ActiveOf c q' →
        ¬ p.shared.Active q → q' = q := by
      intro q q' hq hq' hnot
      obtain ⟨hf, ref, pub, rfl⟩ := (hq.1.was hx).resolve_left hnot
      have hall := hok.2 hf
      rcases hq'.1.was hx with hold | ⟨-, ref', pub', ho⟩
      · exact hall q' ⟨hold, hq'.2.trans hq.2.symm⟩
      · injection ho with h1 h2
        exact Prod.ext h1.symm h2.symm
    by_cases hold : p.shared.Active k
    · by_cases hold' : p.shared.Active k'
      · exact h c k k' ⟨hold, hk.2⟩ ⟨hold', hk'.2⟩
      · exact hnew k' k hk' hk hold'
    · exact (hnew k k' hk hk' hold).symm

/-- The domain of a key that a request has upserted is covered. -/
theorem Covered.upsert {r : KeyRequest} {o : KeyStmt} {n : Option Nat} {f : Fate}
    (hturn : KeyTurn r.task r.past o) (hx : o.Exec p.shared n f p'.shared)
    (hup : (r.past.next n).upserted = true) (hnot : r.past.upserted = false) :
    Covered p' r.task.cls := by
  cases n with
  | none => cases hup
  | some n =>
    generalize r.past = ph at hturn hup hnot
    cases hturn with
    | store | retire => cases hup
    | announce => cases hnot
    | rotate =>
      exact .inl ⟨r.task.key, KeyTables.active_of_upsertKey (q := r.task.key) hx
        (Fate.applied_of_reported hx.reported_eq), rfl⟩

/-! ## Runs -/

variable {genuine : KeyDraw → Prop} {ls : List KeyAct}

/-- What an orderly run keeps: at most one active key each, and every domain covered for which a
    request has upserted a key. -/
structure Rotated (ls : List KeyAct) (p : KeyPool) : Prop where
  oneEach : p.shared.OneEach
  running : ∀ r ∈ p.running, r.past.upserted = true → Covered p r.task.cls
  done : ∀ r a, .finish r a ∈ ls → a.isCreated = true → Covered p r.task.cls

theorem rotated (h : Trace (dkimKeys KeyTables.OneEach genuine).lts orderly ls p) :
    Rotated ls p := by
  refine h.invariant (I := Rotated) ?_ ?_
  · intro p hinit
    refine ⟨hinit.1, fun r hr => ?_, nofun⟩
    rw [show p.running = 0 from hinit.2] at hr
    exact absurd hr (Multiset.notMem_zero r)
  · intro ls p l p' htr ih hok hst
    have hev := KeyEvent.of_step htr.reach hst
    have hkeep := fun c => Covered.step (c := c) hok hev
    refine ⟨ih.oneEach.step hok hev, ?_, ?_⟩
    · intro w hw hup
      cases hev with
      | start hs hr =>
        obtain ⟨r, -, hpast, hr⟩ := hr
        rw [hr] at hw
        rcases Multiset.mem_cons.mp hw with rfl | hw
        · rw [hpast] at hup
          cases hup
        · exact hkeep _ (ih.running w hw hup)
      | finish hs hr hr' =>
        exact hkeep _ (ih.running w (hr ▸ Multiset.mem_cons_of_mem (hr' ▸ hw)) hup)
      | @call r r' rs o n f hr hr' ht hp hturn hx =>
        rw [hr'] at hw
        rcases Multiset.mem_cons.mp hw with rfl | hw
        · rw [ht]
          rw [hp] at hup
          cases hnot : r.past.upserted with
          | true => exact hkeep _ (ih.running r (hr ▸ Multiset.mem_cons_self r rs) hnot)
          | false => exact .upsert hturn hx hup hnot
        · exact hkeep _ (ih.running w (hr ▸ Multiset.mem_cons_of_mem hw) hup)
    · intro w a hmem ha
      rcases List.mem_append.mp hmem with hmem | hmem
      · exact hkeep _ (ih.done w a hmem ha)
      · -- the request that ends here had upserted its key
        cases List.mem_singleton.mp hmem
        cases hev with
        | finish hs hr hr' hfin =>
          exact hkeep _ (ih.running w (hr ▸ Multiset.mem_cons_self w _) (hfin.upserted ha))

/-- What an orderly run keeps of a key that was active when it began: it is active, or a running
    request has retired a key of its domain, or one has completed. -/
def Lasting (k : String × String) (ls : List KeyAct) (p : KeyPool) : Prop :=
  p.shared.Active k ∨ (∃ r ∈ p.running, r.task.cls = lower k.1 ∧ 0 < r.past.dropped) ∨
    ∃ r a, .finish r a ∈ ls ∧ a.isCreated = true ∧ r.task.cls = lower k.1

/-- A statement that is done takes no retired key back. -/
theorem KeyPhase.dropped_next {ph : KeyPhase} {n : Nat} (h : 0 < ph.dropped) :
    0 < (ph.next (some n)).dropped := by
  cases ph with
  | begun | stored | failed => exact absurd h (Nat.lt_irrefl 0)
  | retired | rotated | announced => exact h

theorem Lasting.step {k : String × String} (hok : orderly p l) (hev : KeyEvent p p' l)
    (h : Lasting k ls p) : Lasting k (ls ++ [l]) p' := by
  rcases h with hk | ⟨w, hw, hc, hd⟩ | ⟨r, a, hmem, ha, hc⟩
  · cases hev with
    | start hs | finish hs => exact .inl (hs ▸ hk)
    | @call r r' rs o n f hr hr' ht hp hturn hx =>
      by_cases hd : f.applied = true ∧ o = .retire k.1
      · obtain ⟨hf, rfl⟩ := hd
        obtain ⟨hcls, j, hret⟩ := orderly_retire hok hturn hx hf hk
        refine .inr (.inl ⟨r', hr' ▸ Multiset.mem_cons_self r' rs, ht ▸ hcls, ?_⟩)
        rw [hp, hret]
        exact Nat.succ_pos j
      · exact .inl (hk.kept hx fun hf ho => hd ⟨hf, ho⟩)
  · cases hev with
    | start hs hr =>
      obtain ⟨r, -, -, hr⟩ := hr
      exact .inr (.inl ⟨w, hr ▸ Multiset.mem_cons_of_mem hw, hc, hd⟩)
    | @finish r rs a hs hr hr' hfin =>
      rw [hr] at hw
      rcases Multiset.mem_cons.mp hw with rfl | hw
      · exact .inr (.inr ⟨w, a, List.mem_append_right ls (List.mem_singleton_self _),
          hfin.created_of_dropped hd, hc⟩)
      · exact .inr (.inl ⟨w, hr' ▸ hw, hc, hd⟩)
    | @call r r' rs o n f hr hr' ht hp hturn hx =>
      rw [hr] at hw
      rcases Multiset.mem_cons.mp hw with rfl | hw
      · -- none of its later statements fails
        obtain ⟨j, rfl⟩ := orderly_dropped hok hx hd
        refine .inr (.inl ⟨r', hr' ▸ Multiset.mem_cons_self r' rs, ht ▸ hc, ?_⟩)
        rw [hp]
        exact KeyPhase.dropped_next hd
      · exact .inr (.inl ⟨w, hr' ▸ Multiset.mem_cons_of_mem hw, hc, hd⟩)
  · exact .inr (.inr ⟨r, a, List.mem_append_left _ hmem, ha, hc⟩)

theorem lasting {s : KeyTables} {k : String × String} (hk : s.Active k)
    (h : Trace (dkimKeys (· = s) genuine).lts orderly ls p) : Lasting k ls p := by
  refine h.invariant (I := Lasting k) ?_ ?_
  · intro p hinit
    have hs : p.shared = s := hinit.1
    exact .inl (hs ▸ hk)
  · intro ls p l p' htr ih hok hst
    exact ih.step hok (KeyEvent.of_step htr.reach hst)

/-- **One active key per domain.**  In every orderly run, whenever no request is running: every
    domain for which a request has completed has exactly one active key; and over any further
    orderly run to a state with no request running, a key stays active unless a request for its
    domain completes. -/
theorem one_active_key (h : Trace (dkimKeys KeyTables.OneEach genuine).lts orderly ls p)
    (hquiet : p.Quiet) :
    (∀ r a, .finish r a ∈ ls → a.isCreated = true → ∃! k, p.shared.ActiveOf r.task.cls k) ∧
      ∀ ls' p', Trace (dkimKeys (· = p.shared) genuine).lts orderly ls' p' → p'.Quiet →
        ∀ k, p.shared.Active k →
          (∀ r a, .finish r a ∈ ls' → a.isCreated = true → r.task.cls ≠ lower k.1) →
          p'.shared.Active k := by
  have hinv := rotated h
  constructor
  · intro r a hmem ha
    rcases hinv.done r a hmem ha with ⟨k, hk⟩ | ⟨w, hw, -⟩
    · exact ⟨k, hk, fun k' hk' => hinv.oneEach _ k' k hk' hk⟩
    · rw [show p.running = 0 from hquiet] at hw
      exact absurd hw (Multiset.notMem_zero w)
  · intro ls' p' h' hquiet' k hk hnone
    rcases lasting hk h' with hact | ⟨w, hw, -⟩ | ⟨r, a, hmem, ha, hc⟩
    · exact hact
    · rw [show p'.running = 0 from hquiet'] at hw
      exact absurd hw (Multiset.notMem_zero w)
    · exact absurd hc (hnone r a hmem ha)

end

/-! ## A rotation that fails -/

/-- The first request for a domain. -/
def firstRequest : KeyTask where
  body := { domain := some "example.com", selector := some "s1" }
  draw := { publicKey := "P1", privateKey := "K1", envelope := some "E1" }

/-- A request for another selector of the same domain. -/
def secondRequest : KeyTask where
  body := { domain := some "example.com", selector := some "s2" }
  draw := { publicKey := "P2", privateKey := "K2", envelope := some "E2" }

/-- The tables after the statements. -/
def KeyTables.after (s : KeyTables) (os : List KeyStmt) : KeyTables := os.foldl KeyStmt.apply s

/-- The statements of the first request. -/
def firstStatements : List KeyStmt :=
  [.upsertSecret "dkim/example.com/s1" "E1", .retire "example.com",
    .upsertKey "example.com" "s1" "dkim/example.com/s1" "P1", .publishConfigChanged]

/-- The tables after the first of them. -/
def firstTables (i : Nat) : KeyTables := KeyTables.after {} (firstStatements.take i)

theorem not_active_firstTables {i : Nat} (hi : i ≤ 2) (k : String × String) :
    ¬ (firstTables i).Active k := by
  have hempty : ¬ ({} : KeyTables).Active k := fun ⟨_, h, _⟩ => nomatch h
  match i, hi with
  | 0, _ | 1, _ => exact hempty
  | 2, _ => exact fun h => hempty (KeyTables.active_retire.mp h).1

theorem active_firstTables {k : String × String} :
    (firstTables 4).Active k ↔ k = ("example.com", "s1") := by
  refine (KeyTables.active_upsertKey (q := ("example.com", "s1"))).trans (or_iff_left fun h => ?_)
  exact not_active_firstTables (i := 2) (by decide) k h

/-- The first request completes. -/
theorem firstRequest_solo (init : KeyTables → Prop) (genuine : KeyDraw → Prop)
    (ok : KeyPool → KeyAct → Prop)
    (hok : ∀ (r : KeyRequest) i o n, r.task = firstRequest → firstStatements[i]? = some o →
      ok ⟨firstTables i, {r}⟩ (.call r o n .ok)) :
    (dkimKeys init genuine).Solo ok firstRequest {} .begun (generate firstRequest)
      (.created "example.com" "s1" "s1._domainkey.example.com" "v=DKIM1; k=rsa; p=P1")
      (firstTables 4) := by
  refine KeyStmt.solo (o := .upsertSecret "dkim/example.com/s1" "E1") (n := some 1) (.ok rfl)
    (fun r ht _ => hok r 0 _ _ ht rfl) ?_
  refine KeyStmt.solo (o := .retire "example.com") (n := some 0) (.ok ?_)
    (fun r ht _ => hok r 1 _ _ ht rfl) ?_
  · exact iff_of_true rfl fun k hk => absurd hk (not_active_firstTables (i := 1) (by decide) k)
  refine KeyStmt.solo (o := .upsertKey "example.com" "s1" "dkim/example.com/s1" "P1")
    (n := some 1) (.ok rfl) (fun r ht _ => hok r 2 _ _ ht rfl) ?_
  exact KeyStmt.solo (o := .publishConfigChanged) (n := some 0) (.ok rfl)
    (fun r ht _ => hok r 3 _ _ ht rfl) .pure

/-- From empty tables the first request is a run. -/
theorem firstRequest_trace (init : KeyTables → Prop) (genuine : KeyDraw → Prop)
    (ok : KeyPool → KeyAct → Prop) (hinit : init {}) (hgen : genuine firstRequest.draw)
    (hstart : ∀ p t, ok p (.start t)) (hend : ∀ p r a, ok p (.finish r a))
    (hok : ∀ (r : KeyRequest) i o n, r.task = firstRequest → firstStatements[i]? = some o →
      ok ⟨firstTables i, {r}⟩ (.call r o n .ok)) :
    ∃ ls r, r.task = firstRequest ∧ (∃ a, a.isCreated = true ∧ .finish r a ∈ ls) ∧
      Trace (dkimKeys init genuine).lts ok ls ⟨firstTables 4, 0⟩ := by
  obtain ⟨ls, r, ht, hmem, htr⟩ := (firstRequest_solo init genuine ok hok).trace hgen
    (hstart _ _) hend (.init ⟨hinit, rfl⟩)
  exact ⟨_, r, ht, ⟨_, rfl, hmem⟩, htr⟩

/-- Its statements are orderly. -/
theorem orderly_firstRequest (r : KeyRequest) (i : Nat) (o : KeyStmt) (n : Option Nat)
    (ho : firstStatements[i]? = some o) : orderly ⟨firstTables i, {r}⟩ (.call r o n .ok) := by
  refine ⟨nofun, ?_⟩
  match i, ho with
  | 0, rfl | 3, rfl => trivial
  | 1, rfl => exact nofun
  | 2, rfl => exact fun _ k hk => absurd hk.1 (not_active_firstTables (i := 2) (by decide) k)

/-- After one request the domain has its key. -/
theorem one_active_key_first : ∃! k, (firstTables 4).ActiveOf "example.com" k := by
  obtain ⟨ls, r, ht, ⟨a, ha, hmem⟩, htr⟩ := firstRequest_trace KeyTables.OneEach (fun _ => True)
    orderly (fun _ k _ hk => absurd hk.1 (not_active_firstTables (i := 0) (by decide) k)) trivial
    (fun _ _ => trivial) (fun _ _ _ => trivial) fun r i o n _ => orderly_firstRequest r i o n
  have hone := (one_active_key htr rfl).1 r a hmem ha
  rw [ht] at hone
  exact hone

/-- The tables after the second request, whose upsert of the key has failed. -/
def secondTables : KeyTables :=
  (firstTables 4).after [.upsertSecret "dkim/example.com/s2" "E2", .retire "example.com"]

theorem not_active_secondTables (k : String × String) : ¬ secondTables.Active k := by
  intro h
  obtain ⟨hk, hne⟩ := KeyTables.active_retire.mp h
  exact hne (congrArg Prod.fst (active_firstTables.mp hk))

/-- A request whose last upsert fails leaves its domain without an active key. -/
theorem failed_rotation_unsigned :
    ¬ ∀ (ls : List KeyAct) (p : KeyPool),
      Trace (dkimKeys KeyTables.OneEach fun _ => True).lts anyStep ls p → p.Quiet →
        (∀ r a, .finish r a ∈ ls → a.isCreated = true → ∃! k, p.shared.ActiveOf r.task.cls k) ∧
        ∀ ls' p', Trace (dkimKeys (· = p.shared) fun _ => True).lts anyStep ls' p' → p'.Quiet →
          ∀ k, p.shared.Active k →
            (∀ r a, .finish r a ∈ ls' → a.isCreated = true → r.task.cls ≠ lower k.1) →
            p'.shared.Active k := by
  intro hclaim
  obtain ⟨ls, r, ht, ⟨a, ha, hmem⟩, htr⟩ := firstRequest_trace KeyTables.OneEach (fun _ => True)
    anyStep (fun _ k _ hk => absurd hk.1 (not_active_firstTables (i := 0) (by decide) k)) trivial
    (fun _ _ => trivial) (fun _ _ _ => trivial) fun _ _ _ _ _ _ => trivial
  have hsecond : (dkimKeys KeyTables.OneEach fun _ => True).Solo anyStep secondRequest
      (firstTables 4) .begun (generate secondRequest) .error secondTables := by
    refine KeyStmt.solo (o := .upsertSecret "dkim/example.com/s2" "E2") (n := some 1) (.ok rfl)
      (fun _ _ _ => trivial) ?_
    refine KeyStmt.solo (o := .retire "example.com") (n := some 1) (.ok ?_)
      (fun _ _ _ => trivial) ?_
    · exact iff_of_false (by decide) fun h => h _ (active_firstTables.mpr rfl) rfl
    exact KeyStmt.solo (o := .upsertKey "example.com" "s2" "dkim/example.com/s2" "P2") (n := none)
      .failed (fun _ _ _ => trivial) .pure
  obtain ⟨ls', r', -, -, htr'⟩ := hsecond.trace trivial trivial (fun _ _ _ => trivial) htr
  obtain ⟨k, hk, -⟩ := (hclaim _ _ htr' rfl).1 r a (List.mem_append_left _ hmem) ha
  exact not_active_secondTables k hk.1

end Novamail

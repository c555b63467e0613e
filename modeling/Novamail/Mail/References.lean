/-
  Where the body of a message is, and where its job says it is.

  A deployment has two places for bodies, the shared directory and the table `message_bodies`.  The
  data plane uses the one it is configured with (`openStore`), for `Put`, `Get`, `Delete` and
  `Walk`; the Admin API writes an alert mail into the table whatever is configured.  `World.bodies`
  keeps every body under its key and does not say in which place; `shelves` says it, and is read off
  the writes of a run.

  The reference in a job is a constant of the program that built it: `"fs"` in the ingress and in
  the bounce generator, `"pg"` in the alert mail.  The worker does not look at it.  So two things
  can go wrong, and `Shelved` says what holds instead.
-/
import Novamail.System.Play
import Novamail.System.Producers

namespace Novamail

open Novamail.Core

/-! ## The two body stores -/

/-- `store.Open`: the backend a value of `NOVAMAIL_BODY_STORE` selects. -/
def openStore (spec : String) : Backend :=
  if spec = "" ∨ spec = "postgres" ∨ spec = "pg" then .pg else .fs

/-- What the two stores hold. -/
abbrev Shelves := Backend → String → Option Bytes

/-- Change what one of them holds under a key. -/
def Shelves.set (sh : Shelves) (b : Backend) (key : String) (body : Option Bytes) : Shelves :=
  Function.update sh b (Function.update (sh b) key body)

/-- The effect of a write, when the data plane is configured with `cfg`. -/
def Write.shelve (cfg : Backend) (sh : Shelves) : Write → Shelves
  | .put key body => sh.set cfg key (some body)
  | .insertBody key body => sh.set .pg key (some body)
  | .delete key => sh.set cfg key none
  | _ => sh

/-- The effect of a step. -/
def Label.shelve (cfg : Backend) (sh : Shelves) : Label → Shelves
  | .op _ (.write wr) _ f => if f.applied then wr.shelve cfg sh else sh
  | _ => sh

/-- What the stores hold after a run. -/
def shelves (cfg : Backend) (ls : List Label) : Shelves :=
  ls.foldl (Label.shelve cfg) fun _ _ => none

theorem shelves_append (cfg : Backend) (ls : List Label) (l : Label) :
    shelves cfg (ls ++ [l]) = l.shelve cfg (shelves cfg ls) := by
  unfold shelves
  rw [List.foldl_append]
  rfl

theorem Shelves.set_key (sh : Shelves) (b b' : Backend) (key : String) (body : Option Bytes) :
    sh.set b key body b' key = if b' = b then body else sh b' key := by
  unfold set
  by_cases hb : b' = b
  · subst hb
    rw [if_pos rfl, Function.update_self, Function.update_self]
  · rw [if_neg hb, Function.update_of_ne hb]

theorem Shelves.set_of_ne (sh : Shelves) (b b' : Backend) {key key' : String}
    (body : Option Bytes) (h : key' ≠ key) : sh.set b key body b' key' = sh b' key' := by
  unfold set
  by_cases hb : b' = b
  · subst hb
    rw [Function.update_self, Function.update_of_ne h]
  · rw [Function.update_of_ne hb]

theorem Write.shelve_of_ne {cfg : Backend} {sh : Shelves} {wr : Write} {key : String}
    (h : wr.bodyKey ≠ some key) (b : Backend) : wr.shelve cfg sh b key = sh b key := by
  have hne : ∀ {k : String}, wr.bodyKey = some k → key ≠ k := fun hk he => h (hk.trans (he ▸ rfl))
  cases wr with
  | put k body | insertBody k body => exact sh.set_of_ne _ _ _ (hne rfl)
  | delete k => exact sh.set_of_ne _ _ _ (hne rfl)
  | _ => rfl

/-- The step deleted the body under the key. -/
def Label.drops (key : String) : Label → Bool
  | .op _ (.write (.delete k)) _ f => f.applied && k = key
  | _ => false

theorem Label.of_drops {l : Label} {key : String} (h : l.drops key = true) :
    ∃ p r f, l = .op p (.write (.delete key)) r f := by
  unfold drops at h
  split at h
  · rename_i p k r f
    cases of_decide_eq_true (Bool.and_eq_true_iff.mp h).2
    exact ⟨p, r, f, rfl⟩
  · cases h

/-- The write stores a body, into this backend. -/
def Write.fills (cfg b : Backend) (key : String) (body : Bytes) (wr : Write) : Prop :=
  (wr = .put key body ∧ b = cfg) ∨ (wr = .insertBody key body ∧ b = .pg)

/-- What a step did to one key: nothing; or it stored a body, or dropped it. -/
inductive Kept (cfg : Backend) (sh sh' : Shelves) (l : Label) (key : String) :
    Option Bytes → Option Bytes → Prop where
  | quiet {body : Option Bytes} (hs : ∀ b, sh' b key = sh b key) : Kept cfg sh sh' l key body body
  | stored {p : Proc} {wr : Write} {r : Bool} {f : Fate} {b₀ : Backend} {old : Option Bytes}
      {body : Bytes} (hl : l = .op p (.write wr) r f) (hf : f.applied = true)
      (hw : wr.fills cfg b₀ key body)
      (hs : ∀ b, sh' b key = if b = b₀ then some body else sh b key) :
      Kept cfg sh sh' l key old (some body)
  | dropped {old : Option Bytes} (hl : l.drops key = true)
      (hs : ∀ b, sh' b key = if b = cfg then none else sh b key) : Kept cfg sh sh' l key old none

theorem Write.kept {cfg : Backend} {sh : Shelves} {wr : Write} {w : World} {key : String} {p : Proc}
    {r : Bool} {f : Fate} (hf : f.applied = true) :
    Kept cfg sh (wr.shelve cfg sh) (.op p (.write wr) r f) key (w.bodies key)
      ((wr.apply w).bodies key) := by
  by_cases hk : wr.bodyKey = some key
  · cases wr with
    | put k body =>
      cases hk
      rw [apply_bodies_put]
      exact .stored rfl hf (.inl ⟨rfl, rfl⟩) fun b => sh.set_key cfg b key (some body)
    | insertBody k body =>
      cases hk
      rw [show ((Write.insertBody key body).apply w).bodies key = some body from
        apply_bodies_put]
      exact .stored rfl hf (.inr ⟨rfl, rfl⟩) fun b => sh.set_key .pg b key (some body)
    | delete k =>
      cases hk
      rw [show ((Write.delete key).apply w).bodies key = none from Function.update_self ..]
      exact .dropped (Bool.and_eq_true_iff.mpr ⟨hf, decide_eq_true rfl⟩) fun b => sh.set_key cfg b key none
    | _ => cases hk
  · rw [apply_bodies_of_ne hk]
    exact .quiet (shelve_of_ne hk)

section
variable {site : Site} {ok : Cluster → Label → Prop} {c c' : Cluster} {l : Label} {key : String}
  {ls : List Label} {t : Task}

theorem Step.kept (hst : Step site c l c') (cfg : Backend) (sh : Shelves) (key : String) :
    Kept cfg sh (l.shelve cfg sh) l key (c.world.bodies key) (c'.world.bodies key) := by
  cases hst with
  | @op p ps o k r f n hp hk hx =>
    cases hx with
    | @write wr _ hposs =>
      show Kept cfg sh (if f.applied then wr.shelve cfg sh else sh) _ key _
        ((c.world.after p.task wr f).bodies key)
      unfold World.after
      rw [World.record_bodies]
      by_cases hf : f.applied = true
      · rw [if_pos hf, if_pos hf]
        exact Write.kept hf
      · rw [if_neg hf, if_neg hf]
        exact .quiet fun _ => rfl
    | ask | newID => exact .quiet fun _ => rfl
    | settle =>
      dsimp only
      split <;> exact .quiet fun _ => rfl
  | start | finish | expire | lose | crash | tick => exact .quiet fun _ => rfl

/-! ## Which store has the body -/

/-- Where the task puts the body of the message it brings in. -/
def Task.shelf (cfg : Backend) : Task → Backend
  | .alert _ _ _ => .pg
  | _ => cfg

/-- The backend the task names in its job and its row. -/
def Task.names : Task → Backend
  | .alert _ _ _ => .pg
  | _ => .fs

theorem Task.Brings.bodyRef {id : MsgId} {body : Bytes} {j : RelayJob}
    (h : t.Brings site id body j) : j.bodyRef = { backend := t.names, key := id } := by
  cases h <;> rfl

/-- A body is stored by the task that drew its key, and is the body of the message it brings in. -/
theorem Step.storer (htr : Trace (cluster site) ok ls c) {p : Proc} {wr : Write} {r : Bool} {f : Fate}
    (hst : Step site c (.op p (.write wr) r f) c') {cfg b : Backend} {body : Bytes}
    (hw : wr.fills cfg b key body) :
    Drew ls p.task key ∧ (∃ j, p.task.Brings site key body j) ∧ b = p.task.shelf cfg := by
  obtain ⟨hin, hturn⟩ := hst.turn htr.reach
  have hstore : p.phase = .drawn key ∧ p.task.produces = true := by
    generalize p.phase.next (.write wr) r = ph' at hturn
    generalize p.phase = ph at hturn ⊢
    rcases hw with ⟨rfl, -⟩ | ⟨rfl, -⟩
    · cases hturn with
      | put ht => exact ⟨rfl, ht⟩
    · cases hturn with
      | insertBody ht => exact ⟨rfl, ht⟩
  obtain ⟨hph, hprod⟩ := hstore
  obtain ⟨s, hallow⟩ := hst.producing htr.reach hprod
  refine ⟨(drawers htr).pending p hin (by rw [hph]; rfl), ?_⟩
  rcases hw with ⟨rfl, rfl⟩ | ⟨rfl, rfl⟩
  · obtain ⟨-, hone, hnot⟩ := hallow
    refine ⟨hone, ?_⟩
    unfold Task.shelf
    split
    · rename_i rs subject text ht
      exact absurd ht (hnot rs subject text)
    · rfl
  · obtain ⟨-, hone, rs, subject, text, ht⟩ := hallow
    exact ⟨hone, by rw [ht]; rfl⟩

/-- What the two stores hold under a key, by the task that drew it: nothing in the store that the
    task does not use, and in the other one the body it brought in, unless it was dropped.  The
    store of the data plane has nothing that `World.bodies` does not have. -/
structure Shelved (site : Site) (cfg : Backend) (ls : List Label) (c : Cluster) (sh : Shelves) :
    Prop where
  undrawn : ∀ {key : String}, key ∉ c.world.ids → ∀ b, sh b key = none
  away : ∀ {t : Task} {key : String}, Drew ls t key → ∀ b, b ≠ t.shelf cfg → sh b key = none
  home : ∀ {t : Task} {key : String} {body : Bytes}, Drew ls t key →
    c.world.bodies key = some body →
      (∃ j, t.Brings site key body j) ∧ sh (t.shelf cfg) key = some body
  store : ∀ {key : String} {body : Bytes}, sh cfg key = some body →
    c.world.bodies key = some body

theorem shelved (cfg : Backend) (h : Trace (cluster site) ok ls c) :
    Shelved site cfg ls c (shelves cfg ls) := by
  refine h.invariant (I := fun ls c => Shelved site cfg ls c (shelves cfg ls)) ?_ ?_
  · rintro c rfl
    exact ⟨fun _ _ => rfl, fun _ _ _ => rfl, fun _ => nofun, nofun⟩
  · intro ls c l c' htr ih hok hst
    rw [shelves_append]
    generalize shelves cfg ls = sh at ih ⊢
    have hkept := hst.kept cfg sh
    have hids : ∀ {key : String}, key ∉ c'.world.ids → key ∉ c.world.ids :=
      fun hkey hold => hkey (hst.ids_subset hold)
    -- a write draws no id
    have hwrite : ∀ {t : Task} {key : String} {p : Proc} {wr : Write} {r : Bool} {f : Fate},
        l = .op p (.write wr) r f → Drew (ls ++ [l]) t key → Drew ls t key := by
      rintro t key p wr r f rfl hd
      rcases hd.cases with hold | ⟨_, _, hl, -⟩
      · exact hold
      · cases hl
    refine ⟨fun {key} hkey b => ?_, fun {t key} hd b hb => ?_, fun {t key body} hd hbody => ?_,
      fun {key body} hbody => ?_⟩
    · have hk := hkept key
      generalize c.world.bodies key = old at hk
      generalize c'.world.bodies key = new at hk
      cases hk with
      | quiet hs => rw [hs, ih.undrawn (hids hkey)]
      | stored hl hf hw hs =>
        subst hl
        exact absurd ((drawers htr).drawn (hst.storer htr hw).1) (hids hkey)
      | dropped hl hs => rw [hs, ih.undrawn (hids hkey), ite_self]
    · have hk := hkept key
      generalize c.world.bodies key = old at hk
      generalize c'.world.bodies key = new at hk
      cases hk with
      | quiet hs =>
        rw [hs]
        rcases hd.cases with hold | ⟨p, f, rfl, -⟩
        · exact ih.away hold b hb
        · exact ih.undrawn hst.drawn_new.1 b
      | stored hl hf hw hs =>
        have hold := hwrite hl hd
        subst hl
        obtain ⟨hwho, -, hshelf⟩ := hst.storer htr hw
        rw [(drawers htr).once hwho hold] at hshelf
        rw [hs, if_neg (hshelf ▸ hb), ih.away hold b hb]
      | dropped hl hs =>
        obtain ⟨p, r, f, hl⟩ := Label.of_drops hl
        rw [hs, ih.away (hwrite hl hd) b hb, ite_self]
    · have hk := hkept key
      generalize hold : c.world.bodies key = old at hk
      rw [hbody] at hk
      cases hk with
      | quiet hs =>
        rw [hs]
        rcases hd.cases with hdrew | ⟨p, f, rfl, -⟩
        · exact ih.home hdrew hold
        · have hdrawn := (keyed htr.reach).world.bodies (Option.isSome_iff_exists.mpr ⟨_, hold⟩)
          exact absurd hdrawn hst.drawn_new.1
      | stored hl hf hw hs =>
        have hdrew := hwrite hl hd
        subst hl
        obtain ⟨hwho, hone, hshelf⟩ := hst.storer htr hw
        rw [(drawers htr).once hwho hdrew] at hone hshelf
        exact ⟨hone, (hs _).trans (if_pos hshelf.symm)⟩
    · have hk := hkept key
      generalize hold : c.world.bodies key = old at hk
      generalize c'.world.bodies key = new at hk ⊢
      cases hk with
      | quiet hs =>
        rw [hs] at hbody
        exact hold.symm.trans (ih.store hbody)
      | stored hl hf hw hs =>
        subst hl
        obtain ⟨hwho, -, hshelf⟩ := hst.storer htr hw
        rw [hs] at hbody
        split at hbody
        · exact hbody
        · rename_i hne
          rw [ih.away hwho cfg (hshelf ▸ hne)] at hbody
          cases hbody
      | dropped hl hs =>
        rw [hs, if_pos rfl] at hbody
        cases hbody

/-! ## What has a job had a body -/

/-- A body was stored under the key. -/
def Stored (ls : List Label) (key : String) : Prop :=
  ∃ p wr r f, Label.op p (.write wr) r f ∈ ls ∧ f.applied = true ∧ wr.stores key

/-- The body under the key was deleted: the message was relayed or bounced, or it was swept. -/
def Dropped (ls : List Label) (key : String) : Prop := ls.any (Label.drops key) = true

instance (ls : List Label) (key : String) : Decidable (Dropped ls key) :=
  inferInstanceAs (Decidable (_ = true))

theorem Stored.mono {ls' : List Label} (hsub : ls ⊆ ls') (h : Stored ls key) : Stored ls' key := by
  obtain ⟨p, wr, r, f, hl, hrest⟩ := h
  exact ⟨p, wr, r, f, hsub hl, hrest⟩

/-- A body that was stored is there until it is dropped. -/
theorem Stored.present (h : Trace (cluster site) ok ls c) (hstored : Stored ls key) :
    (c.world.bodies key).isSome = true ∨ Dropped ls key := by
  refine h.invariant (I := fun ls c => Stored ls key →
    (c.world.bodies key).isSome = true ∨ Dropped ls key) ?_ ?_ hstored
  · rintro c rfl ⟨_, _, _, _, hmem, -⟩
    cases hmem
  · rintro ls c l c' htr ih hok hst ⟨p, wr, r, f, hmem, hf, hwr⟩
    rcases List.mem_append.mp hmem with hmem | hmem
    · rcases (ih ⟨p, wr, r, f, hmem, hf, hwr⟩).imp_right List.any_eq_true.mp with
        hbody | ⟨l', hl', hdrop⟩
      · have hlast : l ∈ ls ++ [l] := List.mem_append_right _ (List.mem_singleton.mpr rfl)
        have hk := hst.kept .fs (fun _ _ => none) key
        generalize c.world.bodies key = old at hk hbody
        generalize c'.world.bodies key = new at hk ⊢
        cases hk with
        | quiet => exact .inl hbody
        | stored => exact .inl rfl
        | dropped hl => exact .inr (List.any_eq_true.mpr ⟨l, hlast, hl⟩)
      · exact .inr (List.any_eq_true.mpr ⟨l', List.mem_append_left _ hl', hdrop⟩)
    · cases List.mem_singleton.mp hmem
      cases hst with
      | op hp hk hx =>
        cases hx with
        | write hposs => exact .inl ((World.after_stores hwr).2 hf)

/-- A task has stored a body after a call only if it had before, or the call stored it. -/
theorem Exec.storing_cases {net : Net} {w : World} {held : Option (Queue × Wire)} {ph ph' : Phase}
    {o : Op} {r : o.Ret} {f : Fate} {n : Conf} {id : MsgId} (hx : Exec net t ⟨w, held, ph⟩ o r f n)
    (hturn : Turn t ph o r ph') (hph : ph' = .stored id ∨ ph' = .inserted id) :
    (ph = .stored id ∨ ph = .inserted id) ∨
      ∃ wr, o = .write wr ∧ f.applied = true ∧ wr.stores id := by
  cases hturn with
  | read | suppress | prune | announce => exact .inl hph
  | @put key body ok ht | @insertBody key body ok ht =>
    cases hx with
    | write hposs =>
      split at hph
      · rename_i hrep
        rcases hph with hph | hph
        · cases hph
          refine .inr ⟨_, rfl, Fate.applied_of_reported hrep, body, ?_⟩
          first | exact .inl rfl | exact .inr rfl
        · cases hph
      · rcases hph with hph | hph <;> cases hph
  | insert =>
    split at hph
    · rcases hph with hph | hph
      · cases hph
      · cases hph
        exact .inl (.inl rfl)
    · rcases hph with hph | hph <;> cases hph
  | successor | submission | dsn | alert =>
    split at hph <;> rcases hph with hph | hph <;> cases hph
  | _ => rcases hph with hph | hph <;> cases hph

/-- What has a row, or is about to have one, or was read off one, had its body stored. -/
structure Founded (ls : List Label) (c : Cluster) (id : MsgId) : Prop where
  coming : ∀ p ∈ c.procs, p.phase = .stored id ∨ p.phase = .inserted id → Stored ls id
  row : ∀ row, c.world.rows id = some row → Stored ls id
  selected : ∀ p ∈ c.procs, p.task = .requeue id → ∀ row, p.phase = .selected row → Stored ls id

theorem founded (h : Trace (cluster site) ok ls c) (id : MsgId) : Founded ls c id := by
  refine h.invariant (I := fun ls c => Founded ls c id) ?_ ?_
  · rintro c rfl
    refine ⟨fun p hp => ?_, nofun, fun p hp => ?_⟩
    · exact absurd hp (Multiset.notMem_zero p)
    · exact absurd hp (Multiset.notMem_zero p)
  · intro ls c l c' htr ih hok hst
    have hold : Stored ls id → Stored (ls ++ [l]) id :=
      fun hs => hs.mono (List.subset_append_left ls [l])
    refine ⟨fun p' hp' hph => ?_, fun row' hrow' => ?_, fun p' hp' hreq row' hph => ?_⟩
    · rcases hst.proc_cases hp' with hin | ⟨t, -, rfl, -⟩ |
        ⟨p, o, k, r, f, n, rfl, hin, hk, hx, rfl⟩ | ⟨p, hin, -, rfl⟩
      · exact hold (ih.coming p' hin hph)
      · rcases hph with hph | hph <;> cases hph
      · rcases hx.storing_cases ((procs_ok htr.reach p hin).turn_to hk hx) hph with
          hph | ⟨wr, rfl, hf, hwr⟩
        · exact hold (ih.coming p hin hph)
        · exact ⟨p, wr, r, f, List.mem_append_right _ (List.mem_singleton.mpr rfl), hf, hwr⟩
      · exact hold (ih.coming p hin hph)
    · rcases hst.row_cases hrow' with
        hrow | ⟨p, env, ref, info, logged, r, f, rfl, -, rfl⟩ |
        ⟨p, st, kind, provider, detail, r, f, row, rfl, -, hrow, rfl⟩
      · exact hold (ih.row row' hrow)
      · obtain ⟨hin, hph, -⟩ := hst.inserter htr.reach
        exact hold (ih.coming p hin (.inl hph))
      · exact hold (ih.row row hrow)
    · rcases hst.proc_cases hp' with hin | ⟨t, -, rfl, -⟩ |
        ⟨p, o, k, r, f, n, -, hin, hk, hx, rfl⟩ | ⟨p, hin, -, rfl⟩
      · exact hold (ih.selected p' hin hreq row' hph)
      · cases hph
      · rcases hx.selected_cases ((procs_ok htr.reach p hin).turn_to hk hx) hph with
          hsel | ⟨i, hi, hrow⟩
        · exact hold (ih.selected p hin hreq row' hsel)
        · cases hi.symm.trans hreq
          exact hold (ih.row row' hrow)
      · exact hold (ih.selected p hin hreq row' hph)

/-! ## What the worker reads -/

/-- The second half of `materialize`: sign a body that was read. -/
def Delivery.sign (job : RelayJob) (body : Bytes) : Handler (Option Bytes) := do
  let st ← ask .loadState
  match st.signerFor job.routingHints.senderDomain with
  | some sgn => ask (.sign sgn body)
  | none => pure (some body)

/-- The job's reference names the store that has this body, and a worker that reads the store it is
    configured with gets this body to sign and relay. -/
structure RelayJob.Resolves (j : RelayJob) (cfg : Backend) (sh : Shelves) (body : Bytes) : Prop where
  named : sh j.bodyRef.backend j.bodyRef.key = some body
  read : ∀ ans : (o : Op) → o.Ret, (∀ k, ans (.ask (.get k)) = sh cfg k) →
    (Delivery.materialize j).eval ans = (Delivery.sign j body).eval ans

/-- A world with nothing configured. -/
def bareOracle : Oracle anyReply :=
  plainOracle {} (fun _ _ => { outcome := .fail, detail := "" }) fun _ _ => trivial

/-- The answers of this store in such a world. -/
def storeAnswers (get : String → Option Bytes) : (o : Op) → o.Ret
  | .write _ => true
  | .ask q => (bareOracle { bodies := get } q).1
  | .settle _ => ()
  | .newID => ""

/-- The worker gets the body exactly when its store has it. -/
theorem materialize_reads (j : RelayJob) (store : String → Option Bytes) (body : Bytes) :
    (∀ ans : (o : Op) → o.Ret, (∀ k, ans (.ask (.get k)) = store k) →
      (Delivery.materialize j).eval ans = (Delivery.sign j body).eval ans) ↔
        store j.bodyRef.key = some body := by
  have hfirst : ∀ ans : (o : Op) → o.Ret, (∀ k, ans (.ask (.get k)) = store k) →
      (Delivery.materialize j).eval ans =
        (store j.bodyRef.key).elim none fun b => (Delivery.sign j b).eval ans := by
    intro ans hans
    unfold Delivery.materialize
    rw [Prog.eval_bind]
    show (Prog.eval ans (match ans (.ask (.get j.bodyRef.key)) with | none => _ | some _ => _)) = _
    rw [hans]
    cases store j.bodyRef.key <;> rfl
  constructor
  · intro h
    have hplain := (hfirst (storeAnswers store) fun _ => rfl).symm.trans
      (h (storeAnswers store) fun _ => rfl)
    cases hs : store j.bodyRef.key with
    | none =>
      rw [hs] at hplain
      cases hplain
    | some b =>
      rw [hs] at hplain
      exact hplain
  · intro hs ans hans
    rw [hfirst ans hans, hs]
    rfl

/-- Only a producer draws an id. -/
theorem Drew.produces (h : Trace (cluster site) ok ls c) {id : MsgId} (hd : Drew ls t id) :
    t.produces = true := by
  obtain ⟨p, f, hl, rfl⟩ := hd
  obtain ⟨ls₁, c₁, c₂, -, htrace, -, hst⟩ := h.of_mem hl
  obtain ⟨-, hturn⟩ := hst.turn htrace.reach
  generalize p.phase.next .newID id = ph' at hturn
  generalize p.phase = ph at hturn
  cases hturn with
  | draw ht => exact ht
  | redraw ht =>
    rw [ht]
    rfl

/-- What is handed to the bus for the first time, or again, had its body stored. -/
theorem Published.stored (h : Trace (cluster site) ok ls c) {j : RelayJob} (hj : Published ls t j)
    (ht : t.produces = true ∨ t = .requeue j.messageID) : Stored ls j.messageID := by
  obtain ⟨p, wr, q, r, f, hl, rfl, hpub⟩ := hj
  obtain ⟨ls₁, c₁, c₂, hsub, htrace, -, hst⟩ := h.of_mem hl
  obtain ⟨hin, hturn⟩ := hst.turn htrace.reach
  refine Stored.mono hsub ?_
  cases hturn.publisher hpub with
  | producer hph => exact (founded htrace _).coming p hin (.inr hph)
  | operator ht' hph => exact (founded htrace _).selected p hin ht' _ hph
  | worker ht' =>
    rw [ht'] at ht
    rcases ht with ht | ht <;> cases ht

/-- The reference in such a job is the one its producer wrote. -/
theorem Published.bodyRef (h : Trace (cluster site) ok ls c) {t' : Task} {j : RelayJob}
    (hdrew : Drew ls t j.messageID) (hpub : Published ls t' j)
    (hfrom : t' = t ∨ t' = .requeue j.messageID) :
    j.bodyRef = { backend := t.names, key := j.messageID } := by
  rcases hfrom with rfl | rfl
  · obtain ⟨-, body, hone⟩ := hpub.produced h (hdrew.produces h)
    exact hone.bodyRef
  · obtain ⟨-, t₀, row, hdrew', ⟨body, j₀, hone, -, href⟩, hj⟩ := hpub.requeued h
    rw [(drawers h).once hdrew' hdrew] at hone
    have hkeep : (Admin.requeueJob j.messageID row).bodyRef = row.bodyRef := rfl
    rw [hj, hkeep, href, hone.bodyRef]
    rfl

/-- Both halves of `Resolves`, for a body that is on the shelf of its producer. -/
theorem RelayJob.resolves_iff {cfg : Backend} {sh : Shelves} {j : RelayJob} {body : Bytes}
    (href : j.bodyRef.backend = t.names) (hhome : sh (t.shelf cfg) j.bodyRef.key = some body)
    (haway : ∀ b, b ≠ t.shelf cfg → sh b j.bodyRef.key = none) :
    j.Resolves cfg sh body ↔ t.names = cfg := by
  have hon : ∀ b, sh b j.bodyRef.key = some body ↔ b = t.shelf cfg := by
    intro b
    constructor
    · intro hb
      by_contra hne
      rw [haway b hne] at hb
      cases hb
    · rintro rfl
      exact hhome
  have hboth : j.Resolves cfg sh body ↔ t.names = t.shelf cfg ∧ cfg = t.shelf cfg := by
    rw [← hon, ← hon, ← materialize_reads j (sh cfg) body, ← href]
    exact ⟨fun h => ⟨h.named, h.read⟩, fun h => ⟨h.1, h.2⟩⟩
  rw [hboth]
  cases t with
  | alert => exact ⟨fun h => h.2.symm, fun h => ⟨rfl, h.symm⟩⟩
  | _ => exact ⟨fun h => h.1, fun h => ⟨h, rfl⟩⟩

/-- **Body references resolve** exactly where the constant in the text of the producer is what the
    data plane is configured with.  In every run, for every job that a producer or a requeue of its
    message handed to the bus, while the body has not been deleted: there is the body that the
    producer brought in, and the job's reference names the store that has it and the worker reads
    it, if and only if the producer names the configured store. -/
theorem body_refs_resolve (h : Trace (cluster site) ok ls c) (spec : String) {t t' : Task}
    {j : RelayJob} (hdrew : Drew ls t j.messageID) (hpub : Published ls t' j)
    (hfrom : t' = t ∨ t' = .requeue j.messageID) (hkept : ¬ Dropped ls j.bodyRef.key) :
    ∃ body, (∃ j₀, t.Brings site j.messageID body j₀) ∧
      (j.Resolves (openStore spec) (shelves (openStore spec) ls) body ↔
        t.names = openStore spec) := by
  have href := hpub.bodyRef h hdrew hfrom
  have hkey : j.bodyRef.key = j.messageID := congrArg BodyRef.key href
  have hfrom' : t'.produces = true ∨ t' = .requeue j.messageID := by
    rcases hfrom with rfl | hreq
    · exact .inl (hdrew.produces h)
    · exact .inr hreq
  have hsh := shelved (openStore spec) h
  rcases (hpub.stored h hfrom').present h with hbody | hdrop
  · obtain ⟨body, hbody⟩ := Option.isSome_iff_exists.mp hbody
    obtain ⟨hone, hhome⟩ := hsh.home hdrew hbody
    refine ⟨body, hone, RelayJob.resolves_iff (congrArg BodyRef.backend href) ?_ ?_⟩
    · rw [hkey]
      exact hhome
    · rw [hkey]
      exact hsh.away hdrew
  · exact absurd (hkey ▸ hdrop) hkept

end

/-! ## Two deployments with a shared directory -/

/-- The step drew this id for this task. -/
def Label.draws (t : Task) (id : MsgId) : Label → Bool
  | .op p .newID i _ => p.task = t && i = id
  | _ => false

theorem Drew.of_any {ls : List Label} {t : Task} {id : MsgId}
    (h : ls.any (Label.draws t id) = true) : Drew ls t id := by
  obtain ⟨l, hl, hdraws⟩ := List.any_eq_true.mp h
  cases l with
  | op p o r f =>
    cases o with
    | newID =>
      obtain ⟨ht, hid⟩ := Bool.and_eq_true_iff.mp hdraws
      cases of_decide_eq_true hid
      exact ⟨p, f, hl, of_decide_eq_true ht⟩
    | _ => cases hdraws
  | _ => cases hdraws

/-- The value of `NOVAMAIL_BODY_STORE` in the compose file. -/
def composeStore : String := "/var/lib/novamail/bodies"

/-- A message is submitted. -/
def submitScript : List Cue := [.start (.submit oneRecipient [])] ++ Cue.calls 0 "m1" 7

/-- The body of a submission is read back from the shared directory. -/
theorem body_refs_resolve_submitted : ∃ ls c, Trace (cluster (plainSite anyReply)) calm ls c ∧
    .accepted "m1" ∈ c.world.log ∧ ∃ body,
      (∃ j₀, (Task.submit oneRecipient []).Brings (plainSite anyReply) "m1" body j₀) ∧
        ((Ingress.relayJob oneRecipient "m1").Resolves (openStore composeStore)
          (shelves (openStore composeStore) ls) body ↔
            (Task.submit oneRecipient []).names = openStore composeStore) := by
  have hplay : (Stage.script (plainSite anyReply) deliveringOracle {} submitScript).any
      (fun s => .accepted "m1" ∈ s.world.log) = true := by decide
  obtain ⟨s, hs, hend⟩ := (Option.any_eq_true _ _).mp hplay
  have htrace := Stage.script_calm_trace (by decide) hs
  have hpub : Published (Stage.labels (plainSite anyReply) deliveringOracle {} submitScript)
      (.submit oneRecipient []) (Ingress.relayJob oneRecipient "m1") := .of_any (by decide)
  exact ⟨_, s.cluster, htrace, of_decide_eq_true hend,
    body_refs_resolve htrace composeStore (.of_any (by decide)) hpub (.inl rfl) (by decide)⟩

/-- The setting `alert_from` is there. -/
def alertingOracle : Oracle anyReply := fun w q =>
  match q with
  | .alertFrom => ⟨some "noc@s.test", trivial⟩
  | q => bareOracle w q

/-- The task of an alert mail. -/
def alertTask : Task := .alert ["b@r.test"] "queue" "depth 7"

/-- An alert mail is injected. -/
def alertScript : List Cue := [.start alertTask] ++ Cue.calls 0 "a1" 7

/-- **No worker can read an alert mail** where the bodies are in a directory: the job is on the bus,
    its body is in the table. -/
theorem alert_body_unreadable :
    ¬ ∀ (site : Site) (ls : List Label) (c : Cluster), Trace (cluster site) calm ls c →
      ∀ (spec : String) (t t' : Task) (j : RelayJob), Drew ls t j.messageID →
        Published ls t' j → (t' = t ∨ t' = .requeue j.messageID) → ¬ Dropped ls j.bodyRef.key →
          ∃ body, (∃ j₀, t.Brings site j.messageID body j₀) ∧
            j.Resolves (openStore spec) (shelves (openStore spec) ls) body := by
  intro hclaim
  have hplay : (Stage.script (plainSite anyReply) alertingOracle {} alertScript).isSome = true := by
    decide
  obtain ⟨s, hs⟩ := Option.isSome_iff_exists.mp hplay
  have htrace := Stage.script_calm_trace (by decide) hs
  have hpub : Published (Stage.labels (plainSite anyReply) alertingOracle {} alertScript)
      alertTask (Admin.alertJob "a1" "noc@s.test" ["b@r.test"]) := .of_any (by decide)
  obtain ⟨body, -, hres⟩ := hclaim _ _ s.cluster htrace composeStore alertTask alertTask _
    (.of_any (by decide)) hpub (.inl rfl) (by decide)
  have hread := (materialize_reads _ _ body).mp hres.read
  have hnone : shelves (openStore composeStore)
      (Stage.labels (plainSite anyReply) alertingOracle {} alertScript) (openStore composeStore)
        "a1" = none := by decide
  cases hnone.symm.trans hread

end Novamail

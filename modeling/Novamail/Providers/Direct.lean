/-
  `DirectProvider.Send`, one attempt at a host at a time.

  `Novamail.directSend` gives the reply as a function of what each host would answer.  Here the send
  is a program that reads the body, asks the resolver and calls `deliverTo`, and every call may be
  answered in any way; what the resolver returned keeps its error and its records apart, which
  `lookupMX` does not.
-/
import Novamail.Providers.Replies

namespace Novamail.Direct

open Novamail.Core

/-! ## The program -/

/-- The error of `Resolver.LookupMX`, by the flags of `net.DNSError`: DNS answered that there is no
    such record, it could not be asked for now, or anything else (a malformed answer). -/
inductive LookupErr where
  | notFound | temporary | other
  deriving DecidableEq, Repr

/-- What `Resolver.LookupMX` returns: the records, and the error. -/
structure Lookup where
  mxs : List MX
  err : Option LookupErr := none
  deriving DecidableEq, Repr

/-- The records, unless there is an error. -/
def Lookup.answer (a : Lookup) : Option (List MX) :=
  match a.err with
  | some _ => none
  | none => some a.mxs

/-- The arguments of one call of `deliverTo`. -/
structure Attempt where
  addr : String
  host : String
  sender : String
  rcpts : List String
  body : Bytes
  deriving DecidableEq, Repr

inductive Op where
  /-- `io.ReadAll(m.Body)`. -/
  | readBody
  | lookupMX (domain : String)
  | deliverTo (a : Attempt)
  deriving DecidableEq, Repr

@[reducible] def Op.Ret : Op → Type
  | .readBody => Except String Bytes
  | .lookupMX _ => Lookup
  | .deliverTo _ => SendReply

/-- The attempt at a host. -/
def attempt (env : Envelope) (body : Bytes) (host : String) : Attempt :=
  { addr := Wire.mxAddr host, host := host, sender := env.mailFrom, rcpts := env.rcptTo
    body := body }

/-- The loop over the hosts. -/
def loop (env : Envelope) (body : Bytes) : List String → SendReply → Prog Op.Ret SendReply
  | [], last =>
    pure (if last.detail = "" then
      { outcome := .defer, detail := "no MX host reachable", err := last.err } else last)
  | host :: hosts, _ => do
    let res ← Prog.lift (Op.deliverTo (attempt env body host))
    match res.outcome with
    | .delivered => pure { res with err := none }
    | .fail => pure res
    | .defer => loop env body hosts res

/-- `DirectProvider.Send`. -/
def send (env : Envelope) : Prog Op.Ret SendReply :=
  let domain := recipientDomain env.rcptTo
  if domain = "" then
    pure
      { outcome := .fail, detail := "no recipient domain"
        err := some "direct: empty recipient domain" }
  else do
    match ← Prog.lift Op.readBody with
    | .error e => pure { outcome := .defer, detail := e, err := some ("direct: read body: " ++ e) }
    | .ok body => do
      let a ← Prog.lift (Op.lookupMX domain)
      loop env body (lookupMX a.answer domain) { outcome := .delivered, detail := "" }

theorem eval_loop (ans : (o : Op) → o.Ret) (env : Envelope) (body : Bytes) (hosts : List String)
    (last : SendReply) :
    (loop env body hosts last).eval ans =
      (directLoop (fun host => ans (.deliverTo (attempt env body host))) hosts last).1 := by
  induction hosts generalizing last with
  | nil => rfl
  | cons host hosts ih =>
    unfold loop directLoop
    rw [Prog.eval_bind, Prog.eval_lift]
    cases hres : (ans (.deliverTo (attempt env body host))).outcome with
    | delivered =>
      show ({ ans (.deliverTo (attempt env body host)) with
          outcome := .delivered, err := none } : SendReply) =
        { ans (.deliverTo (attempt env body host)) with err := none }
      rw [← hres]
    | fail => rfl
    | defer => exact ih _

/-- Where every call has a fixed answer and the body can be read, the reply is that of
    `directSend`. -/
theorem eval_send (ans : (o : Op) → o.Ret) (m : Message) (hbody : ans .readBody = .ok m.body) :
    (send m.envelope).eval ans =
      (directSend (fun domain => (ans (.lookupMX domain)).answer)
        (fun host => ans (.deliverTo (attempt m.envelope m.body host))) m).1 := by
  unfold send directSend
  dsimp only
  split
  · rfl
  · rw [Prog.eval_bind, Prog.eval_lift, hbody]
    exact eval_loop ans m.envelope m.body _ _

/-! ### What an attempt dials -/

/-- Every connection goes to this address. -/
def dialing (addr : String) : Discipline Wire.WireOp.Ret Unit where
  allow _ o := ∀ a tls, o.cmd = .dial a tls → a = addr
  next h _ _ := h

section

variable {p : Wire.Ref} {addr : String} {c : Nat}

theorem run_dialing (v : Wire.Verb) :
    (Wire.run p c v).Obeys (dialing addr) (fun _ _ => True) () :=
  Prog.obeys_lift.mpr ⟨nofun, fun _ => trivial⟩

theorem close_dialing : (Wire.close p c).Obeys (dialing addr) (fun _ _ => True) () :=
  Prog.obeys_lift.mpr ⟨nofun, fun _ => trivial⟩

/-- A command, and one way to go on for each answer. -/
theorem run_bind_dialing {α : Type} {v : Wire.Verb} {f : Option NetErr → Wire.Wired α}
    (hf : ∀ e, (f e).Obeys (dialing addr) (fun _ _ => True) ()) :
    (Wire.run p c v >>= f).Obeys (dialing addr) (fun _ _ => True) () :=
  (run_dialing v).bind fun _ e _ => hf e

theorem close_pure_dialing {α : Type} (a : α) :
    (Wire.close p c >>= fun _ => pure a).Obeys (dialing addr) (fun _ _ => True) () :=
  close_dialing.bind fun _ _ _ => trivial

theorem rcpts_dialing (rs : List String) :
    (Wire.rcpts p c rs).Obeys (dialing addr) (fun _ _ => True) () := by
  induction rs with
  | nil => exact trivial
  | cons r rs ih =>
    refine run_bind_dialing fun e => ?_
    cases e with
    | some e => exact trivial
    | none => exact ih

theorem sendMail_dialing (m : Message) :
    (Wire.sendMail p c m).Obeys (dialing addr) (fun _ _ => True) () := by
  refine run_bind_dialing fun e => ?_
  cases e with
  | some e => exact trivial
  | none =>
    refine (rcpts_dialing m.envelope.rcptTo).bind fun _ r _ => ?_
    cases r with
    | some r => exact trivial
    | none => exact run_bind_dialing fun e => trivial

theorem transact_dialing (m : Message) :
    (Wire.transact p c m).Obeys (dialing addr) (fun _ _ => True) () := by
  refine (sendMail_dialing m).bind fun _ r _ => ?_
  cases r with
  | some r => exact close_pure_dialing r
  | none => exact run_bind_dialing fun _ => close_pure_dialing _

theorem deliverTo_dialing (directHELO : String) (cfg : DirectConfig) (m : Message)
    (host : String) :
    (Wire.deliverTo directHELO p cfg m host).Obeys (dialing (Wire.mxAddr host))
      (fun _ _ => True) () := by
  refine Prog.obeys_lift_bind.mpr ⟨?_, fun answer => ?_⟩
  · intro a tls h
    cases h
    rfl
  cases answer with
  | error e => exact trivial
  | ok c =>
    refine run_bind_dialing fun e => ?_
    cases e with
    | some e => exact close_pure_dialing _
    | none =>
      refine run_bind_dialing fun e => ?_
      cases e with
      | some e => exact close_pure_dialing _
      | none =>
        refine Prog.obeys_lift_bind.mpr ⟨nofun, fun offered => ?_⟩
        cases offered with
        | false => exact transact_dialing m
        | true =>
          refine run_bind_dialing fun e => ?_
          cases e with
          | some e => exact close_pure_dialing _
          | none => exact transact_dialing m

end

/-! ## The fold over the hosts -/

/-- What the loop returns for a reply it stops at. -/
def returned (r : SendReply) : SendReply :=
  match r.outcome with
  | .delivered => { r with err := none }
  | _ => r

/-- The calls of the attempts made, with their replies. -/
def calls (env : Envelope) (body : Bytes) (tried : List (String × SendReply)) :
    List (Σ o : Op, o.Ret) :=
  tried.map fun t => ⟨.deliverTo (attempt env body t.1), t.2⟩

/-- How a list of hosts is worked through: every one deferred, or one stopped the loop. -/
inductive Settled (hosts : List String) : List (String × SendReply) → SendReply → Prop
  | exhausted {tried : List (String × SendReply)} {r : SendReply}
      (hhosts : tried.map (·.1) = hosts) (hdefer : ∀ t ∈ tried, t.2.outcome = .defer)
      (hr : r.outcome = .defer) : Settled hosts tried r
  | stopped {before : List (String × SendReply)} {t : String × SendReply} {rest : List String}
      (hhosts : before.map (·.1) ++ t.1 :: rest = hosts)
      (hdefer : ∀ b ∈ before, b.2.outcome = .defer) (hstop : t.2.outcome ≠ .defer) :
      Settled hosts (before ++ [t]) (returned t.2)

/-- One more host in front that deferred. -/
theorem Settled.cons {host : String} {res : SendReply} {hosts : List String}
    {tried : List (String × SendReply)} {r : SendReply} (hres : res.outcome = .defer)
    (h : Settled hosts tried r) : Settled (host :: hosts) ((host, res) :: tried) r := by
  have hall : ∀ l : List (String × SendReply), (∀ t ∈ l, t.2.outcome = .defer) →
      ∀ t ∈ (host, res) :: l, t.2.outcome = .defer := by
    intro l hl t ht
    rcases List.mem_cons.mp ht with rfl | ht
    · exact hres
    · exact hl t ht
  cases h with
  | exhausted hhosts hdefer hr => exact .exhausted (congrArg (host :: ·) hhosts) (hall _ hdefer) hr
  | @stopped before t rest hhosts hdefer hstop =>
    have hcons : Settled (host :: hosts) (((host, res) :: before) ++ [t]) (returned t.2) :=
      .stopped (congrArg (host :: ·) hhosts) (hall _ hdefer) hstop
    exact hcons

/-- The loop, whatever is answered.  By induction on the hosts still to try; what the last one
    returned is a deferral, or the zero value with its empty detail. -/
theorem loop_settled {env : Envelope} {body : Bytes} {hosts : List String} {last : SendReply}
    {es : List (Σ o : Op, o.Ret)} {r : SendReply} (hlast : last.outcome = .defer ∨ last.detail = "")
    (h : (loop env body hosts last).Transcript es r) :
    ∃ tried, es = calls env body tried ∧ Settled hosts tried r := by
  induction hosts generalizing last es r with
  | nil =>
    cases h
    refine ⟨[], rfl, .exhausted rfl nofun ?_⟩
    by_cases hempty : last.detail = ""
    · rw [if_pos hempty]
    · rw [if_neg hempty]
      exact hlast.resolve_right hempty
  | cons host hosts ih =>
    obtain ⟨res, es', rfl, hrest⟩ : ∃ res es', es = ⟨.deliverTo (attempt env body host), res⟩ :: es' ∧
        (match res.outcome with
          | .delivered => pure { res with err := none }
          | .fail => pure res
          | .defer => loop env body hosts res : Prog Op.Ret SendReply).Transcript es' r := by
      cases h with
      | call res hrest => exact ⟨res, _, rfl, hrest⟩
    cases hres : res.outcome with
    | delivered =>
      rw [hres] at hrest
      cases hrest
      refine ⟨[(host, res)], rfl, ?_⟩
      have hret : returned res = { res with err := none } := by
        unfold returned
        rw [hres]
      have hstop : Settled (host :: hosts) ([] ++ [(host, res)]) (returned res) :=
        .stopped rfl nofun (by rw [hres]; decide)
      rw [hret] at hstop
      exact hres ▸ hstop
    | fail =>
      rw [hres] at hrest
      cases hrest
      refine ⟨[(host, r)], rfl, ?_⟩
      have hret : returned r = r := by
        unfold returned
        rw [hres]
      have hstop : Settled (host :: hosts) ([] ++ [(host, r)]) (returned r) :=
        .stopped rfl nofun (by rw [hres]; decide)
      rw [hret] at hstop
      exact hstop
    | defer =>
      rw [hres] at hrest
      obtain ⟨tried, rfl, hsettled⟩ := ih (.inl hres) hrest
      exact ⟨(host, res) :: tried, rfl, hsettled.cons hres⟩

namespace Settled

variable {hosts : List String} {tried : List (String × SendReply)} {r : SendReply}

theorem returned_outcome (r : SendReply) : (returned r).outcome = r.outcome := by
  unfold returned
  split <;> rfl

/-- The hosts are tried from the front. -/
theorem front (h : Settled hosts tried r) : tried.map (·.1) <+: hosts := by
  cases h with
  | exhausted hhosts _ _ => exact ⟨[], by rw [hhosts, List.append_nil]⟩
  | stopped hhosts _ _ => exact ⟨_, by simpa using hhosts⟩

/-- What is no deferral comes from the first host that did not defer, and no host is tried after
    it. -/
theorem stops (h : Settled hosts tried r) (hr : r.outcome ≠ .defer) :
    ∃ before t rest, hosts = before.map (·.1) ++ t.1 :: rest ∧ tried = before ++ [t] ∧
      (∀ b ∈ before, b.2.outcome = .defer) ∧ t.2.outcome ≠ .defer ∧ r = returned t.2 := by
  cases h with
  | exhausted _ _ hdefer => exact absurd hdefer hr
  | @stopped before t rest hhosts hdefer hstop =>
    exact ⟨before, t, rest, hhosts.symm, rfl, hdefer, hstop, rfl⟩

/-- A deferral is returned iff every host deferred. -/
theorem defer_iff (h : Settled hosts tried r) :
    r.outcome = .defer ↔ tried.map (·.1) = hosts ∧ ∀ t ∈ tried, t.2.outcome = .defer := by
  cases h with
  | exhausted hhosts hdefer hr => exact ⟨fun _ => ⟨hhosts, hdefer⟩, fun _ => hr⟩
  | @stopped before t rest hhosts hdefer hstop =>
    rw [returned_outcome]
    exact ⟨fun h => absurd h hstop, fun h => absurd (h.2 t (by simp)) hstop⟩

end Settled

/-- A send that asked the resolver has read the body, and works through the hosts found. -/
theorem send_settled {env : Envelope} {es : List (Σ o : Op, o.Ret)} {r : SendReply}
    (h : (send env).Transcript es r) {domain : String} {a : Lookup}
    (hlookup : ⟨.lookupMX domain, a⟩ ∈ es) :
    domain = recipientDomain env.rcptTo ∧ domain ≠ "" ∧ ∃ body tried,
      es = ⟨.readBody, .ok body⟩ :: ⟨.lookupMX domain, a⟩ :: calls env body tried ∧
        Settled (lookupMX a.answer domain) tried r := by
  unfold send at h
  dsimp only at h
  split at h
  · cases h
    exact absurd hlookup List.not_mem_nil
  · rename_i hdomain
    cases h with
    | call read hread =>
      cases read with
      | error e =>
        cases hread
        rcases List.mem_cons.mp hlookup with h | h
        · cases h
        · exact absurd h List.not_mem_nil
      | ok body =>
        cases hread with
        | call a' hloop =>
          obtain ⟨tried, rfl, hsettled⟩ := loop_settled (.inr rfl) hloop
          rcases List.mem_cons.mp hlookup with h | hlookup
          · cases h
          rcases List.mem_cons.mp hlookup with h | hlookup
          · cases h
            exact ⟨rfl, hdomain, body, tried, rfl, hsettled⟩
          · obtain ⟨t, -, ht⟩ := List.mem_map.mp hlookup
            cases ht

/-! ## The order of the hosts -/

/-- The records in order of preference, those of one preference in the order of the answer. -/
def Sorted (mxs sorted : List MX) : Prop :=
  sorted.Perm mxs ∧ sorted.Pairwise (fun a b => a.pref ≤ b.pref) ∧
    ∀ n, sorted.filter (·.pref = n) = mxs.filter (·.pref = n)

/-- `sort.SliceStable` by preference. -/
theorem sorted_mergeSort (mxs : List MX) :
    Sorted mxs (mxs.mergeSort fun a b => a.pref ≤ b.pref) := by
  have htrans : ∀ a b c : MX, decide (a.pref ≤ b.pref) → decide (b.pref ≤ c.pref) →
      decide (a.pref ≤ c.pref) := by
    intro a b c hab hbc
    simp only [decide_eq_true_eq] at hab hbc ⊢
    omega
  have htotal : ∀ a b : MX, decide (a.pref ≤ b.pref) || decide (b.pref ≤ a.pref) := by
    intro a b
    simp only [Bool.or_eq_true, decide_eq_true_eq]
    omega
  have hperm := List.mergeSort_perm mxs fun a b => a.pref ≤ b.pref
  refine ⟨hperm, ?_, ?_⟩
  · exact (List.pairwise_mergeSort htrans htotal mxs).imp of_decide_eq_true
  · intro n
    -- the records of one preference are sorted already, so they come through in their order
    have hsame : (mxs.filter (·.pref = n)).Pairwise fun a b => decide (a.pref ≤ b.pref) := by
      refine List.pairwise_of_forall_mem_list ?_
      intro a ha b hb
      have ha := of_decide_eq_true (List.mem_filter.mp ha).2
      have hb := of_decide_eq_true (List.mem_filter.mp hb).2
      exact decide_eq_true (by omega)
    have hsub := List.sublist_mergeSort htrans htotal hsame List.filter_sublist
    have hsub' := hsub.filter (·.pref = n)
    rw [List.filter_filter] at hsub'
    simp only [Bool.and_self] at hsub'
    exact (hsub'.eq_of_length (hperm.filter _).length_eq.symm).symm

/-- **Failover over the MX hosts.**  Whatever the attempts answer, the hosts of a non-empty answer
    are tried from the front of the sorted list, each with the whole list of recipients and the same
    body.  `Defer` is returned iff every host was tried and deferred.  Any other outcome is that of
    the last host tried: those before it deferred, it did not, and its reply is returned. -/
theorem mx_failover {env : Envelope} {es : List (Σ o : Op, o.Ret)} {r : SendReply}
    (h : (send env).Transcript es r) {domain : String} {a : Lookup}
    (hlookup : ⟨.lookupMX domain, a⟩ ∈ es) (herr : a.err = none) (hmxs : a.mxs ≠ []) :
    ∃ sorted body, ∃ tried : List (String × SendReply), Sorted a.mxs sorted ∧
      es = ⟨.readBody, .ok body⟩ :: ⟨.lookupMX domain, a⟩ :: tried.map (fun t =>
        ⟨.deliverTo ⟨Wire.mxAddr t.1, t.1, env.mailFrom, env.rcptTo, body⟩, t.2⟩) ∧
      tried.map (·.1) <+: sorted.map (trimDot ·.host) ∧
      (r.outcome = .defer ↔
        tried.map (·.1) = sorted.map (trimDot ·.host) ∧ ∀ t ∈ tried, t.2.outcome = .defer) ∧
      (r.outcome ≠ .defer → ∃ before t rest,
        sorted.map (trimDot ·.host) = before.map (·.1) ++ t.1 :: rest ∧ tried = before ++ [t] ∧
          (∀ b ∈ before, b.2.outcome = .defer) ∧ t.2.outcome = r.outcome ∧ r = returned t.2) := by
  obtain ⟨-, -, body, tried, hes, hsettled⟩ := send_settled h hlookup
  have hhosts : lookupMX a.answer domain =
      (a.mxs.mergeSort fun a b => a.pref ≤ b.pref).map (trimDot ·.host) := by
    unfold Lookup.answer
    rw [herr]
    cases hcase : a.mxs with
    | nil => exact absurd hcase hmxs
    | cons mx mxs => rfl
  rw [hhosts] at hsettled
  refine ⟨_, body, tried, sorted_mergeSort a.mxs, hes, hsettled.front, hsettled.defer_iff, ?_⟩
  intro hr
  obtain ⟨before, t, rest, hsplit, htried, hdefer, -, rfl⟩ := hsettled.stops hr
  exact ⟨before, t, rest, hsplit, htried, hdefer, (Settled.returned_outcome t.2).symm, rfl⟩

/-! ### Runs -/

/-- A run of the loop is a run of the send. -/
theorem send_transcript {env : Envelope} {es : List (Σ o : Op, o.Ret)} {r : SendReply}
    (hdomain : recipientDomain env.rcptTo ≠ "") (body : Bytes) (a : Lookup)
    (h : (loop env body (lookupMX a.answer (recipientDomain env.rcptTo))
      { outcome := .delivered, detail := "" }).Transcript es r) :
    (send env).Transcript
      (⟨.readBody, .ok body⟩ :: ⟨.lookupMX (recipientDomain env.rcptTo), a⟩ :: es) r := by
  unfold send
  dsimp only
  rw [if_neg hdomain]
  exact .lift_bind (.lift_bind h)

/-- A deferral goes on to the next host. -/
theorem loop_transcript_defer {env : Envelope} {body : Bytes} {host : String}
    {hosts : List String} {last res : SendReply} {es : List (Σ o : Op, o.Ret)} {r : SendReply}
    (hres : res.outcome = .defer) (h : (loop env body hosts res).Transcript es r) :
    (loop env body (host :: hosts) last).Transcript
      (⟨.deliverTo (attempt env body host), res⟩ :: es) r := by
  refine .lift_bind ?_
  show Prog.Transcript (match res.outcome with
    | .delivered => pure { res with err := none }
    | .fail => pure res
    | .defer => loop env body hosts res) es r
  rw [hres]
  exact h

/-- A reply without an error that delivers. -/
def delivered : SendReply := { outcome := .delivered, detail := "250 ok (direct)" }

/-- A deferral without a detail. -/
def deferred : SendReply := { outcome := .defer, detail := "" }

/-- A delivery ends the loop. -/
theorem loop_transcript_delivered (env : Envelope) (body : Bytes) (host : String)
    (hosts : List String) (last : SendReply) :
    (loop env body (host :: hosts) last).Transcript
      [⟨.deliverTo (attempt env body host), delivered⟩] delivered :=
  .lift_bind (.pure delivered)

/-- Every host can be reached by the loop. -/
theorem loop_transcript_all (env : Envelope) (body : Bytes) (hosts : List String)
    (last : SendReply) :
    ∃ r, (loop env body hosts last).Transcript
      (calls env body (hosts.map fun host => (host, deferred))) r := by
  induction hosts generalizing last with
  | nil => exact ⟨_, .pure _⟩
  | cons host hosts ih =>
    obtain ⟨r, hr⟩ := ih deferred
    exact ⟨r, loop_transcript_defer rfl hr⟩

/-- A message from `s@a.org` to two recipients of `b.org`. -/
def envelope : Envelope := { mailFrom := "s@a.org", rcptTo := ["r@b.org", "q@b.org"] }

/-- Two hosts. -/
def twoHosts : Lookup := { mxs := [⟨"mx1.b.org.", 10⟩, ⟨"mx2.b.org.", 20⟩] }

/-- The first host defers without a word, the second delivers. -/
def twoCalls : List (Σ o : Op, o.Ret) :=
  ⟨.readBody, .ok []⟩ :: ⟨.lookupMX "b.org", twoHosts⟩ ::
    calls envelope [] [("mx1.b.org", deferred), ("mx2.b.org", delivered)]

/-- That is a run of the send, and its reply is that of the last host tried. -/
theorem mx_failover_two : (send envelope).Transcript twoCalls delivered ∧
    ∃ tried : List (String × SendReply), tried.map (·.1) = ["mx1.b.org", "mx2.b.org"] ∧
      ∃ before t, tried = before ++ [t] ∧ (∀ b ∈ before, b.2.outcome = .defer) ∧
        t.2.outcome = .delivered ∧ delivered = returned t.2 := by
  have hdomain : recipientDomain envelope.rcptTo = "b.org" := by decide
  have hhosts : lookupMX twoHosts.answer "b.org" = ["mx1.b.org", "mx2.b.org"] := by
    show (twoHosts.mxs.mergeSort fun a b => a.pref ≤ b.pref).map _ = _
    rw [List.mergeSort_of_pairwise (by decide)]
    decide
  have hrun : (send envelope).Transcript twoCalls delivered := by
    unfold twoCalls
    rw [← hdomain]
    refine send_transcript (by rw [hdomain]; decide) [] twoHosts ?_
    rw [hdomain, hhosts]
    exact loop_transcript_defer rfl (loop_transcript_delivered ..)
  obtain ⟨sorted, body, tried, -, hes, -, -, hlast⟩ :=
    mx_failover hrun (List.mem_cons_of_mem _ List.mem_cons_self) rfl (by decide)
  have htried : tried.map (·.1) = ["mx1.b.org", "mx2.b.org"] := by
    have hcalls := (List.cons.inj (List.cons.inj hes).2).2
    have hnames := congrArg (List.map fun e : (Σ o : Op, o.Ret) =>
      match e.1 with | .deliverTo t => t.host | _ => "") hcalls
    simpa [calls, attempt, Function.comp_def] using hnames.symm
  obtain ⟨before, t, rest, -, hsplit, hdefer, hout, hreply⟩ := hlast (by decide)
  exact ⟨hrun, tried, htried, before, t, hsplit, hdefer, hout, hreply⟩

/-! ## The targets -/

/-- DNS answered that the domain has no MX record. -/
def NoMX (a : Lookup) : Prop := a.err = some .notFound ∨ (a.err = none ∧ a.mxs = [])

/-- The host is named by a record. -/
def Named (a : Lookup) (host : String) : Prop := ∃ mx ∈ a.mxs, trimDot mx.host = host

/-- With this result of the lookup, every address dialled is that of a host named by a record or,
    where DNS answered that there is none, of the domain; and when DNS could not be asked for now,
    the message is deferred and not offered to the domain. -/
def Legitimate (env : Envelope) (a : Lookup) : Prop :=
  ∀ es r, (send env).Transcript es r → ∀ domain, ⟨.lookupMX domain, a⟩ ∈ es →
    (∀ t res, ⟨.deliverTo t, res⟩ ∈ es →
      t.addr = Wire.mxAddr t.host ∧ t.host ≠ "" ∧ (Named a t.host ∨ (NoMX a ∧ t.host = domain))) ∧
    (a.err = some .temporary → r.outcome = .defer ∧
      ∀ t res, ⟨.deliverTo t, res⟩ ∈ es → t.host ≠ domain)

/-- The hosts of an answer with records. -/
theorem mem_lookupMX {a : Lookup} {domain host : String} (herr : a.err = none) (hmxs : a.mxs ≠ []) :
    host ∈ lookupMX a.answer domain ↔ Named a host := by
  unfold Lookup.answer
  rw [herr]
  cases hcase : a.mxs with
  | nil => exact absurd hcase hmxs
  | cons mx mxs =>
    show host ∈ (List.mergeSort (mx :: mxs) _).map _ ↔ _
    unfold Named
    rw [hcase]
    simp only [List.mem_map, List.mem_mergeSort]

/-- On an error the only host is the domain. -/
theorem lookupMX_of_err {a : Lookup} {e : LookupErr} (herr : a.err = some e) (domain : String) :
    lookupMX a.answer domain = [domain] := by
  unfold Lookup.answer
  rw [herr]
  rfl

/-- An attempt of a run was made at a host of the list. -/
theorem host_of_attempt {env : Envelope} {es : List (Σ o : Op, o.Ret)} {r : SendReply}
    (h : (send env).Transcript es r) {domain : String} {a : Lookup}
    (hlookup : ⟨.lookupMX domain, a⟩ ∈ es) {t : Attempt} {res : SendReply}
    (ht : ⟨.deliverTo t, res⟩ ∈ es) :
    t.addr = Wire.mxAddr t.host ∧ t.host ∈ lookupMX a.answer domain := by
  obtain ⟨-, -, body, tried, rfl, hsettled⟩ := send_settled h hlookup
  rcases List.mem_cons.mp ht with ht | ht
  · cases ht
  rcases List.mem_cons.mp ht with ht | ht
  · cases ht
  obtain ⟨x, hx, heq⟩ := List.mem_map.mp ht
  cases heq
  exact ⟨rfl, hsettled.front.subset (List.mem_map_of_mem hx)⟩

/-- Every host of the list is dialled by some run. -/
theorem exists_attempt {env : Envelope} (hdomain : recipientDomain env.rcptTo ≠ "") (a : Lookup)
    {host : String} (hhost : host ∈ lookupMX a.answer (recipientDomain env.rcptTo)) :
    ∃ es r, (send env).Transcript es r ∧ ⟨.lookupMX (recipientDomain env.rcptTo), a⟩ ∈ es ∧
      ⟨.deliverTo (attempt env [] host), deferred⟩ ∈ es := by
  obtain ⟨r, hr⟩ := loop_transcript_all env [] (lookupMX a.answer (recipientDomain env.rcptTo))
    { outcome := .delivered, detail := "" }
  refine ⟨_, r, send_transcript hdomain [] a hr, by simp, ?_⟩
  refine List.mem_cons_of_mem _ (List.mem_cons_of_mem _ (List.mem_map.mpr ?_))
  exact ⟨(host, deferred), List.mem_map_of_mem hhost, rfl⟩

/-- What a lookup is like whose every run is legitimate. -/
theorem Legitimate.kinds {env : Envelope} {a : Lookup} (h : Legitimate env a) :
    recipientDomain env.rcptTo = "" ∨ NoMX a ∨
      (a.err = none ∧ ∀ mx ∈ a.mxs, trimDot mx.host ≠ "") ∨
      (a.err = some .other ∧ Named a (recipientDomain env.rcptTo)) := by
  by_cases hdomain : recipientDomain env.rcptTo = ""
  · exact .inl hdomain
  by_cases hno : NoMX a
  · exact .inr (.inl hno)
  refine .inr (.inr ?_)
  -- a run that dials the host shows what is wrong with it
  have hdial : ∀ host ∈ lookupMX a.answer (recipientDomain env.rcptTo),
      host ≠ "" ∧ Named a host ∧
        (a.err = some .temporary → host ≠ recipientDomain env.rcptTo) := by
    intro host hhost
    obtain ⟨es, r, hrun, hlookup, hmem⟩ := exists_attempt hdomain a hhost
    obtain ⟨hlegit, htemp⟩ := h es r hrun _ hlookup
    obtain ⟨-, hne, htarget⟩ := hlegit _ _ hmem
    exact ⟨hne, htarget.resolve_right fun h => hno h.1, fun herr => (htemp herr).2 _ _ hmem⟩
  cases herr : a.err with
  | none =>
    have hmxs : a.mxs ≠ [] := fun hnil => hno (.inr ⟨herr, hnil⟩)
    refine .inl ⟨rfl, ?_⟩
    intro mx hmx
    exact (hdial _ ((mem_lookupMX herr hmxs).mpr ⟨mx, hmx, rfl⟩)).1
  | some e =>
    have hself := hdial (recipientDomain env.rcptTo) (by rw [lookupMX_of_err herr]; simp)
    cases e with
    | notFound => exact absurd (.inl herr) hno
    | temporary => exact absurd rfl (hself.2.2 herr)
    | other => exact .inr ⟨rfl, hself.2.1⟩

/-- Such a lookup has legitimate runs only. -/
theorem Legitimate.of_kinds {env : Envelope} {a : Lookup}
    (hcond : recipientDomain env.rcptTo = "" ∨ NoMX a ∨
      (a.err = none ∧ ∀ mx ∈ a.mxs, trimDot mx.host ≠ "") ∨
      (a.err = some .other ∧ Named a (recipientDomain env.rcptTo))) :
    Legitimate env a := by
  intro es r hrun domain hlookup
  obtain ⟨rfl, hdomain, -⟩ := send_settled hrun hlookup
  refine ⟨?_, ?_⟩
  · intro t res ht
    obtain ⟨haddr, hhost⟩ := host_of_attempt hrun hlookup ht
    refine ⟨haddr, ?_⟩
    rcases hcond with hempty | hno | ⟨herr, hmxs⟩ | ⟨herr, hnamed⟩
    · exact absurd hempty hdomain
    · -- the list is the domain alone
      have hself : t.host = recipientDomain env.rcptTo := by
        rcases hno with herr | ⟨herr, hmxs⟩
        · rw [lookupMX_of_err herr] at hhost
          exact List.mem_singleton.mp hhost
        · unfold Lookup.answer at hhost
          rw [herr, hmxs] at hhost
          exact List.mem_singleton.mp hhost
      rw [hself]
      exact ⟨hdomain, .inr ⟨hno, rfl⟩⟩
    · by_cases hnil : a.mxs = []
      · unfold Lookup.answer at hhost
        rw [herr, hnil] at hhost
        rw [List.mem_singleton.mp hhost]
        exact ⟨hdomain, .inr ⟨.inr ⟨herr, hnil⟩, rfl⟩⟩
      · obtain ⟨mx, hmx, heq⟩ := (mem_lookupMX herr hnil).mp hhost
        rw [← heq]
        exact ⟨hmxs mx hmx, .inl ⟨mx, hmx, rfl⟩⟩
    · rw [lookupMX_of_err herr] at hhost
      rw [List.mem_singleton.mp hhost]
      exact ⟨hdomain, .inl hnamed⟩
  · intro htemp
    rcases hcond with hempty | hno | ⟨herr, -⟩ | ⟨herr, -⟩
    · exact absurd hempty hdomain
    · rcases hno with herr | ⟨herr, -⟩ <;> rw [htemp] at herr <;> cases herr
    · rw [htemp] at herr
      cases herr
    · rw [htemp] at herr
      cases herr

/-- **Which results of the lookup are dialled legitimately.**  Those without a domain to look up;
    those that say there is no record; records without an error and without a null MX; and an error
    of the last kind whose records name the domain itself. -/
theorem legitimate_iff (env : Envelope) (a : Lookup) :
    Legitimate env a ↔
      recipientDomain env.rcptTo = "" ∨ NoMX a ∨
        (a.err = none ∧ ∀ mx ∈ a.mxs, trimDot mx.host ≠ "") ∨
        (a.err = some .other ∧ Named a (recipientDomain env.rcptTo)) :=
  ⟨Legitimate.kinds, Legitimate.of_kinds⟩

/-- The null MX. -/
def nullMX : Lookup := { mxs := [⟨".", 0⟩] }

/-- The resolver could not be asked for now. -/
def servfail : Lookup := { mxs := [], err := some .temporary }

/-- The null MX is dialled as `":25"`, and a message whose domain could not be looked up is
    delivered to the address of the domain. -/
theorem dials_null_mx : ¬Legitimate envelope nullMX ∧ ¬Legitimate envelope servfail := by
  have hdomain : recipientDomain envelope.rcptTo ≠ "" := by decide
  refine ⟨fun h => ?_, fun h => ?_⟩
  · have hhost : "" ∈ lookupMX nullMX.answer (recipientDomain envelope.rcptTo) :=
      (mem_lookupMX rfl (by decide)).mpr ⟨⟨".", 0⟩, by decide, by decide⟩
    obtain ⟨es, r, hrun, hlookup, hmem⟩ := exists_attempt hdomain nullMX hhost
    exact ((h es r hrun _ hlookup).1 _ _ hmem).2.1 rfl
  · have hrun := send_transcript hdomain [] servfail (loop_transcript_delivered ..)
    have hout := ((h _ _ hrun _ (List.mem_cons_of_mem _ List.mem_cons_self)).2 rfl).1
    cases hout

end Novamail.Direct

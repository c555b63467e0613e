/-
  One submission, from the commands the client got an answer to.

  What a submission should be is read off the dialogue alone: `Transaction.after` folds the commands
  with their answers, starts again at a reset, and keeps the sender and the recipients that were
  accepted.  The session keeps the same in fields that different commands change, and two counters
  in place of the NOTIFY sets.  `Mirrors` says how the fields stand to the transaction; one step
  keeps it, so every run does, and the job of a DATA is the job of the transaction.
-/
import Mathlib.Algebra.Ring.Nat
import Novamail.Ingress.Dialogue

namespace Novamail.Ingress

open Novamail.Core

/-! ## Commands and their answers -/

/-- A command with its answer.  `auth` brings the account that `Authenticate` returned. -/
inductive Exchange where
  | auth (acc : Option Account)
  | mail (sender : String) (ret : Option String) (reply : Option SMTPError)
  | rcpt (addr : String) (notify : List Notify) (reply : Option SMTPError)
  | data (body : Bytes) (job : RelayJob)
  | reset
  deriving DecidableEq

/-- The exchanges of a session, under any snapshot at each. -/
inductive Exchange.Step (P : Platform) : Session → Exchange → Session → Prop where
  | auth {s : Session} (acc : Option Account) : Step P s (.auth acc) (Ingress.auth P s acc).2
  | mail {s : Session} (policy : Option InboundPolicy) (delays : Delays) (sender : String)
      (ret : Option String) :
      Step P s (.mail sender ret (Ingress.mail P policy delays s sender ret).1)
        (Ingress.mail P policy delays s sender ret).2
  | rcpt {s : Session} (policy : Option InboundPolicy) (addr : String) (notify : List Notify) :
      Step P s (.rcpt addr notify (Ingress.rcpt policy s addr notify).1)
        (Ingress.rcpt policy s addr notify).2
  | data {s : Session} {body : Bytes} {j : RelayJob}
      (hj : (Ingress.data P s body).Makes (.write (.publish .work j))) : Step P s (.data body j) s
  | reset {s : Session} : Step P s .reset s.reset

/-! ## The transaction -/

/-- What was accepted since the last reset, and the last RET parameter. -/
structure Transaction where
  sender : Option String := none
  /-- each with its NOTIFY set -/
  rcpts : List (String × List Notify) := []
  ret : String := ""
  deriving DecidableEq, Repr

namespace Transaction

/-- One more exchange. -/
def after (t : Transaction) : Exchange → Transaction
  | .mail sender ret none => { t with sender := some sender, ret := ret.getD t.ret }
  | .mail _ ret (some _) => { t with ret := ret.getD t.ret }
  | .rcpt addr notify none => { t with rcpts := t.rcpts ++ [(addr, notify)] }
  | .rcpt _ _ (some _) => t
  | .auth _ | .data _ _ => t
  | .reset => {}

/-- The transaction at the end of the exchanges. -/
def of (es : List Exchange) : Transaction := es.foldl after {}

/-- Every recipient asked for no bounce. -/
def AllNever (t : Transaction) : Prop := t.rcpts ≠ [] ∧ ∀ r ∈ t.rcpts, .never ∈ r.2

instance (t : Transaction) : Decidable t.AllNever :=
  inferInstanceAs (Decidable (t.rcpts ≠ [] ∧ ∀ r ∈ t.rcpts, .never ∈ r.2))

/-- A client may open DATA: a sender and a recipient were accepted. -/
def Ready (t : Transaction) : Prop := t.sender.isSome ∧ t.rcpts ≠ []

instance (t : Transaction) : Decidable t.Ready :=
  inferInstanceAs (Decidable (t.sender.isSome ∧ t.rcpts ≠ []))

/-- The job is the job of this transaction. -/
structure Makes (t : Transaction) (j : RelayJob) : Prop where
  mailFrom : some j.envelope.mailFrom = t.sender
  rcptTo : j.envelope.rcptTo = t.rcpts.map (·.1)
  dsnSuppress : j.dsnSuppress = true ↔ t.AllNever
  dsnReturn : j.dsnReturn = t.ret
  hints : j.routingHints = { recipientDomain := domainOf j.envelope.rcptTo
                             senderDomain := domainOf [j.envelope.mailFrom] }
  attempt : j.attempt = 0

end Transaction

/-! ## The session and the transaction -/

/-- The NEVERs of the recipients, each as often as its NOTIFY set has it. -/
def Transaction.nevers (t : Transaction) : List Nat := t.rcpts.map fun r => r.2.count .never

/-- The fields of the session are those of the transaction. -/
structure Mirrors (s : Session) (t : Transaction) : Prop where
  sender : s.sender = t.sender.getD ""
  rcpts : s.rcpts = t.rcpts.map (·.1)
  ret : s.dsnReturn = t.ret
  rcptN : s.rcptN = t.rcpts.length
  neverN : s.neverN = t.nevers.sum

/-- The NOTIFY set of an exchange has at most one NEVER. -/
def Exchange.OneNever : Exchange → Prop
  | .rcpt _ notify _ => notify.count .never ≤ 1
  | .auth _ | .mail _ _ _ | .data _ _ | .reset => True

theorem sum_le_length {ns : List Nat} (h : ∀ n ∈ ns, n ≤ 1) : ns.sum ≤ ns.length := by
  induction ns with
  | nil => exact Nat.le_refl 0
  | cons n ns ih =>
    have hn : n ≤ 1 := h n List.mem_cons_self
    have hns := ih fun m hm => h m (List.mem_cons_of_mem n hm)
    rw [List.sum_cons, List.length_cons]
    omega

instance : DecidablePred Exchange.OneNever
  | .rcpt _ notify _ => inferInstanceAs (Decidable (notify.count .never ≤ 1))
  | .auth _ | .mail _ _ _ | .data _ _ | .reset => .isTrue trivial

/-- Numbers that are at most one add up to their number iff each is one. -/
theorem sum_eq_length_iff {ns : List Nat} (h : ∀ n ∈ ns, n ≤ 1) :
    ns.sum = ns.length ↔ ∀ n ∈ ns, n = 1 := by
  induction ns with
  | nil => simp
  | cons n ns ih =>
    have hn : n ≤ 1 := h n List.mem_cons_self
    have hns : ∀ m ∈ ns, m ≤ 1 := fun m hm => h m (List.mem_cons_of_mem n hm)
    have hle := sum_le_length hns
    rw [List.sum_cons, List.length_cons, List.forall_mem_cons, ← ih hns]
    omega

section
variable {P : Platform} {s s' : Session} {t : Transaction}

/-- One exchange changes both alike. -/
theorem Mirrors.step {e : Exchange} (h : Mirrors s t) (hst : Exchange.Step P s e s') :
    Mirrors s' (t.after e) := by
  cases hst with
  | auth acc =>
    -- the account is not part of the transaction
    cases acc with
    | none => exact ⟨h.sender, h.rcpts, h.ret, h.rcptN, h.neverN⟩
    | some acc =>
      unfold Ingress.auth
      dsimp only
      split
      · exact ⟨h.sender, h.rcpts, h.ret, h.rcptN, h.neverN⟩
      · exact ⟨h.sender, h.rcpts, h.ret, h.rcptN, h.neverN⟩
  | mail policy delays sender ret =>
    have hret : ret.getD s.dsnReturn = ret.getD t.ret := by rw [h.ret]
    unfold Ingress.mail
    dsimp only
    cases mailCheck P policy delays { s with dsnReturn := ret.getD s.dsnReturn } sender with
    | none => exact ⟨rfl, h.rcpts, hret, h.rcptN, h.neverN⟩
    | some e => exact ⟨h.sender, h.rcpts, hret, h.rcptN, h.neverN⟩
  | rcpt policy addr notify =>
    unfold Ingress.rcpt
    cases policy.any fun p => p.suppressed.contains (lower addr) with
    | true => exact ⟨h.sender, h.rcpts, h.ret, h.rcptN, h.neverN⟩
    | false =>
      refine ⟨h.sender, ?_, h.ret, ?_, ?_⟩
      · show s.rcpts ++ [addr] = (t.rcpts ++ [(addr, notify)]).map (·.1)
        rw [List.map_append, h.rcpts]
        rfl
      · show s.rcptN + 1 = (t.rcpts ++ [(addr, notify)]).length
        rw [List.length_append, h.rcptN]
        rfl
      · show s.neverN + notify.count .never = ((t.rcpts ++ [(addr, notify)]).map _).sum
        rw [List.map_append, List.sum_append, h.neverN]
        rfl
  | data hj => exact h
  | reset => exact ⟨rfl, rfl, rfl, rfl, rfl⟩

/-- A run of exchanges changes both alike. -/
theorem Mirrors.path {es : List Exchange} (hrun : Path (Exchange.Step P) s es s')
    (h : Mirrors s t) : Mirrors s' (es.foldl Transaction.after t) := by
  induction hrun generalizing t with
  | nil s => exact h
  | cons hst _ ih => exact ih (h.step hst)

/-- The NOTIFY sets of a transaction are those of its exchanges. -/
theorem nevers_le {es : List Exchange} (hone : ∀ e ∈ es, e.OneNever) (ht : ∀ n ∈ t.nevers, n ≤ 1) :
    ∀ n ∈ (es.foldl Transaction.after t).nevers, n ≤ 1 := by
  induction es generalizing t with
  | nil => exact ht
  | cons e es ih =>
    refine ih (fun e' he' => hone e' (List.mem_cons_of_mem e he')) ?_
    have he := hone e List.mem_cons_self
    cases e with
    | auth acc | data body job => exact ht
    | reset => exact nofun
    | mail sender ret reply =>
      cases reply with
      | none => exact ht
      | some e => exact ht
    | rcpt addr notify reply =>
      cases reply with
      | some e => exact ht
      | none =>
        intro n hn
        rw [show (t.after (.rcpt addr notify none)).nevers = t.nevers ++ [notify.count .never] from
          List.map_append ..] at hn
        rcases List.mem_append.mp hn with hn | hn
        · exact ht n hn
        · rw [List.mem_singleton.mp hn]
          exact he

/-- The counters say whether every recipient asked for no bounce. -/
theorem Mirrors.allNever (h : Mirrors s t) (ht : ∀ n ∈ t.nevers, n ≤ 1) :
    (0 < s.rcptN ∧ s.neverN = s.rcptN) ↔ t.AllNever := by
  have hlen : t.nevers.length = t.rcpts.length := List.length_map ..
  rw [h.rcptN, h.neverN, ← hlen, sum_eq_length_iff ht, hlen, List.length_pos_iff]
  refine and_congr_right fun _ => ?_
  constructor
  · intro hall r hr
    have hcount := hall _ (List.mem_map_of_mem hr)
    exact List.count_pos_iff.mp (by omega)
  · intro hall n hn
    obtain ⟨r, hr, rfl⟩ := List.mem_map.mp hn
    have hpos := List.count_pos_iff.mpr (hall r hr)
    have hle := ht _ hn
    omega

/-- **A submission is its transaction.**  Whatever a client sends and whatever is refused, a DATA
    that follows an accepted MAIL and an accepted RCPT publishes the job of the transaction since
    the last reset: its sender, its recipients in order, and no bounce iff all asked for none. -/
theorem submission_is_transaction {policy : Option InboundPolicy} {ip : Option IP}
    {es : List Exchange} (hrun : Path (Exchange.Step P) (newSession policy ip) es s)
    (hone : ∀ e ∈ es, e.OneNever) (hready : (Transaction.of es).Ready) {body : Bytes} {q : Queue}
    {j : RelayJob} (hj : (data P s body).Makes (.write (.publish q j))) :
    (Transaction.of es).Makes j := by
  have hmirror : Mirrors s (Transaction.of es) :=
    Mirrors.path (t := {}) hrun ⟨rfl, rfl, rfl, rfl, rfl⟩
  have hnevers : ∀ n ∈ (Transaction.of es).nevers, n ≤ 1 := nevers_le hone nofun
  obtain ⟨-, id, rfl⟩ := data_publishes hj
  constructor
  · show some s.sender = _
    obtain ⟨a, ha⟩ := Option.isSome_iff_exists.mp hready.1
    rw [hmirror.sender, ha]
    rfl
  · exact hmirror.rcpts
  · exact decide_eq_true_iff.trans (hmirror.allNever hnevers)
  · exact hmirror.ret
  · rfl
  · rfl

end

/-- The exchanges of a client that starts again after a refused recipient. -/
def retried : List Exchange :=
  [.mail "old@s.test" none none, .rcpt "x@r.test" [] none, .reset,
    .mail "a@s.test" none none, .rcpt "b@r.test" [.never] none,
    .rcpt "c@r.test" [] (some errSuppressed)]

/-- The policy that suppresses its last recipient. -/
def retryPolicy : InboundPolicy := { relayPolicy with suppressed := ["c@r.test"] }

/-- The job it publishes has the second sender, and the one recipient that was accepted. -/
theorem submission_is_transaction_retried : ∃ s : Session,
    Path (Exchange.Step .plain) (newSession (some retryPolicy) (some [10, 0, 0, 1])) retried s ∧
      (data .plain s []).Makes (.write (.publish .work (relayJob s "m"))) ∧
      (Transaction.of retried).Makes (relayJob s "m") ∧ (relayJob s "m").dsnSuppress = true := by
  have hrun : Path (Exchange.Step .plain) (newSession (some retryPolicy) (some [10, 0, 0, 1]))
      retried _ :=
    .cons (.mail (some retryPolicy) (fun _ _ => 0) "old@s.test" none) <|
    .cons (.rcpt (some retryPolicy) "x@r.test" []) <| .cons .reset <|
    .cons (.mail (some retryPolicy) (fun _ _ => 0) "a@s.test" none) <|
    .cons (.rcpt (some retryPolicy) "b@r.test" [.never]) <|
    .cons (.rcpt (some retryPolicy) "c@r.test" []) <| .nil _
  have hpublish := fun s : Session => data_makes_publish .plain s [] "m"
  have hjob := submission_is_transaction hrun (by decide) (by decide) (hpublish _)
  exact ⟨_, hrun, hpublish _, hjob, hjob.dsnSuppress.mpr (by decide)⟩

end Novamail.Ingress

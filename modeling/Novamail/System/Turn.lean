/-
  Everything a task can do, as one inversion lemma.

  `Turn t ph o r ph'` lists the permitted calls of a task with the phase before and after, spelled
  out: who makes the call, in which phase, and where it leads.  `Task.allow.turn` says that the
  list is complete.  Every invariant of the deployment is a case analysis over this list, so the
  discipline itself is opened once, here.
-/
import Novamail.System.Task

namespace Novamail

open Novamail.Core

/-- The call `o` of the task `t`, answered by `r`, takes the phase `ph` to `ph'`. -/
inductive Turn (t : Task) : Phase → (o : Op) → o.Ret → Phase → Prop where
  /-- A read that moves nothing. -/
  | read {ph : Phase} {q : Query} {r : q.Ret} (hq : ∀ p m, q ≠ .send p m)
      (hi : q ≠ .inc .suppressed) : Turn t ph (.ask q) r ph
  | selected {id : MsgId} {row : Row} (ht : t = .requeue id) :
      Turn t .start (.ask (.selectMessage id)) (some (some row)) (.selected row)
  | queried {active : List String} (ht : t = .sweep) :
      Turn t .start (.ask .activeBodyRefs) (some active) (.queried active)
  | swept {active : List String} {r : List String × Bool} (ht : t = .sweep) :
      Turn t (.queried active) (.ask .walk) r (.swept active r.1)
  | undelivered {j : RelayJob} {p : Provider} {m : Message} {r : SendReply}
      (ht : t = .deliver (.job j)) (h : r.isDelivered = false) :
      Turn t .start (.ask (.send p m)) r .start
  | delivered {j : RelayJob} {p : Provider} {m : Message} {r : SendReply}
      (ht : t = .deliver (.job j)) (h : r.isDelivered = true) :
      Turn t .start (.ask (.send p m)) r .sent
  | suppressed {j : RelayJob} (ht : t = .bounce (.job j)) :
      Turn t .noted (.ask (.inc .suppressed)) () .settled
  /-- A submission or an alert draws its id. -/
  | draw {id : MsgId} (ht : t.produces = true) (hd : t.delivery = none) :
      Turn t .start .newID id (.drawn id)
  /-- The bounce generator draws the id of the bounce. -/
  | redraw {j : RelayJob} {id : MsgId} (ht : t = .bounce (.job j)) :
      Turn t .noted .newID id (.drawn id)
  | put {key : String} {body : Bytes} {ok : Bool} (ht : t.produces = true) :
      Turn t (.drawn key) (.write (.put key body)) ok (if ok then .stored key else .ended)
  | insertBody {key : String} {body : Bytes} {ok : Bool} (ht : t.produces = true) :
      Turn t (.drawn key) (.write (.insertBody key body)) ok (if ok then .stored key else .ended)
  | oversized {key : String} {ok : Bool} (ht : t.produces = true) :
      Turn t (.stored key) (.write (.delete key)) ok .ended
  /-- A consumer drops the body of the job it has discharged. -/
  | relayed {j : RelayJob} {ok : Bool} (ht : t = .deliver (.job j)) :
      Turn t .closed (.write (.delete j.bodyRef.key)) ok .closed
  | bounced {j : RelayJob} {id : MsgId} {ok : Bool} (ht : t = .bounce (.job j)) :
      Turn t (.published id) (.write (.delete j.bodyRef.key)) ok (.published id)
  | unsent {j : RelayJob} {ok : Bool} (ht : t = .bounce (.job j)) :
      Turn t .settled (.write (.delete j.bodyRef.key)) ok .settled
  /-- The sweep drops a listed body that was not active. -/
  | orphan {active listing : List String} {key : String} {ok : Bool} (ht : t = .sweep)
      (hl : key ∈ listing) (ha : key ∉ active) :
      Turn t (.swept active listing) (.write (.delete key)) ok (.swept active listing)
  | insert {id : MsgId} {env : Envelope} {ref : BodyRef} {info : MessageMeta} {logged ok : Bool}
      (ht : t.produces = true) (hk : ref.key = id) :
      Turn t (.stored id) (.write (.insertMessage id env ref info logged)) ok
        (if ok then .inserted id else .ended)
  /-- A delivery records a failure or a deferral. -/
  | attempt {j : RelayJob} {st : Status} {kind : EventKind} {provider detail : String} {ok : Bool}
      (ht : t = .deliver (.job j)) (hst : st = .failed ∨ st = .deferred) :
      Turn t .start (.write (.recordAttempt j.messageID st kind provider detail)) ok .start
  | close {j : RelayJob} {kind : EventKind} {provider detail : String} {ok : Bool}
      (ht : t = .deliver (.job j)) :
      Turn t .sent (.write (.recordAttempt j.messageID .relayed kind provider detail)) ok .closed
  | note {j : RelayJob} {kind : EventKind} {provider detail : String} {ok : Bool}
      (ht : t = .bounce (.job j)) :
      Turn t .start (.write (.recordAttempt j.messageID .bounced kind provider detail)) ok .noted
  | suppress {ph : Phase} {addr reason source : String} {detail : Option String} {ok : Bool}
      (h : t.MaySuppress ph addr reason) :
      Turn t ph (.write (.addSuppression addr reason source detail)) ok ph
  | prune {ph : Phase} {days : Int} {ok : Bool} (ht : t = .sweep) :
      Turn t ph (.write (.pruneOld days)) ok ph
  /-- A delivery publishes its successor to a wait tier or the DLQ. -/
  | successor {j : RelayJob} {q : Queue} {attempt : Int} {ok : Bool} (ht : t = .deliver (.job j))
      (hq : q.isWait = true ∨ q = .dlq) (hm : j.Moves q attempt) :
      Turn t .start (.write (.publish q { j with attempt := attempt })) ok
        (if ok then .moved else .start)
  | submission {s : Ingress.Session} {body : Bytes} {id : MsgId} {j : RelayJob} {ok : Bool}
      (ht : t = .submit s body) (hid : j.messageID = id) (hk : j.bodyRef.key = id)
      (hj : j = Ingress.relayJob s id) :
      Turn t (.inserted id) (.write (.publish .work j)) ok (if ok then .published id else .ended)
  | dsn {orig : RelayJob} {id : MsgId} {j : RelayJob} {ok : Bool} (ht : t = .bounce (.job orig))
      (hid : j.messageID = id) (hk : j.bodyRef.key = id) (hf : j.envelope.mailFrom = "")
      (hj : j = Dsn.dsnJob orig id) :
      Turn t (.inserted id) (.write (.publish .work j)) ok (if ok then .published id else .ended)
  | alert {rs : List String} {subject text : String} {id : MsgId} {j : RelayJob} {ok : Bool}
      (ht : t = .alert rs subject text) (hid : j.messageID = id) (hk : j.bodyRef.key = id)
      (hj : ∃ sender, j = Admin.alertJob id sender rs) :
      Turn t (.inserted id) (.write (.publishRelayJob j)) ok
        (if ok then .published id else .ended)
  | requeue {row : Row} {j : RelayJob} {ok : Bool} (ht : t = .requeue j.messageID)
      (hl : row.status.live = true) (hr : j.bodyRef = row.bodyRef)
      (he : j.envelope = row.envelope) (hj : j = Admin.requeueJob j.messageID row) :
      Turn t (.selected row) (.write (.publishRelayJob j)) ok .ended
  | announce {ph : Phase} {ok : Bool} : Turn t ph (.write .publishConfig) ok ph
  | ack {ph : Phase} (h : t.MaySettle ph .ack) : Turn t ph (.settle .ack) () .done
  | retry {j : RelayJob} (ht : t = .deliver (.job j)) : Turn t .start (.settle (.nack true)) () .done
  | regenerate {j : RelayJob} (ht : t = .bounce (.job j)) :
      Turn t .ended (.settle (.nack true)) () .done
  | garbage (ht : t = .deliver .garbage ∨ t = .bounce .garbage) :
      Turn t .start (.settle (.reject false)) () .done

namespace Task

variable {t : Task} {ph : Phase}

theorem allowWrite.turn {w : Write} (h : t.allowWrite ph w) (ok : Bool) :
    Turn t ph (.write w) ok (ph.nextWrite ok w) := by
  cases w with
  | put key body =>
    obtain ⟨rfl, ht⟩ := h
    exact .put ht
  | insertBody key body =>
    obtain ⟨rfl, ht⟩ := h
    exact .insertBody ht
  | delete key =>
    cases h with
    | oversized _ ht => exact .oversized ht
    | relayed hd => exact .relayed hd
    | bounced hd => exact .bounced hd
    | suppressed hd => exact .unsent hd
    | orphan ht hl ha => exact .orphan ht hl ha
  | insertMessage id env ref info logged =>
    obtain ⟨rfl, ht, hk⟩ := h
    exact .insert ht hk
  | recordAttempt id st kind provider detail =>
    cases h with
    | failed hd => exact .attempt hd (.inl rfl)
    | deferred hd => exact .attempt hd (.inr rfl)
    | relayed hd => exact .close hd
    | bounced hd => exact .note hd
  | addSuppression addr reason source detail => exact .suppress h
  | pruneOld days => exact .prune h
  | publish q j =>
    cases h with
    | successor hd hq attempt hm => exact .successor hd hq hm
    | submission ht hid hk hj => exact .submission ht hid hk hj
    | dsn ht hid hk hf hj => exact .dsn ht hid hk hf hj
  | publishRelayJob j =>
    cases h with
    | alert ht hid hk hj => exact .alert ht hid hk hj
    | requeue ht hl hr he hj => exact .requeue ht hl hr he hj
  | publishConfig => exact .announce

theorem allowQuery.turn {q : Query} (h : t.allowQuery ph q) (r : q.Ret) :
    Turn t ph (.ask q) r (ph.nextQuery q r) := by
  have quiet : ∀ {q : Query} {r : q.Ret}, (∀ p m, q ≠ .send p m) → q ≠ .inc .suppressed →
      ph.nextQuery q r = ph → Turn t ph (.ask q) r (ph.nextQuery q r) := by
    intro q r hq hi hph
    rw [hph]
    exact .read hq hi
  cases q with
  | send p m =>
    obtain ⟨rfl, j, ht, -⟩ := h
    by_cases hr : r.isDelivered = true
    · have hph : Phase.start.nextQuery (.send p m) r = .sent := if_pos hr
      rw [hph]
      exact .delivered ht hr
    · have hph : Phase.start.nextQuery (.send p m) r = .start := if_neg hr
      rw [hph]
      exact .undelivered ht (Bool.not_eq_true _ ▸ hr)
  | inc m =>
    cases m with
    | suppressed =>
      obtain ⟨rfl, j, ht, -⟩ := h
      exact .suppressed ht
    | _ => exact quiet (fun _ _ => Query.noConfusion) (fun h => nomatch Query.inc.inj h) rfl
  | selectMessage id =>
    obtain ⟨rfl, ht⟩ := h
    cases r with
    | none => exact .read (fun _ _ => Query.noConfusion) Query.noConfusion
    | some row =>
      cases row with
      | none => exact .read (fun _ _ => Query.noConfusion) Query.noConfusion
      | some row => exact .selected ht
  | activeBodyRefs =>
    obtain ⟨rfl, ht⟩ := h
    cases r with
    | none => exact .read (fun _ _ => Query.noConfusion) Query.noConfusion
    | some active => exact .queried ht
  | walk =>
    obtain ⟨ht, active, rfl⟩ := h
    exact .swept ht
  | _ => exact quiet (fun _ _ => Query.noConfusion) Query.noConfusion rfl

/-- **The list of turns is complete.** -/
theorem allow.turn {o : Op} (h : t.allow ph o) (r : o.Ret) : Turn t ph o r (ph.next o r) := by
  cases o with
  | write w => exact allowWrite.turn h r
  | ask q => exact allowQuery.turn h r
  | settle v =>
    cases v with
    | ack => exact .ack h
    | nack b =>
      cases h with
      | retry ht => exact .retry ht
      | regenerate ht => exact .regenerate ht
    | reject b =>
      cases h with
      | garbage ht => exact .garbage ht
  | newID =>
    obtain ⟨ht, ⟨rfl, hd⟩ | ⟨rfl, j, hj⟩⟩ := h
    · exact .draw ht hd
    · exact .redraw hj

end Task

/-- Only a verdict settles a delivery, and nothing unsettles it. -/
theorem Turn.done_iff {t : Task} {ph ph' : Phase} {o : Op} {r : o.Ret} (h : Turn t ph o r ph')
    (ho : ∀ v, o ≠ .settle v) : ph' = .done ↔ ph = .done := by
  cases h with
  | ack | retry | regenerate | garbage => exact absurd rfl (ho _)
  | read | undelivered | relayed | bounced | unsent | orphan | attempt | suppress | prune
  | announce => exact Iff.rfl
  | selected | queried | swept | delivered | suppressed | draw | redraw | oversized | close | note
  | requeue => exact ⟨Phase.noConfusion, Phase.noConfusion⟩
  | put | insertBody | insert | successor | submission | dsn | alert =>
    refine ⟨fun hc => ?_, Phase.noConfusion⟩
    split at hc <;> exact Phase.noConfusion hc

end Novamail

/-
  Who ends up on the suppression list.

  The bounce generator suppresses every recipient of every job it takes from the DLQ, unless the
  sender is null; it sees the job and not what brought it there.  The feedback route suppresses
  every address a bounce notification names, whatever its type.  So a recipient is on the list for
  a reason of its own only in runs in which a job is dead-lettered after all its recipients were
  refused for the message it carries, and only permanent bounces are notified.
-/
import Novamail.Providers.Direct
import Novamail.System.Play

namespace Novamail

open Novamail.Core

/-! ## What a refusal is -/

/-- The peer answers the RCPT for this recipient of the message with a 5xx reply. -/
def Upstream.Refuses (u : Upstream) (m : Message) (a : String) : Prop :=
  a ∈ m.envelope.rcptTo ∧ ∃ e, u.rcpt a = some e ∧ e.permanent = true

/-- The reply is what `Send` makes of the answers of this peer; for `direct`, of one of the hosts. -/
def Provider.heard : Provider → Message → SendReply → Upstream → Prop
  | .smtp cfg, m, r, u => r = smtpSend cfg u m
  | .gmail _, m, r, u => ∃ token dial, r = gmailSend token dial u m
  | .direct _, m, r, u => ∃ (mx : String → Option (List MX)) (starttls : String → Option String)
      (us : String → Upstream) (h : String),
      r = (directSend mx (fun h => deliverTo (starttls h) (us h) m) m).1 ∧ u = us h

/-- The recipient at which `SendMail` stops is one of the message, and its RCPT failed. -/
theorem firstRefused_some {u : Upstream} {rs : List String} {r : String} {e : NetErr}
    (h : firstRefused u rs = some (r, e)) : r ∈ rs ∧ u.rcpt r = some e := by
  induction rs with
  | nil => cases h
  | cons x xs ih =>
    unfold firstRefused at h
    split at h
    · rename_i e' hx
      cases h
      exact ⟨List.mem_cons_self, hx⟩
    · obtain ⟨hmem, hu⟩ := ih h
      exact ⟨List.mem_cons_of_mem _ hmem, hu⟩

section
variable {u : Upstream} {m : Message} {a : String}

theorem sendMail_refused {r : SendReply} (h : sendMail u m.envelope = some r)
    (ha : r.refused = some a) : u.Refuses m a := by
  unfold sendMail at h
  split at h
  · cases h
    cases ha
  · split at h
    · rename_i x e hfirst
      cases h
      dsimp only at ha
      split at ha
      · rename_i hperm
        cases ha
        obtain ⟨hmem, hu⟩ := firstRefused_some hfirst
        exact ⟨hmem, e, hu, hperm⟩
      · cases ha
    · obtain ⟨e, -, rfl⟩ := Option.map_eq_some_iff.mp h
      cases ha

theorem smtpSend_refused {cfg : SMTPConfig} (ha : (smtpSend cfg u m).refused = some a) :
    u.Refuses m a := by
  unfold smtpSend at ha
  split at ha
  · cases ha
  · split at ha
    · cases ha
    · split at ha
      · rename_i hsend
        exact sendMail_refused hsend ha
      · cases ha

theorem gmailSend_refused {token dial : Option String}
    (ha : (gmailSend token dial u m).refused = some a) : u.Refuses m a := by
  unfold gmailSend at ha
  split at ha
  · cases ha
  · cases ha
  · split at ha
    · cases ha
    · split at ha
      · rename_i hsend
        exact sendMail_refused hsend ha
      · cases ha

theorem deliverTo_refused {starttls : Option String}
    (ha : (deliverTo starttls u m).refused = some a) : u.Refuses m a := by
  unfold deliverTo at ha
  split at ha
  · cases ha
  · split at ha
    · cases ha
    · split at ha
      · rename_i hsend
        exact sendMail_refused hsend ha
      · cases ha

/-- A refusal that the host loop reports is that of a host, or of the reply it started with. -/
theorem directLoop_refused {host : String → SendReply} {hs : List String} :
    ∀ {last : SendReply}, (directLoop host hs last).1.refused = some a →
      last.refused = some a ∨ ∃ h, (host h).refused = some a := by
  induction hs with
  | nil =>
    intro last ha
    unfold directLoop at ha
    dsimp only at ha
    split at ha
    · cases ha
    · exact .inl ha
  | cons h hs ih =>
    intro last ha
    unfold directLoop at ha
    split at ha
    · exact .inr ⟨h, ha⟩
    · exact .inr ⟨h, ha⟩
    · rcases ih ha with ha | hlater
      · exact .inr ⟨h, ha⟩
      · exact .inr hlater

end

/-- **What `Send` reports as refused, a peer refused.** -/
theorem Provider.sends.refused {p : Provider} {m : Message} {r : SendReply} {a : String}
    (h : p.sends m r) (ha : r.refused = some a) : ∃ u, p.heard m r u ∧ u.Refuses m a := by
  cases p with
  | smtp cfg =>
    obtain ⟨u, rfl⟩ := h
    exact ⟨u, rfl, smtpSend_refused ha⟩
  | gmail cfg =>
    obtain ⟨token, dial, u, rfl⟩ := h
    exact ⟨u, ⟨token, dial, rfl⟩, gmailSend_refused ha⟩
  | direct cfg =>
    obtain ⟨mx, starttls, us, rfl⟩ := h
    have hloop : ∃ h, (deliverTo (starttls h) (us h) m).refused = some a := by
      unfold directSend at ha
      dsimp only at ha
      split at ha
      · cases ha
      · rcases directLoop_refused ha with ha | hhost
        · cases ha
        · exact hhost
    obtain ⟨host, hhost⟩ := hloop
    exact ⟨us host, ⟨mx, starttls, us, host, rfl, rfl⟩, deliverTo_refused hhost⟩

/-- A reply that the code of the provider gives: as `Novamail.Providers.Send` sums it up, call by
    call on its connections, or, for `direct`, attempt by attempt. -/
inductive Provider.Replies : Provider → Message → SendReply → Prop where
  | summed {p : Provider} {m : Message} {r : SendReply} (h : p.sends m r) : Replies p m r
  | dialogue {E : Wire.Env} {fuel : Nat} {p : Wire.Ref} {ans : (o : Wire.WireOp) → o.Ret}
      {m : Message} {r : SendReply} (h : (Wire.send E fuel p m).eval ans = some r) :
      Replies p.provider m r
  | attempts {cfg : DirectConfig} {ans : (o : Direct.Op) → o.Ret} {m : Message}
      (hbody : ans .readBody = .ok m.body)
      (hhosts : ∀ host, ∃ starttls u,
        ans (.deliverTo (Direct.attempt m.envelope m.body host)) = deliverTo starttls u m) :
      Replies (.direct cfg) m ((Direct.send m.envelope).eval ans)

/-- The three agree. -/
theorem Provider.Replies.sends {p : Provider} {m : Message} {r : SendReply} (h : p.Replies m r) :
    p.sends m r := by
  cases h with
  | summed h => exact h
  | @dialogue E fuel p ans _ _ h => exact Wire.send_sends p ans fuel m h
  | @attempts cfg ans _ hbody hhosts =>
    choose starttls us hus using hhosts
    refine ⟨fun domain => (ans (.lookupMX domain)).answer, starttls, us, ?_⟩
    rw [Direct.eval_send ans m hbody]
    exact congrArg (fun f => (directSend _ f m).1) (funext hus)

/-! ## Refusals of a run -/

/-- The step is a `Send` of this message that ends because a peer refuses this recipient of it. -/
def Label.Refuses (id : MsgId) (a : String) : Label → Prop
  | .op p (.ask (.send prov m)) reply _ =>
    reply.refused = some a ∧ ∃ j u, p.task = .deliver (.job j) ∧ j.messageID = id ∧
      m.envelope = j.envelope ∧ prov.heard m reply u ∧ u.Refuses m a
  | _ => False

/-- What a query puts on record as refused is the reply of a `Send` for the job of the task. -/
theorem Task.refused_of_mem {t : Task} {p : Provider} {m : Message} {r : SendReply} {id : MsgId}
    {a : String} (h : .refused id a ∈ t.markQuery (.send p m) r) :
    r.refused = some a ∧ ∃ j, t.job = some j ∧ j.messageID = id := by
  rcases List.mem_append.mp h with h | h
  · split at h
    · obtain ⟨_, -, he⟩ := List.mem_map.mp h
      cases he
    · cases h
  · obtain ⟨j, hj, h⟩ := List.mem_flatMap.mp h
    obtain ⟨_, hr, he⟩ := List.mem_map.mp h
    cases he
    exact ⟨Option.mem_toList.mp hr, j, Option.mem_toList.mp hj, rfl⟩

section
variable {site : Site} {ok : Cluster → Label → Prop} {c c' : Cluster} {l : Label} {id : MsgId}
  {a : String}

/-- A new refusal on record was one, where the providers answer as their code does. -/
theorem Step.refusal (hnet : ∀ p m r, site.net p m r → p.Replies m r)
    (hr : Reach (cluster site) ok c) (hst : Step site c l c')
    (h : .refused id a ∈ c'.world.log) : .refused id a ∈ c.world.log ∨ l.Refuses id a := by
  rcases hst.event_cases h with
    hold | ⟨t, -, hs⟩ | ⟨p, wr, r, f, -, hw⟩ | ⟨p, q, r, f, rfl, hq⟩ | ⟨p, ok', -, hf⟩
  · exact .inl hold
  · obtain ⟨_, _, _, -, -, he⟩ := Task.mem_markStart hs
    cases he
  · rcases Task.mem_markWrite hw with
      ⟨j, hj⟩ | ⟨_, he⟩ | ⟨_, _, _, _, _, -, he⟩ | ⟨_, _, _, _, _, -, -, he⟩
    · rcases Task.mem_handedOver hj with he | he | ⟨_, -, he⟩ <;> cases he
    · cases he
    · cases he
    · cases he
  · right
    cases hst with
    | op hp hk hx =>
      cases hx with
      | ask hans =>
        have hob := (procs_ok hr p (hp ▸ Multiset.mem_cons_self _ _)).obeys
        rw [hk] at hob
        cases q with
        | send prov m =>
          obtain ⟨href, j, hj, hid⟩ := Task.refused_of_mem hq
          obtain ⟨-, j', ht, henv⟩ := hob.1
          obtain rfl : j' = j := by
            rw [ht] at hj
            exact Option.some.inj hj
          obtain ⟨u, hheard, hrefuses⟩ := (hnet _ _ _ hans).sends.refused href
          exact ⟨href, j', u, ht, hid, henv, hheard, hrefuses⟩
        | inc k =>
          cases k with
          | suppressed =>
            obtain ⟨_, -, he⟩ := List.mem_map.mp hq
            cases he
          | _ => cases hq
        | _ => cases hq
  · obtain ⟨_, -, he⟩ := Task.mem_markEnd hf
    cases he

/-- **Every refusal on record was made in the run.** -/
theorem refusals {ls : List Label} (hnet : ∀ p m r, site.net p m r → p.Replies m r)
    (h : Trace (cluster site) ok ls c) (hlog : .refused id a ∈ c.world.log) :
    ∃ l ∈ ls, l.Refuses id a := by
  induction h with
  | init hs =>
    obtain rfl := hs
    cases hlog
  | step ht hok hst ih =>
    rcases hst.refusal hnet ht.reach hlog with hold | hnew
    · obtain ⟨l, hl, href⟩ := ih hold
      exact ⟨l, List.mem_append_left _ hl, href⟩
    · exact ⟨_, List.mem_append_right _ (List.mem_singleton.mpr rfl), hnew⟩

end

/-! ## The condition -/

/-- The address was refused for the message, in whatever letter case. -/
def World.Refused (w : World) (id : MsgId) (a : String) : Prop :=
  ∃ r, .refused id r ∈ w.log ∧ lower r = lower a

/-- Every recipient of the job was refused for its message; a bounce has nobody to answer for. -/
def RelayJob.Refused (j : RelayJob) (w : World) : Prop :=
  j.envelope.mailFrom ≠ "" → ∀ a ∈ j.envelope.rcptTo, w.Refused j.messageID a

/-- **The condition.**  A job is dead-lettered only after every recipient of it was refused for the
    message it carries, unless it is a bounce; and a bounce notification is about a permanent
    bounce. -/
def attributed (c : Cluster) : Label → Prop
  | .op _ (.write (.publish .dlq j)) _ f => f.applied = true → j.Refused c.world
  | .start (.feedback _ (.bounce ty _)) => ty = "Permanent"
  | _ => True

/-! ## The invariant -/

/-- The suppression of an address has its cause on record: in the bounce of a message, a refusal
    of that address for that message; else a notification that names it. -/
def World.Blames (w : World) (a : String) : Option MsgId → Prop
  | some id => ∃ r, .refused id r ∈ w.log ∧ lower r = a
  | none => .notified a ∈ w.log

/-- What may be suppressed has its reason on record. -/
structure Cluster.Attributed (c : Cluster) : Prop where
  dead : ∀ j, (.dlq, .job j) ∈ c.world.bus → j.Refused c.world
  bounces : ∀ p ∈ c.procs, ∀ j, p.task = .bounce (.job j) → j.Refused c.world
  feedback : ∀ p ∈ c.procs, ∀ provider body addrs, p.task = .feedback provider body →
    body.parse = some (addrs, "hard_bounce") → ∀ a ∈ addrs, .notified (lower a) ∈ c.world.log
  listed : ∀ a cause, .listed a .hardBounce cause ∈ c.world.log → c.world.Blames a cause

theorem SuppressReason.ofText_hardBounce {s : String}
    (h : SuppressReason.ofText s = some .hardBounce) : s = "hard_bounce" := by
  unfold ofText at h
  split at h
  · assumption
  · split at h
    · cases h
    · split at h <;> cases h

/-- What a feedback body lists as hard bounces it reports as permanent ones, when its notification
    is about a permanent bounce. -/
theorem mem_permanent {body : Admin.Feedback} {addrs : List String} {a : String}
    (hty : ∀ ty as, body = .bounce ty as → ty = "Permanent")
    (h : body.parse = some (addrs, "hard_bounce")) (ha : a ∈ addrs) : a ∈ Task.permanent body := by
  cases body with
  | complaint as => exact absurd (Prod.mk.inj (Option.some_inj.mp h)).2 (by decide)
  | bounce ty as =>
    cases h
    rw [Task.permanent, if_pos (hty ty addrs rfl)]
    exact ha
  | addresses as reason =>
    obtain ⟨rfl, hreason⟩ := Prod.mk.inj (Option.some_inj.mp h)
    rw [Task.permanent, if_pos hreason]
    exact ha
  | other =>
    cases h
    cases ha
  | unparseable => cases h

section
variable {site : Site} {c c' : Cluster} {l : Label}

/-- The cause stays on record. -/
theorem World.Blames.mono {w w' : World} {a : String} {cause : Option MsgId}
    (h : w.Blames a cause) (hlog : ∀ e, e ∈ w.log → e ∈ w'.log) : w'.Blames a cause := by
  cases cause with
  | some id =>
    obtain ⟨r, hr, hlow⟩ := h
    exact ⟨r, hlog _ hr, hlow⟩
  | none => exact hlog _ h

/-- A suppression inserted with the reason `hard_bounce` has its cause on record: a bounce is that
    of a message for which the address was refused, a feedback body names the address. -/
theorem Cluster.Attributed.suppresses (h : c.Attributed) {p : Proc} {ph ph' : Phase}
    {addr reason source : String} {detail : Option String} {ok : Bool} (hin : p ∈ c.procs)
    (hturn : Turn p.task ph (.write (.addSuppression addr reason source detail)) ok ph')
    (hr : SuppressReason.ofText reason = some .hardBounce) :
    c.world.Blames (lower addr) p.task.bounced := by
  cases hturn with
  | suppress hmay =>
    cases hmay with
    | bounced ht hf ha =>
      rw [ht]
      exact h.bounces p hin _ ht hf addr ha
    | feedback ht hp ha =>
      rw [SuppressReason.ofText_hardBounce hr] at hp
      have hnamed := h.feedback p hin _ _ _ ht hp addr ha
      rw [ht]
      exact hnamed

/-- **Every hard bounce on record has its reason on record**, in every run that meets the
    condition. -/
theorem attributed_all (h : Reach (cluster site) attributed c) : c.Attributed := by
  refine h.invariant (I := fun c => c.Attributed) ?_ ?_
  · rintro c rfl
    refine ⟨fun j hm => absurd hm (Multiset.notMem_zero _), fun p hp => ?_, fun p hp => ?_,
      fun a cause hlisted => absurd hlisted List.not_mem_nil⟩
    · exact absurd hp (Multiset.notMem_zero p)
    · exact absurd hp (Multiset.notMem_zero p)
  · intro c l c' hr ih hguard hst
    have hmono : ∀ {j : RelayJob}, j.Refused c.world → j.Refused c'.world := by
      intro j hj hf a ha
      obtain ⟨r, hlog, hlow⟩ := hj hf a ha
      exact ⟨r, hst.log_subset hlog, hlow⟩
    refine ⟨fun j hm => ?_, fun p' hp' j ht => ?_, fun p' hp' provider body addrs ht hparse a ha => ?_,
      fun a cause hlisted => ?_⟩
    · rcases hst.job_cases hm with
        hm | ⟨p, wr, r, f, rfl, hf, hpub⟩ | ⟨q, -, -, hwork⟩ | ⟨p, hp, hheld, -⟩
      · exact hmono (ih.dead j hm)
      · cases wr with
        | publish q j' =>
          cases hpub
          exact hmono (hguard hf)
        | _ => cases hpub
      · cases hwork
      · refine hmono (ih.bounces p hp j ?_)
        rcases (procs_ok hr p hp).held with hn | ⟨hd, -⟩
        · rw [hn] at hheld
          cases hheld
        · rw [hd] at hheld
          generalize p.task = t at hheld ⊢
          cases t <;> cases hheld
          rfl
    · rcases hst.task_cases hp' with ⟨p, hp, hsame⟩ | ⟨-, hd⟩
      · exact hmono (ih.bounces p hp j (hsame ▸ ht))
      · exact hmono (ih.dead j (hd _ (by rw [ht]; rfl)))
    · rcases hst.task_cases hp' with ⟨p, hp, hsame⟩ | ⟨rfl, -⟩
      · exact hst.log_subset (ih.feedback p hp provider body addrs (hsame ▸ ht) hparse a ha)
      · rw [ht] at hguard hst
        have hty : ∀ ty as, body = .bounce ty as → ty = "Permanent" := by
          rintro ty as rfl
          exact hguard
        cases hst with
        | start _ _ =>
          refine List.mem_append_right _ (List.mem_map.mpr ⟨a, ?_, rfl⟩)
          exact mem_permanent hty hparse ha
    · rcases hst.event_cases hlisted with
        hold | ⟨t, -, hs⟩ | ⟨p, wr, r, f, rfl, hw⟩ | ⟨p, q, r, f, -, hq⟩ | ⟨p, ok, -, hf⟩
      · exact (ih.listed a cause hold).mono fun e he => hst.log_subset he
      · obtain ⟨_, _, _, -, -, he⟩ := Task.mem_markStart hs
        cases he
      · rcases Task.mem_markWrite hw with ⟨j, hj⟩ | ⟨_, he⟩ | ⟨_, _, _, _, _, -, he⟩ |
          ⟨addr, reason, source, detail, _, rfl, hreason, he⟩
        · rcases Task.mem_handedOver hj with he | he | ⟨_, -, he⟩ <;> cases he
        · cases he
        · cases he
        · cases he
          obtain ⟨hin, hturn⟩ := hst.turn hr
          exact (ih.suppresses hin hturn hreason).mono fun e he => hst.log_subset he
      · rcases Task.mem_markQuery hq with ⟨_, he⟩ | ⟨_, _, he⟩ | ⟨_, he⟩ <;> cases he
      · obtain ⟨_, -, he⟩ := Task.mem_markEnd hf
        cases he

/-- **Who is suppressed.**  In every run that meets the condition, and in which the providers answer
    as their code does: an address that was put on the suppression list as a hard bounce, for the
    bounce of a message, was refused in a `Send` of that very message by a peer, with a 5xx reply to
    the RCPT for that very address; and one that the feedback route put there was named by a
    notification of a permanent bounce. -/
theorem suppression_sound {ls : List Label} (hnet : ∀ p m r, site.net p m r → p.Replies m r)
    (h : Trace (cluster site) attributed ls c) :
    (∀ id a, .listed a .hardBounce (some id) ∈ c.world.log →
      ∃ l ∈ ls, ∃ r, l.Refuses id r ∧ lower r = a) ∧
    ∀ a, .listed a .hardBounce none ∈ c.world.log → .notified a ∈ c.world.log := by
  have hinv := attributed_all h.reach
  refine ⟨fun id a hlisted => ?_, fun a hlisted => hinv.listed a none hlisted⟩
  obtain ⟨r, hlog, hlow⟩ := hinv.listed a (some id) hlisted
  obtain ⟨l, hl, hrefuses⟩ := refusals hnet h hlog
  exact ⟨l, hl, r, hrefuses, hlow⟩

end

/-! ## Three suppressions -/

/-- The reply of a provider whose every peer answers in the same way. -/
def Provider.sendTo (u : Upstream) : Provider → Message → SendReply
  | .smtp cfg, m => smtpSend cfg u m
  | .gmail _, m => gmailSend none none u m
  | .direct _, m => (directSend (fun _ => none) (fun _ => deliverTo none u m) m).1

theorem Provider.sendTo_sends (u : Upstream) (p : Provider) (m : Message) :
    p.sends m (p.sendTo u m) := by
  cases p with
  | smtp cfg => exact ⟨u, rfl⟩
  | gmail cfg => exact ⟨none, none, u, rfl⟩
  | direct cfg => exact ⟨fun _ => none, fun _ => none, fun _ => u, rfl⟩

/-- No task on the stage is about to dead-letter a job whose recipients were not all refused. -/
def Stage.attributed (s : Stage) : Bool :=
  s.procs.all fun p =>
    match p.prog with
    | .call (.write (.publish .dlq j)) _ =>
      j.envelope.mailFrom = "" ||
        j.envelope.rcptTo.all fun a => s.world.log.any fun
          | .refused id r => id = j.messageID && lower r = lower a
          | _ => false
    | _ => true

theorem Stage.attributed_refused {s : Stage} (h : s.attributed = true) {p : Proc}
    (hp : p ∈ s.procs) {j : RelayJob} {k : Bool → Handler Bool}
    (hk : p.prog = .call (.write (.publish .dlq j)) k) : j.Refused s.world := by
  intro hfrom a ha
  have hproc := List.all_eq_true.mp h p hp
  rw [hk] at hproc
  rcases Bool.or_eq_true_iff.mp hproc with hnull | hall
  · exact absurd (of_decide_eq_true hnull) hfrom
  · obtain ⟨e, he, hmatch⟩ := List.any_eq_true.mp (List.all_eq_true.mp hall a ha)
    cases e with
    | refused id r =>
      obtain ⟨hid, hlow⟩ := Bool.and_eq_true_iff.mp hmatch
      obtain rfl := of_decide_eq_true hid
      exact ⟨r, he, of_decide_eq_true hlow⟩
    | _ => cases hmatch

/-- The cue posts no bounce notification but a permanent one. -/
def Cue.permanent : Cue → Bool
  | .start (.feedback _ (.bounce ty _)) => ty = "Permanent"
  | _ => true

/-- Both together are the condition. -/
theorem Stage.attributed_step {site : Site} {s : Stage} {q : Cue} {l : Label} {c' : Cluster}
    (hs : s.attributed = true) (hq : q.permanent = true) (hst : Step site s.cluster l c')
    (hl : q.labels l) : Novamail.attributed s.cluster l := by
  cases l with
  | start t =>
    cases q with
    | start t' =>
      obtain rfl : t = t' := hl
      cases t with
      | feedback provider body =>
        cases body with
        | bounce ty as =>
          have hty : ty = "Permanent" := of_decide_eq_true hq
          exact hty
        | _ => trivial
      | _ => trivial
    | _ => cases hl
  | op p o r f =>
    cases hst with
    | @op _ ps _ k _ _ _ hp hk hx =>
      have hin : p ∈ s.procs := by
        have hmem : p ∈ s.cluster.procs := by
          rw [hp]
          exact Multiset.mem_cons_self _ _
        exact Multiset.mem_coe.mp hmem
      cases o with
      | write w =>
        cases w with
        | publish queue j =>
          cases queue with
          | dlq => exact fun _ => Stage.attributed_refused hs hin hk
          | _ => trivial
        | _ => trivial
      | _ => trivial
  | _ => trivial

/-- A peer that does not know this recipient. -/
def unknownUsers : Upstream :=
  { rcpt := fun a => if a = "b@r.test" then some (.reply 550 "5.1.1 no such user") else none }

/-- A provider that requires the credentials of the relay. -/
def relayProvider : Provider :=
  newSMTP { name := "p1", addr := "mx.test:587", tlsMode := .starttls,
            username := "relay", password := "old", minTLSVersion := tls12 }

/-- Every domain is routed to it, and its peer answers so. -/
def relayOracle (u : Upstream) : Oracle Provider.sends :=
  plainOracle
    { engine := { dflt := some ["p1"] }
      instances := fun id => if id = "p1" then some relayProvider else none }
    (Provider.sendTo u) (Provider.sendTo_sends u)

/-- A message is submitted and fails, and its bounce is generated. -/
def failingScript (s : Ingress.Session) : List Cue :=
  [.start (.submit s [])] ++ Cue.calls 0 "m1" 7 ++
    [.start (.deliver (.job (Ingress.relayJob s "m1")))] ++ Cue.calls 0 "" 10 ++
    [.start (.bounce (.job (Ingress.relayJob s "m1")))] ++ Cue.calls 0 "" 3

/-- Its only recipient is refused; and a permanent bounce of another address is notified. -/
def refusedDeadScript : List Cue :=
  failingScript oneRecipient ++
    [.start (.feedback "ses" (.bounce "Permanent" ["c@r.test"]))] ++ Cue.calls 0 "" 1

/-- Both are suppressed: the one was refused for that message, the other was named. -/
theorem suppression_sound_refused : ∃ ls c,
    Trace (cluster (plainSite Provider.sends)) attributed ls c ∧
      .listed "b@r.test" .hardBounce (some "m1") ∈ c.world.log ∧
      .listed "c@r.test" .hardBounce none ∈ c.world.log ∧
      (∃ l ∈ ls, ∃ r, l.Refuses "m1" r ∧ lower r = "b@r.test") ∧
      .notified "c@r.test" ∈ c.world.log := by
  have hplay : (Stage.passing (plainSite Provider.sends) (relayOracle unknownUsers)
      Stage.attributed {} refusedDeadScript).any
      (fun s => .listed "b@r.test" .hardBounce (some "m1") ∈ s.world.log ∧
        .listed "c@r.test" .hardBounce none ∈ s.world.log) = true := by decide
  obtain ⟨s, hs, hend⟩ := (Option.any_eq_true _ _).mp hplay
  obtain ⟨hb, hc⟩ := of_decide_eq_true hend
  have hpermanent : ∀ q ∈ refusedDeadScript, q.permanent = true := by decide
  have hr : Reach (cluster (plainSite Provider.sends)) attributed s.cluster :=
    Stage.passing_reach (fun q hq s l c' hatt hst hl =>
      Stage.attributed_step hatt (hpermanent q hq) hst hl) Stage.empty_reach hs
  obtain ⟨ls, ht⟩ := hr.trace
  obtain ⟨hbounced, hnotified⟩ := suppression_sound (fun _ _ _ h => .summed h) ht
  exact ⟨ls, s.cluster, ht, hb, hc, hbounced "m1" _ hb, hnotified _ hc⟩

/-- The provider refuses the credentials of the relay. -/
def unauthorized : Upstream := { acquire := some (.reply 535 "5.7.8 authentication failed") }

/-- The entry says that somebody turned an address down. -/
def Event.blames : Event → Bool
  | .refused _ _ | .notified _ => true
  | _ => false

/-- A recipient nobody refused is suppressed. -/
theorem unauthorized_recipient_suppressed :
    ¬ ∀ (site : Site) (c : Cluster) (a : String) (cause : Option MsgId),
      site.net = Provider.sends → Reach (cluster site) calm c →
      .listed a .hardBounce cause ∈ c.world.log →
        (∃ id r, .refused id r ∈ c.world.log ∧ lower r = a) ∨ .notified a ∈ c.world.log := by
  intro hclaim
  have hplay : (Stage.script (plainSite Provider.sends) (relayOracle unauthorized) {}
      (failingScript oneRecipient)).any
      (fun s => .listed "b@r.test" .hardBounce (some "m1") ∈ s.world.log ∧
        ∀ e ∈ s.world.log, e.blames = false) = true := by decide
  obtain ⟨s, hs, hend⟩ := (Option.any_eq_true _ _).mp hplay
  obtain ⟨hlisted, hnone⟩ := of_decide_eq_true hend
  have hr := Stage.script_calm (by decide) hs
  rcases hclaim _ s.cluster "b@r.test" _ rfl hr hlisted with ⟨id, r, hlog, -⟩ | hlog
  · cases hnone _ hlog
  · cases hnone _ hlog

end Novamail

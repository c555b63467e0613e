/-
  What a send answers, call by call and at once.

  `Novamail.Providers.Send` gives the reply of a send as a function of a script of the peer's answers.
  Run against fixed answers, the programs of `Novamail.Providers.Wire` reply the same.
-/
import Novamail.Providers.Wire

namespace Novamail.Wire

open Novamail.Core

section
variable {E : Env} (p : Ref) (ans : (o : WireOp) → o.Ret)

@[simp] theorem eval_run (c : Nat) (v : Verb) :
    (run p c v).eval ans = ans ⟨p, .run c v⟩ := rfl
@[simp] theorem eval_dial (addr : String) (tls : Option TLSConfig) :
    (dial p addr tls).eval ans = ans ⟨p, .dial addr tls⟩ := rfl
@[simp] theorem eval_extension (c : Nat) (name : String) :
    (extension p c name).eval ans = ans ⟨p, .extension c name⟩ := rfl

/-- The answers on a connection as a script. -/
def script (acquired : Option NetErr) (c : Nat) (m : Message) : Upstream where
  acquire := acquired
  mail := ans ⟨p, .run c (.mail m.envelope.mailFrom)⟩
  rcpt r := ans ⟨p, .run c (.rcpt r)⟩
  data := ans ⟨p, .run c (.data m.body)⟩

theorem eval_rcpts (e : Option NetErr) (c : Nat) (m : Message) (rs : List String) :
    (rcpts p c rs).eval ans = (firstRefused (script p ans e c m) rs).map fun x =>
      { classify x.2 with refused := if x.2.permanent then some x.1 else none } := by
  induction rs with
  | nil => rfl
  | cons r rs ih =>
    unfold rcpts firstRefused
    rw [Prog.eval_bind, eval_run,
      show (script p ans e c m).rcpt r = ans ⟨p, .run c (.rcpt r)⟩ from rfl]
    cases ans ⟨p, .run c (.rcpt r)⟩ with
    | some e => rfl
    | none => exact ih

theorem eval_sendMail (e : Option NetErr) (c : Nat) (m : Message) :
    (sendMail p c m).eval ans = Novamail.sendMail (script p ans e c m) m.envelope := by
  unfold sendMail Novamail.sendMail
  rw [Prog.eval_bind, eval_run,
    show (script p ans e c m).mail = ans ⟨p, .run c (.mail m.envelope.mailFrom)⟩ from rfl]
  cases ans ⟨p, .run c (.mail m.envelope.mailFrom)⟩ with
  | some e => rfl
  | none =>
    show (rcpts p c m.envelope.rcptTo >>= _).eval ans = _
    rw [Prog.eval_bind, eval_rcpts p ans e c m]
    cases firstRefused (script p ans e c m) m.envelope.rcptTo with
    | some x => rfl
    | none => rfl

theorem eval_smtpSend (fuel : Nat) (cfg : SMTPConfig) (m : Message) {r : SendReply}
    (h : (smtpSend E.defaultMaxIdle fuel p cfg m).eval ans = some r) :
    ∃ u, r = Novamail.smtpSend cfg u m := by
  unfold smtpSend at h
  unfold Novamail.smtpSend
  by_cases hplain : cfg.username ≠ "" ∧ cfg.tlsMode = .none
  · rw [if_pos hplain] at h
    refine ⟨{}, ?_⟩
    rw [if_pos hplain]
    exact (Option.some.inj h).symm
  · rw [if_neg hplain, Prog.eval_bind] at h
    simp only [if_neg hplain]
    cases hacq : (acquire p cfg fuel).eval ans with
    | none =>
      rw [hacq] at h
      cases h
    | some got =>
      rw [hacq] at h
      cases got with
      | error e => exact ⟨script p ans (some e) 0 m, (Option.some.inj h).symm⟩
      | ok c =>
        refine ⟨script p ans none c m, ?_⟩
        dsimp only at h
        rw [Prog.eval_bind, eval_sendMail p ans none c m] at h
        have hacquire : (script p ans none c m).acquire = none := rfl
        simp only [hacquire]
        cases hmail : Novamail.sendMail (script p ans none c m) m.envelope with
        | some r' =>
          rw [hmail] at h
          exact (Option.some.inj h).symm
        | none =>
          rw [hmail] at h
          dsimp only at h
          rw [Prog.eval_bind, eval_run] at h
          cases hreset : ans ⟨p, .run c .reset⟩ with
          | some e => 
            rw [hreset] at h
            exact (Option.some.inj h).symm
          | none =>
            rw [hreset] at h
            dsimp only at h
            rw [Prog.eval_bind] at h
            exact (Option.some.inj h).symm

theorem eval_gmailSend (cfg : GmailConfig) (m : Message) :
    ∃ token dial u, (gmailSend p cfg m).eval ans = Novamail.gmailSend token dial u m := by
  unfold gmailSend
  rw [Prog.eval_bind]
  cases (accessToken p cfg).eval ans with
  | error e => exact ⟨some e, none, {}, rfl⟩
  | ok tok =>
    dsimp only
    rw [Prog.eval_bind, eval_dial]
    cases ans ⟨p, .dial cfg.addr none⟩ with
    | error e => exact ⟨none, some e, {}, rfl⟩
    | ok c =>
      dsimp only
      rw [Prog.eval_bind, eval_run]
      cases ans ⟨p, .run c (.startTLS ⟨hostOnly cfg.addr, false, tls12⟩)⟩ with
      | some e => exact ⟨none, some e.text, {}, rfl⟩
      | none =>
        dsimp only
        rw [Prog.eval_bind, eval_run]
        cases ans ⟨p, .run c (.auth (.xoauth2 cfg.user tok))⟩ with
        | some e => exact ⟨none, none, { acquire := some e }, rfl⟩
        | none =>
          refine ⟨none, none, script p ans none c m, ?_⟩
          dsimp only
          rw [Prog.eval_bind, eval_sendMail p ans none c m]
          have hacquire : (script p ans none c m).acquire = none := rfl
          simp only [Novamail.gmailSend, hacquire]
          cases Novamail.sendMail (script p ans none c m) m.envelope with
          | some r => rfl
          | none => rfl

theorem eval_transact (c : Nat) (m : Message) :
    (transact p c m).eval ans = Novamail.deliverTo none (script p ans none c m) m := by
  unfold transact
  rw [Prog.eval_bind, eval_sendMail p ans none c m]
  simp only [Novamail.deliverTo]
  cases Novamail.sendMail (script p ans none c m) m.envelope with
  | some r => rfl
  | none => rfl

theorem eval_deliverTo (dh : String) (cfg : DirectConfig) (m : Message) (host : String) :
    ∃ starttls u, (deliverTo dh p cfg m host).eval ans = Novamail.deliverTo starttls u m := by
  unfold deliverTo
  rw [Prog.eval_bind, eval_dial]
  cases ans ⟨p, .dial (mxAddr host) none⟩ with
  | error e => exact ⟨none, { acquire := some (.network e) }, rfl⟩
  | ok c =>
    dsimp only
    rw [Prog.eval_bind, eval_run]
    cases ans ⟨p, .run c .greeting⟩ with
    | some e => exact ⟨none, { acquire := some e }, rfl⟩
    | none =>
      dsimp only
      rw [Prog.eval_bind, eval_run]
      cases ans ⟨p, .run c (.hello (if cfg.helo ≠ "" then cfg.helo else dh))⟩ with
      | some e => exact ⟨none, { acquire := some e }, rfl⟩
      | none =>
        dsimp only
        rw [Prog.eval_bind, eval_extension]
        cases ans ⟨p, .extension c "STARTTLS"⟩ with
        | false => exact ⟨none, _, eval_transact p ans c m⟩
        | true =>
          rw [if_pos rfl, Prog.eval_bind, eval_run]
          cases ans ⟨p, .run c (.startTLS ⟨host, true, minVer cfg.minTLSVersion⟩)⟩ with
          | some e => exact ⟨some e.text, {}, rfl⟩
          | none => exact ⟨none, _, eval_transact p ans c m⟩

theorem eval_directLoop (dh : String) (cfg : DirectConfig) (m : Message)
    {host : String → SendReply} (hhost : ∀ h, (deliverTo dh p cfg m h).eval ans = host h)
    (hosts : List String) (last : SendReply) :
    (directLoop dh p cfg m hosts last).eval ans = (Novamail.directLoop host hosts last).1 := by
  induction hosts generalizing last with
  | nil => rfl
  | cons h hs ih =>
    unfold directLoop Novamail.directLoop
    rw [Prog.eval_bind, hhost]
    cases hout : (host h).outcome with
    | delivered =>
      show ({ host h with outcome := .delivered, err := none } : SendReply) =
        { host h with err := none }
      rw [← hout]
    | fail => rfl
    | defer => exact ih _

/-- **A send answers as `Send` does.**  Where every call has a fixed answer, the reply is one that
    the reply-level model gives to the message. -/
theorem send_sends (fuel : Nat) (m : Message) {r : SendReply}
    (h : (send E fuel p m).eval ans = some r) : p.provider.sends m r := by
  unfold send at h
  cases hp : p.provider with
  | smtp cfg =>
    rw [hp] at h
    exact eval_smtpSend p ans fuel cfg m h
  | gmail cfg =>
    rw [hp] at h
    dsimp only at h
    rw [map_eq_pure_bind, Prog.eval_bind] at h
    obtain ⟨token, dial, u, hu⟩ := eval_gmailSend p ans cfg m
    exact ⟨token, dial, u, (Option.some.inj h).symm.trans hu⟩
  | direct cfg =>
    rw [hp] at h
    dsimp only at h
    rw [map_eq_pure_bind, Prog.eval_bind] at h
    choose starttls u hu using eval_deliverTo p ans E.directHELO cfg m
    refine ⟨fun _ => ans ⟨p, .lookupMX (recipientDomain m.envelope.rcptTo)⟩, starttls, u, ?_⟩
    rw [← Option.some.inj h]
    unfold directSend Novamail.directSend
    dsimp only
    split
    · rfl
    · exact eval_directLoop p ans E.directHELO cfg m hu _ _

end

end Novamail.Wire

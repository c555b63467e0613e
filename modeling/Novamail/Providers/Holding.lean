/-
  What the programs of the providers have in hand.

  Each method keeps to `Permits`: it opens or takes a connection only with empty hands, calls only
  on the connection it has, and ends with empty hands.  It is proved once per method, by walking its
  text, and it is all that the results about runs of the worker know of the methods.
-/
import Novamail.Providers.Wire

namespace Novamail.Wire

open Novamail.Core

variable {E : Env} {p : Ref} {c : Nat} {tls bare : Bool} {α β : Type}

/-! ## One call -/

/-- Letting go of a connection. -/
theorem eraseP_held (x : Held) (h : List Held) :
    List.eraseP (fun y : Held => y.conn = x.conn) (x :: h) = h :=
  List.eraseP_cons_of_pos (decide_eq_true rfl)

/-- A command that leaves in hand what was in hand. -/
theorem run_keeps {v : Verb} {f : Option NetErr → Wired α} {fin : List Held → α → Prop}
    (hfits : v.Fits p.provider tls bare) (hv : ∀ cfg, v ≠ .startTLS cfg)
    (hk : ∀ e, (f e).Obeys (holding E) fin [⟨p, c, tls, bare⟩]) :
    (run p c v >>= f).Obeys (holding E) fin [⟨p, c, tls, bare⟩] := by
  refine Prog.obeys_lift_bind.mpr ⟨⟨tls, bare, rfl, hfits⟩, fun e => ?_⟩
  have hnext : WireOp.next [⟨p, c, tls, bare⟩] ⟨p, .run c v⟩ e = [⟨p, c, tls, bare⟩] := by
    cases v with
    | startTLS cfg => exact absurd rfl (hv cfg)
    | _ => rfl
  show (f e).Obeys (holding E) fin (WireOp.next _ ⟨p, .run c v⟩ e)
  rw [hnext]
  exact hk e

/-- The end of a connection. -/
theorem close_ends {f : Unit → Wired α} {fin : List Held → α → Prop}
    (hk : (f ()).Obeys (holding E) fin []) :
    (close p c >>= f).Obeys (holding E) fin [⟨p, c, tls, bare⟩] := by
  refine Prog.obeys_lift_bind.mpr ⟨⟨tls, bare, List.mem_singleton_self _⟩, fun _ => ?_⟩
  have hnext := eraseP_held ⟨p, c, tls, bare⟩ []
  show (f ()).Obeys (holding E) fin (List.eraseP (fun x : Held => x.conn = c) [⟨p, c, tls, bare⟩])
  rw [hnext]
  exact hk

/-- STARTTLS: under TLS if it succeeds. -/
theorem startTLS_secures {cfg : TLSConfig} {f : Option NetErr → Wired α}
    {fin : List Held → α → Prop} (hcfg : cfg.minVersion = p.provider.floor)
    (hok : (f none).Obeys (holding E) fin [⟨p, c, true, bare⟩])
    (hfail : ∀ e, (f (some e)).Obeys (holding E) fin [⟨p, c, tls, bare⟩]) :
    (run p c (.startTLS cfg) >>= f).Obeys (holding E) fin [⟨p, c, tls, bare⟩] := by
  refine Prog.obeys_lift_bind.mpr ⟨⟨tls, bare, rfl, hcfg⟩, fun e => ?_⟩
  cases e with
  | none => exact hok
  | some e => exact hfail e

/-- A connection that is dialled in the clear. -/
theorem dial_opens {addr : String} {f : Except String Nat → Wired α}
    {fin : List Held → α → Prop} (hok : ∀ c, (f (.ok c)).Obeys (holding E) fin [⟨p, c, false, false⟩])
    (hfail : ∀ e, (f (.error e)).Obeys (holding E) fin []) :
    (dial p addr none >>= f).Obeys (holding E) fin [] := by
  refine Prog.obeys_lift_bind.mpr ⟨⟨rfl, nofun⟩, fun r => ?_⟩
  cases r with
  | error e => exact hfail e
  | ok c => exact hok c

/-! ## Both SMTP clients -/

theorem rcpts_holding (hmet : p.provider.cover.Met tls bare) (rs : List String) :
    (rcpts p c rs).Obeys (holding E) (fun h _ => h = [⟨p, c, tls, bare⟩]) [⟨p, c, tls, bare⟩] := by
  induction rs with
  | nil => rfl
  | cons r rs ih =>
    refine run_keeps hmet nofun fun e => ?_
    cases e with
    | some e => rfl
    | none => exact ih

theorem sendMail_holding (hmet : p.provider.cover.Met tls bare) (m : Message) :
    (sendMail p c m).Obeys (holding E) (fun h _ => h = [⟨p, c, tls, bare⟩])
      [⟨p, c, tls, bare⟩] := by
  refine run_keeps hmet nofun fun e => ?_
  cases e with
  | some e => rfl
  | none =>
    refine (rcpts_holding hmet _).bind ?_
    rintro _ r rfl
    cases r with
    | some r => rfl
    | none => exact run_keeps hmet nofun fun _ => rfl

/-! ## `smtp.go` -/

/-- Empty hands after an error, else a connection that may carry messages. -/
def Ready (p : Ref) (h : List Held) : Except NetErr Nat → Prop
  | .error _ => h = []
  | .ok c => ∃ tls bare, h = [⟨p, c, tls, bare⟩] ∧ p.provider.cover.Met tls bare

section
variable {cfg : SMTPConfig} (hp : p.provider = .smtp cfg)
include hp

theorem cover_always (hmode : cfg.tlsMode ≠ .none) : p.provider.cover = .always := by
  rw [hp]
  exact if_neg hmode

theorem met_of_tls (bare : Bool) : p.provider.cover.Met true bare := by
  rw [hp]
  show (if cfg.tlsMode = .none then Cover.never else .always).Met true bare
  split <;> trivial

theorem dialConn_holding : (dialConn p cfg).Obeys (holding E) (Ready p) [] := by
  have hfloor : minVer cfg.minTLSVersion = p.provider.floor := by rw [hp]; rfl
  unfold dialConn
  refine Prog.obeys_lift_bind.mpr ⟨⟨rfl, ?_⟩, fun r => ?_⟩
  · intro t ht
    split at ht
    · cases ht
      exact hfloor
    · cases ht
  · cases r with
    | error e => rfl
    | ok c =>
      show Prog.Obeys (holding E) (Ready p) [⟨p, c, Option.isSome _, false⟩] (if _ then _ else _)
      by_cases hstart : cfg.tlsMode = .starttls
      · -- STARTTLS, or the connection is closed again
        rw [if_pos hstart]
        exact startTLS_secures hfloor ⟨true, _, rfl, met_of_tls hp _⟩ fun e => close_ends rfl
      · rw [if_neg hstart]
        refine ⟨_, _, rfl, ?_⟩
        cases hmode : cfg.tlsMode with
        | starttls => exact absurd hmode hstart
        | implicit => exact met_of_tls hp _
        | none =>
          rw [hp]
          show (if cfg.tlsMode = .none then Cover.never else .always).Met _ _
          rw [if_pos hmode]
          trivial

theorem greet_holding (hplain : ¬ (cfg.username ≠ "" ∧ cfg.tlsMode = .none))
    (hmet : p.provider.cover.Met tls bare) :
    (greet p cfg c).Obeys (holding E) (fun h _ => h = [⟨p, c, tls, bare⟩])
      [⟨p, c, tls, bare⟩] := by
  have hhello : (if cfg.helo ≠ "" then run p c (.hello cfg.helo) else pure none : Wired _).Obeys
      (holding E) (fun h _ => h = [⟨p, c, tls, bare⟩]) [⟨p, c, tls, bare⟩] := by
    split
    · exact run_keeps trivial nofun fun _ => rfl
    · rfl
  refine hhello.bind ?_
  rintro _ e rfl
  cases e with
  | some e => rfl
  | none =>
    dsimp only
    split
    · rename_i huser
      -- a user name is only ever presented under TLS
      have halways := cover_always hp fun h => hplain ⟨huser, h⟩
      rw [halways] at hmet
      exact run_keeps hmet nofun fun _ => rfl
    · rfl

theorem dialReady_holding (hplain : ¬ (cfg.username ≠ "" ∧ cfg.tlsMode = .none)) :
    (dialReady p cfg).Obeys (holding E) (Ready p) [] := by
  refine (dialConn_holding hp).bind ?_
  intro h r hr
  cases r with
  | error e => exact hr
  | ok c =>
    obtain ⟨tls, bare, rfl, hmet⟩ := hr
    refine (greet_holding hp hplain hmet).bind ?_
    rintro _ e rfl
    cases e with
    | some e => exact close_ends rfl
    | none => exact ⟨tls, bare, rfl, hmet⟩

theorem acquire_holding (hplain : ¬ (cfg.username ≠ "" ∧ cfg.tlsMode = .none)) (fuel : Nat) :
    (acquire p cfg fuel).Obeys (holding E) (fun h r => (r.elim (h = []) (Ready p h))) [] := by
  induction fuel with
  | zero => rfl
  | succ fuel ih =>
    refine Prog.obeys_lift_bind.mpr ⟨rfl, fun r => ?_⟩
    cases r with
    | none => exact (dialReady_holding hp hplain).bind fun _ _ hr => hr
    | some c =>
      refine run_keeps trivial nofun fun e => ?_
      cases e with
      | some e => exact close_ends ih
      | none =>
        refine ⟨_, _, rfl, ?_⟩
        rw [hp]
        show (if cfg.tlsMode = .none then Cover.never else .always).Met _ _
        split
        · trivial
        · rename_i hmode
          exact decide_eq_true (if_neg hmode)

theorem release_holding (hmet : p.provider.cover.Met tls bare) :
    (release p (maxIdle E.defaultMaxIdle cfg) c).Obeys (holding E) (fun h _ => h = [])
      [⟨p, c, tls, bare⟩] := by
  refine Prog.obeys_lift_bind.mpr ⟨⟨tls, bare, rfl, hmet, by rw [hp]; rfl⟩, fun r => ?_⟩
  cases r with
  | true =>
    show List.eraseP (fun x : Held => x.conn = c) [⟨p, c, tls, bare⟩] = []
    exact eraseP_held ⟨p, c, tls, bare⟩ []
  | false => exact close_ends rfl

theorem smtpSend_holding (fuel : Nat) (m : Message) :
    (smtpSend E.defaultMaxIdle fuel p cfg m).Obeys (holding E) (fun h _ => h = []) [] := by
  unfold smtpSend
  split
  · rfl
  · rename_i hplain
    refine (acquire_holding hp hplain fuel).bind ?_
    intro h r hr
    cases r with
    | none => exact hr
    | some r =>
      cases r with
      | error e => exact hr
      | ok c =>
        obtain ⟨tls, bare, rfl, hmet⟩ := hr
        refine (sendMail_holding hmet m).bind ?_
        rintro _ r rfl
        cases r with
        | some r => exact close_ends rfl
        | none =>
          refine run_keeps trivial nofun fun e => ?_
          cases e with
          | some e => exact close_ends rfl
          | none =>
            refine (release_holding hp hmet).bind ?_
            rintro _ _ rfl
            rfl

theorem verify_holding : (verify p cfg).Obeys (holding E) (fun h _ => h = []) [] := by
  unfold verify
  split
  · rfl
  · rename_i hplain
    refine (dialConn_holding hp).bind ?_
    intro h r hr
    cases r with
    | error e => exact hr
    | ok c =>
      obtain ⟨tls, bare, rfl, hmet⟩ := hr
      refine (greet_holding hp hplain hmet).bind ?_
      rintro _ e rfl
      exact close_ends rfl

end

theorem closeAll_holding (cs : List Nat) :
    (closeAll p cs).Obeys (holding E) (fun h _ => h = []) (cs.map (pooled p)) := by
  induction cs with
  | nil => rfl
  | cons c cs ih =>
    refine Prog.obeys_lift_bind.mpr ⟨⟨_, _, List.mem_cons_self⟩, fun _ => ?_⟩
    show (closeAll p cs).Obeys (holding E) _
      (List.eraseP (fun x => x.conn = c) (pooled p c :: cs.map (pooled p)))
    have hnext := eraseP_held (pooled p c) (cs.map (pooled p))
    rw [show (pooled p c).conn = c from rfl] at hnext
    rw [hnext]
    exact ih

theorem closePool_holding : (closePool p).Obeys (holding E) (fun h _ => h = []) [] :=
  Prog.obeys_lift_bind.mpr ⟨rfl, fun cs => closeAll_holding cs⟩

/-! ## `gmail.go` -/

theorem gmailSend_holding {cfg : GmailConfig} (hp : p.provider = .gmail cfg) (m : Message) :
    (gmailSend p cfg m).Obeys (holding E) (fun h _ => h = []) [] := by
  have htoken : (accessToken p cfg).Obeys (holding E) (fun h _ => h = []) [] := by
    refine Prog.obeys_lift_bind.mpr ⟨rfl, fun t => ?_⟩
    cases t with
    | some t => rfl
    | none => exact ⟨⟨rfl, cfg, hp, rfl⟩, fun _ => rfl⟩
  refine htoken.bind ?_
  rintro _ r rfl
  cases r with
  | error e => rfl
  | ok tok =>
    refine dial_opens (fun c => ?_) fun e => rfl
    refine startTLS_secures (by rw [hp]; rfl) ?_ fun e => close_ends rfl
    refine run_keeps rfl nofun fun e => ?_
    cases e with
    | some e => exact close_ends rfl
    | none =>
      have hmet : p.provider.cover.Met true false := by rw [hp]; rfl
      refine (sendMail_holding hmet m).bind ?_
      rintro _ r rfl
      exact close_ends rfl

/-! ## `direct.go` -/

theorem transact_holding (hmet : p.provider.cover.Met tls bare) (m : Message) :
    (transact p c m).Obeys (holding E) (fun h _ => h = []) [⟨p, c, tls, bare⟩] := by
  refine (sendMail_holding hmet m).bind ?_
  rintro _ r rfl
  cases r with
  | some r => exact close_ends rfl
  | none => exact run_keeps trivial nofun fun _ => close_ends rfl

section
variable {cfg : DirectConfig} (hp : p.provider = .direct cfg) (dh : String) (m : Message)
include hp

theorem deliverTo_holding (host : String) :
    (deliverTo dh p cfg m host).Obeys (holding E) (fun h _ => h = []) [] := by
  have hcover : p.provider.cover = .offered := by rw [hp]; rfl
  refine dial_opens (fun c => ?_) fun e => rfl
  refine run_keeps trivial nofun fun e => ?_
  cases e with
  | some e => exact close_ends rfl
  | none =>
    refine run_keeps trivial nofun fun e => ?_
    cases e with
    | some e => exact close_ends rfl
    | none =>
      refine Prog.obeys_lift_bind.mpr ⟨⟨_, _, rfl⟩, fun offered => ?_⟩
      cases offered with
      | false =>
        -- without the offer the message may go in the clear
        exact transact_holding (by rw [hcover]; exact .inr rfl) m
      | true =>
        refine startTLS_secures (by rw [hp]; rfl) ?_ fun e => close_ends rfl
        exact transact_holding (by rw [hcover]; exact .inl rfl) m

theorem directLoop_holding (hosts : List String) (last : SendReply) :
    (directLoop dh p cfg m hosts last).Obeys (holding E) (fun h _ => h = []) [] := by
  induction hosts generalizing last with
  | nil => rfl
  | cons host hosts ih =>
    refine (deliverTo_holding hp dh m host).bind ?_
    rintro _ r rfl
    split
    · rfl
    · rfl
    · exact ih _

theorem directSend_holding :
    (directSend dh p cfg m).Obeys (holding E) (fun h _ => h = []) [] := by
  unfold directSend
  dsimp only
  split
  · rfl
  · exact Prog.obeys_lift_bind.mpr ⟨rfl, fun mxs => directLoop_holding hp dh m _ _⟩

end

/-! ## The worker -/

theorem send_holding (fuel : Nat) (m : Message) :
    (send E fuel p m).Obeys (holding E) (fun h _ => h = []) [] := by
  unfold send
  split
  · rename_i cfg hp
    exact smtpSend_holding hp fuel m
  · rename_i cfg hp
    exact (gmailSend_holding hp m).bind fun _ _ h => h
  · rename_i cfg hp
    exact (directSend_holding hp _ m).bind fun _ _ h => h

theorem relay_holding (fuel : Nat) (m : Message) (chain : List Ref) :
    (relay E fuel m chain).Obeys (holding E) (fun h _ => h = []) [] := by
  induction chain with
  | nil => rfl
  | cons p ps ih =>
    refine Prog.obeys_lift_bind.mpr ⟨rfl, fun pace => ?_⟩
    cases pace with
    | stop => rfl
    | skip => exact ih
    | go =>
      refine (send_holding fuel m).bind ?_
      rintro _ r rfl
      cases r with
      | none => rfl
      | some r =>
        dsimp only
        split
        · rfl
        · exact ih

/-- **Every task keeps to the discipline, and ends with empty hands.** -/
theorem body_holding (t : Task) : (t.body E).Obeys (holding E) (fun h _ => h = []) [] := by
  cases t with
  | relay chain m fuel => exact relay_holding fuel m chain
  | verify p =>
    unfold Task.body
    dsimp only
    split
    · rename_i cfg hp
      exact (verify_holding hp).bind fun _ _ h => h
    · rfl
    · rfl
  | close p =>
    unfold Task.body
    dsimp only
    split
    · exact closePool_holding
    · rfl
    · rfl

end Novamail.Wire

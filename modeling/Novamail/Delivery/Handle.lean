/-
  `worker.handle` of `cmd/delivery/main.go`: one delivery from the work queue.

  The message is read into memory, the chain of the current snapshot is tried in order, and the
  delivery is settled in exactly one of the ways the source has: acked after a Delivered, moved to
  a wait tier or the DLQ and then acked, nacked back, or rejected when it does not parse.
-/
import Novamail.World.Calls

namespace Novamail.Delivery

open Novamail.Core

/-- `maxRateBlock`: 5 s in nanoseconds. -/
def maxRateBlock : Nat := 5000000000

/-- `materialize`: the body, DKIM-signed when there is a key for the sender domain; none is an
    error. -/
def materialize (job : RelayJob) : Handler (Option Bytes) := do
  match ← ask (.get job.bodyRef.key) with
  | none => pure none
  | some body =>
    let st ← ask .loadState
    match st.signerFor job.routingHints.senderDomain with
    | some sgn => ask (.sign sgn body)
    | none => pure (some body)

/-- `toDLQ`. -/
def toDLQ (job : RelayJob) : Handler Unit := do
  if ← write (.publish .dlq job) then settle .ack else settle (.nack true)

/-- `defer_`: the next tier, or the DLQ when the tiers are exhausted.  A failed publish puts the
    delivery itself back, with its old attempt. -/
def defer_ (job : RelayJob) (detail : String) : Handler Unit := do
  ask (.inc .deferred)
  let _ ← write (.recordAttempt job.messageID .deferred .deferred "" detail)
  let job := { job with attempt := job.attempt + 1 }
  match tierForAttempt job.attempt with
  | some tier =>
    if ← write (.publish tier.queue job) then settle .ack else settle (.nack true)
  | none => toDLQ job

/-- Whether a limiter lets the caller go on now. -/
inductive Pace where
  /-- Go on. -/
  | go
  /-- The backlog is above `maxRateBlock`; the reservation was cancelled. -/
  | over
  /-- The deadline came while waiting; the reservation was cancelled. -/
  | expired
  deriving DecidableEq

/-- `Reserve` and the wait that follows it, the same for both limiters. -/
def pace (g : Gate) (l : Limiter) (key : String) : Handler Pace := do
  match ← ask (.reserve g l key) with
  | none => pure .go
  | some delay =>
    if maxRateBlock < delay then do
      ask .cancel
      pure .over
    else if 0 < delay then do
      if ← ask (.sleep delay) then pure .go
      else do
        ask .cancel
        pure .expired
    else pure .go

/-- The outcome `handle` acts on: an error is never read as a delivery. -/
def settledOutcome (r : SendReply) : Outcome :=
  if r.err.isSome ∧ r.outcome = .delivered then .defer else r.outcome

/-- The detail `handle` records. -/
def settledDetail (r : SendReply) : String :=
  if r.err.isSome ∧ r.outcome = .delivered ∧ r.detail = "" then r.err.getD "" else r.detail

/-- The chain loop; `sawDefer`, `lastProvider` and `lastDetail` are its accumulators. -/
def tryChain (st : RouteState) (job : RelayJob) (raw : Bytes) :
    List Provider → (sawDefer : Bool) → (lastProvider lastDetail : String) → Handler Unit
  | [], sawDefer, lastProvider, lastDetail =>
    if sawDefer then defer_ job (lastProvider ++ ": " ++ lastDetail)
    else do
      -- the whole chain failed permanently
      ask (.inc .failed)
      let _ ← write (.recordAttempt job.messageID .failed .failed lastProvider lastDetail)
      toDLQ job
  | p :: ps, sawDefer, _, _ => do
    match ← pace .provider st.provLimiter p.name with
    | .over => tryChain st job raw ps true p.name "provider rate limit exceeded"
    | .expired => settle (.nack true)
    | .go =>
      let res ← ask (.send p { envelope := job.envelope, body := raw })
      match settledOutcome res with
      | .delivered => do
        ask (.inc .relayed)
        let _ ← write (.recordAttempt job.messageID .relayed .relayed p.name (settledDetail res))
        let _ ← write (.delete job.bodyRef.key)
        settle .ack
      | .defer => tryChain st job raw ps true p.name (settledDetail res)
      | .fail => tryChain st job raw ps sawDefer p.name (settledDetail res)

/-- `handle` after the JSON was parsed. -/
def handleJob (job : RelayJob) : Handler Unit := do
  match ← materialize job with
  | none => settle (.nack true)
  | some raw =>
    let st ← ask .loadState
    let chain := st.chain job.routingHints
    if chain.isEmpty then defer_ job "no matching routing rule"
    else
      match ← pace .domain st.limiter job.routingHints.recipientDomain with
      | .over => defer_ job ("rate limited: " ++ job.routingHints.recipientDomain)
      | .expired => settle (.nack true)
      | .go => tryChain st job raw chain false "" ""

/-- `handle`: a job that does not parse is dropped. -/
def handle : Wire → Handler Unit
  | .garbage => settle (.reject false)
  | .job job => handleJob job

end Novamail.Delivery

/-
  The RabbitMQ topology of `internal/amqp/amqp.go`: one work queue, three wait queues with a TTL
  that dead-letters back to the work exchange, and the DLQ the bounce generator consumes.
-/
import Novamail.Model.Message

namespace Novamail

/-- The queues: `relay.work.q`, `wait.30s`, `wait.5m`, `wait.30m`, `relay.dlq`. -/
inductive Queue where
  | work | wait30s | wait5m | wait30m | dlq
  deriving DecidableEq, Repr

/-- A wait queue: its messages return to the work queue when their TTL is over. -/
def Queue.isWait : Queue → Bool
  | .wait30s | .wait5m | .wait30m => true
  | .work | .dlq => false

/-- `WaitTier`: a queue and its TTL in seconds. -/
structure WaitTier where
  queue : Queue
  ttl : Nat
  deriving DecidableEq, Repr

/-- `WaitTiers`, the backoff schedule. -/
def waitTiers : List WaitTier := [⟨.wait30s, 30⟩, ⟨.wait5m, 300⟩, ⟨.wait30m, 1800⟩]

/-- `TierForAttempt`: the tier of an (already incremented) attempt, none when the schedule is
    exhausted. -/
def tierForAttempt (attempt : Int) : Option WaitTier :=
  let idx := attempt - 1
  if idx < 0 ∨ waitTiers.length ≤ idx then none else waitTiers[idx.toNat]?

theorem waitTiers_isWait : ∀ t ∈ waitTiers, t.queue.isWait = true := by decide

/-- A tier is a wait queue: a deferral never publishes to the work queue or the DLQ. -/
theorem tierForAttempt_isWait {a : Int} {t : WaitTier} (h : tierForAttempt a = some t) :
    t.queue.isWait = true := by
  unfold tierForAttempt at h
  dsimp only at h
  split at h
  · cases h
  · exact waitTiers_isWait t (List.mem_of_getElem? h)

example : tierForAttempt 0 = none := by decide
example : tierForAttempt 3 = some ⟨.wait30m, 1800⟩ := by decide
example : tierForAttempt 4 = none := by decide

end Novamail

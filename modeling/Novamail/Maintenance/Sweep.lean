/-
  `cmd/maintenance/main.go`: the retention sweep.

  Old terminal rows are pruned, the bodies that a live row refers to are read once, and every
  other body that the store lists is deleted.
-/
import Novamail.World.Calls

namespace Novamail.Maintenance

open Novamail.Core

/-- The callback of `Walk` over a listing: delete what is not active; the count is `swept`. -/
def sweepBodies (active : List String) : List String → Nat → Handler Nat
  | [], swept => pure swept
  | id :: rest, swept =>
    if active.contains id then sweepBodies active rest swept
    else do
      if ← write (.delete id) then sweepBodies active rest (swept + 1)
      else sweepBodies active rest swept

/-- `main`: the number of bodies swept, none when it exits because of a failed query. -/
def main : Handler (Option Nat) := do
  let days ← ask (.settingInt "retention_days")
  let _ ← write (.pruneOld (days.getD 30))
  match ← ask .activeBodyRefs with
  | none => pure none
  | some active => do
    let listing ← ask .walk
    let swept ← sweepBodies active listing.1 0
    pure (some swept)

end Novamail.Maintenance

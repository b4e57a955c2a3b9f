import Outbox.Record

/-!
The methods of a record. Each changes the record in place, field by field, and can stop part way.
-/

namespace Outbox.Record

/-- Why a method stops. What it had changed before stays changed. -/
inductive Stop where
  | refused (e : OutboxError)
  | counterFull
deriving DecidableEq

/-- Work on a record in place. -/
abbrev InPlace := EStateM Stop Record

inductive Method where
  | lock (owner : MachineId) (takenOn : Instant)
  | releaseLock
  | startAttempt (now : Instant)
  | markDelivered (now : Instant)
  | markFailed (error : String) (policy : RetrialPolicy)
deriving DecidableEq

namespace Method

def checkPending (target : State) : InPlace Unit := do
  match (← get).ensurePending target with
  | .ok () => pure ()
  | .error e => throw (.refused e)

def body : Method → InPlace Unit
  | lock owner takenOn => modify (·.locked owner takenOn)
  | releaseLock => modify unlocked
  | startAttempt now => do
    modify fun r => { r with lastAttemptOn := some now }
    if (← get).attempts < maxAttempts then
      modify fun r => { r with attempts := r.attempts + 1 }
    else throw .counterFull
  | markDelivered now => do
    checkPending .delivered
    modify fun r => { r with state := .delivered }
    modify fun r => { r with processedOn := some now }
    modify unlocked
  | markFailed error policy => do
    let target := (← get).stateAfterFailure policy
    checkPending target
    modify unlocked
    modify fun r => { r with error := some error }
    modify fun r => { r with state := target }

/-- How the method ends, and what has become of the record. -/
def run (m : Method) (r : Record) : Except Stop Unit × Record :=
  match m.body.run r with
  | .ok () r => (.ok (), r)
  | .error stop r => (.error stop, r)

end Method

end Outbox.Record

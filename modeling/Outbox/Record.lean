import Outbox.Error
import Outbox.Message

/-!
Outbox records: a message with the state of its delivery.
-/

namespace Outbox

/-- Owner and time stand together: a record has both or neither. -/
structure Lock where
  owner : MachineId
  takenOn : Instant
deriving DecidableEq

structure Record where
  id : RecordId
  message : Message
  createdOn : Instant
  state : State := .pending
  lock : Option Lock := none
  processedOn : Option Instant := none
  attempts : Nat := 0
  lastAttemptOn : Option Instant := none
  /-- The text of the last failed attempt. -/
  error : Option String := none
deriving DecidableEq

namespace Record

def new (id : RecordId) (message : Message) (createdOn : Instant) : Record :=
  { id, message, createdOn }

def owner? (r : Record) : Option MachineId := r.lock.map Lock.owner

def lockedOn? (r : Record) : Option Instant := r.lock.map Lock.takenOn

def isLocked (r : Record) : Bool := r.lock.isSome

def locked (r : Record) (owner : MachineId) (takenOn : Instant) : Record :=
  { r with lock := some ⟨owner, takenOn⟩ }

def unlocked (r : Record) : Record := { r with lock := none }

/-- What the attempt counter can hold, in 32 bits. -/
def maxAttempts : Nat := 4294967295

/-- Stamps and counts an attempt, unless the counter is full. -/
def startAttempt (r : Record) (now : Instant) : Option Record :=
  if r.attempts < maxAttempts then
    some { r with lastAttemptOn := some now, attempts := r.attempts + 1 }
  else none

/-- Only a pending record moves. -/
def ensurePending (r : Record) (target : State) : Except OutboxError Unit :=
  if r.state.isTerminal then .error (.invalidTransition r.id r.state target) else .ok ()

def markDelivered (r : Record) (now : Instant) : Except OutboxError Record := do
  r.ensurePending .delivered
  return { r with state := .delivered, processedOn := some now, lock := none }

/-- Where a failure at this count leads. -/
def stateAfterFailure (r : Record) (policy : RetrialPolicy) : State :=
  if policy.isExhausted r.attempts then .exhausted else .pending

def markFailed (r : Record) (error : String) (policy : RetrialPolicy) : Except OutboxError Record := do
  r.ensurePending (r.stateAfterFailure policy)
  return { r with lock := none, error := some error, state := r.stateAfterFailure policy }

end Record

end Outbox

import Outbox.Message.Blob
import Outbox.Record
import Outbox.Sql.Statement

/-!
Rows of the relational store: how a record is spread over the columns, and how it is read back.
-/

namespace Outbox.Sql

/-- Columns that may be NULL are options. -/
structure Row where
  id : RecordId
  data : List UInt8
  state : Int
  createdOn : Instant
  lockedBy : Option String
  lockedOn : Option Instant
  processedOn : Option Instant
  attempts : Int
  lastAttemptedOn : Option Instant
  error : Option String
deriving DecidableEq

def Value.ofText? : Option String → Value
  | some s => text s
  | none => null

def Value.ofTime? : Option Instant → Value
  | some t => time t
  | none => null

namespace Row

def value (r : Row) : Column → Value
  | .id => .uuid r.id
  | .data => .bytes r.data
  | .state => .int r.state
  | .createdOn => .time r.createdOn
  | .lockedBy => .ofText? r.lockedBy
  | .lockedOn => .ofTime? r.lockedOn
  | .processedOn => .ofTime? r.processedOn
  | .attempts => .int r.attempts
  | .lastAttemptedOn => .ofTime? r.lastAttemptedOn
  | .error => .ofText? r.error

def ofRecord (r : Record) (data : List UInt8) : Row where
  id := r.id
  data := data
  state := r.state.number
  createdOn := r.createdOn
  lockedBy := r.owner?.map MachineId.text
  lockedOn := r.lockedOn?
  processedOn := r.processedOn
  attempts := r.attempts
  lastAttemptedOn := r.lastAttemptOn
  error := r.error

/-- Only an owner and a time together make a lock. -/
def lock (r : Row) : Option Lock :=
  match r.lockedBy, r.lockedOn with
  | some owner, some takenOn => some ⟨⟨owner⟩, takenOn⟩
  | _, _ => none

def readError (fault : StoreFault) : OutboxError := .store "outbox.postgres.decode_row" fault

/-- Checks the state first, then the attempts, then the message. -/
def record (r : Row) : Except OutboxError Record := do
  let some state := State.ofNumber? r.state | throw (readError (.unknownState r.state))
  if r.attempts < 0 then throw (readError (.negativeAttempts r.attempts))
  let message ← Message.decode r.data
  return {
    id := r.id, message, state, createdOn := r.createdOn, lock := r.lock, processedOn := r.processedOn
    attempts := r.attempts.toNat, lastAttemptOn := r.lastAttemptedOn, error := r.error }

end Row

end Outbox.Sql

import Outbox.Record

/-!
The calls that the outbox makes to its store, each with the kind of answer it gets.
-/

namespace Outbox

inductive Answer where
  | count | records | done
deriving DecidableEq

abbrev Answer.Val : Answer → Type
  | count => Nat
  | records => List Record
  | done => Unit

inductive Operation where
  | add | fetch | claim | save | unlockBefore | release | removeBefore | removeFinishedBefore
deriving DecidableEq

namespace Operation

def name : Operation → String
  | add => "add_record_tx"
  | fetch => "get_records_by_lock_id"
  | claim => "update_record_lock_by_state"
  | save => "update_record_by_id"
  | unlockBefore => "clear_locks_with_duration_before_date"
  | release => "clear_locks_by_lock_id"
  | removeBefore => "remove_records_before_datetime"
  | removeFinishedBefore => "remove_finished_records_before_datetime"

def all : List Operation :=
  [add, fetch, claim, save, unlockBefore, release, removeBefore, removeFinishedBefore]

def ofName? (s : String) : Option Operation := all.find? (·.name = s)

end Operation

inductive Call : Answer → Type where
  /-- The records locked by this owner, the oldest first. -/
  | fetch (owner : MachineId) : Call .records
  /-- Locks every unlocked record in that state. -/
  | claim (owner : MachineId) (now : Instant) (state : State) : Call .count
  /-- Replaces the stored record with the same id. -/
  | save (record : Record) : Call .done
  /-- Releases the locks taken before the cutoff, whoever owns them. -/
  | unlockBefore (cutoff : Instant) : Call .count
  /-- Releases the locks of this owner. -/
  | release (owner : MachineId) : Call .count
  /-- Deletes the records created before the cutoff. -/
  | removeBefore (cutoff : Instant) : Call .count
  /-- Deletes those of them that are in a terminal state. -/
  | removeFinishedBefore (cutoff : Instant) : Call .count
deriving DecidableEq

def Call.operation {a : Answer} : Call a → Operation
  | fetch .. => .fetch
  | claim .. => .claim
  | save .. => .save
  | unlockBefore .. => .unlockBefore
  | release .. => .release
  | removeBefore .. => .removeBefore
  | removeFinishedBefore .. => .removeFinishedBefore

end Outbox

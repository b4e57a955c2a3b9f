import Outbox.Calendar
import Outbox.Record
import Outbox.Text.Lossy

/-!
What the outbox reports about its work: each entry has a level, a message and named values.
-/

namespace Outbox

inductive LogLevel where
  | debug | info | warn | error
deriving DecidableEq

def LogLevel.name : LogLevel → String
  | debug => "DEBUG" | info => "INFO" | warn => "WARN" | error => "ERROR"

inductive Task where
  | processor | unlocker | cleaner
deriving DecidableEq

def Task.name : Task → String
  | processor => "processor" | unlocker => "unlocker" | cleaner => "cleaner"

inductive LogValue where
  | text (s : String)
  | number (n : Nat)
  | flag (b : Bool)
deriving DecidableEq

def LogValue.render : LogValue → String
  | text s => s
  | number n => toString n
  | flag b => if b then "true" else "false"

inductive LogEntry where
  | recordEnqueued (id : RecordId) (topic : String)
  | recordsClaimed (machine : MachineId) (claimed fetched : Nat)
  | recordDelivered (id : RecordId) (attempts : Nat)
  | recordGivenUp (id : RecordId) (attempts : Nat)
  | locksReleased (machine : MachineId) (count : Nat)
  | releaseFailed (machine : MachineId) (error : OutboxError)
  | locksExpired (count : Nat) (cutoff : Instant)
  | recordsRemoved (count : Nat) (cutoff : Instant) (finishedOnly : Bool)
  | batchDelivered (machine : MachineId) (claimed delivered : Nat)
  | taskStarted (task : Task) (periodMillis : Nat)
  | iterationFailed (task : Task) (error : OutboxError)
  | taskStopped (task : Task)
  | dispatcherStarted (machine : MachineId)
  | dispatcherStopped (machine : MachineId)
  | messageSent (message : Message)
  /-- No database is named, so that records are kept in memory. -/
  | memoryStoreUsed
  | interrupted
deriving DecidableEq

namespace LogEntry

/-- A failed delivery is expected and is already on record; any other failure is not. -/
def level : LogEntry → LogLevel
  | recordEnqueued .. | recordsClaimed .. | recordDelivered .. | locksReleased .. => .debug
  | taskStarted .. | taskStopped .. => .debug
  | recordsRemoved .. | batchDelivered .. | messageSent .. => .info
  | dispatcherStarted .. | dispatcherStopped .. | memoryStoreUsed | interrupted => .info
  | recordGivenUp .. | locksExpired .. => .warn
  | releaseFailed .. => .error
  | iterationFailed _ e => if e.isDelivery then .warn else .error

def message : LogEntry → String
  | recordEnqueued .. => "record enqueued"
  | recordsClaimed .. => "claimed records"
  | recordDelivered .. => "record delivered"
  | recordGivenUp .. => "giving up on record, max send attempts reached"
  | locksReleased .. => "released unprocessed locks"
  | releaseFailed .. => "failed to release locks"
  | locksExpired .. => "released expired record locks"
  | recordsRemoved .. => "removed expired records"
  | batchDelivered .. => "delivered records"
  | taskStarted .. => "periodic task started"
  | iterationFailed .. => "iteration failed"
  | taskStopped .. => "periodic task stopped"
  | dispatcherStarted .. => "dispatcher started"
  | dispatcherStopped .. => "dispatcher stopped"
  | messageSent .. => "message sent"
  | memoryStoreUsed => "DATABASE_URL not set, using in-memory store"
  | interrupted => "ctrl-c received, shutting down"

def target : LogEntry → String
  | recordEnqueued .. => "ferry_core::app::publisher"
  | recordsClaimed .. | recordDelivered .. | recordGivenUp .. => "ferry_core::app::processor"
  | locksReleased .. | releaseFailed .. => "ferry_core::app::processor"
  | locksExpired .. => "ferry_core::app::unlocker"
  | recordsRemoved .. => "ferry_core::app::cleaner"
  | batchDelivered .. | taskStarted .. | iterationFailed .. | taskStopped .. => "ferry_core::app::dispatcher"
  | dispatcherStarted .. | dispatcherStopped .. => "ferry_core::app::dispatcher"
  | messageSent .. => "ferry_core::impls::log_broker"
  | memoryStoreUsed | interrupted => "ferry"

def fields : LogEntry → List (String × LogValue)
  | recordEnqueued id topic => [("record_id", .text id.text), ("topic", .text topic)]
  | recordsClaimed m claimed fetched =>
    [("machine_id", .text m.text), ("claimed", .number claimed), ("fetched", .number fetched)]
  | recordDelivered id attempts | recordGivenUp id attempts =>
    [("record_id", .text id.text), ("attempts", .number attempts)]
  | locksReleased m n => [("machine_id", .text m.text), ("released", .number n)]
  | releaseFailed m e => [("machine_id", .text m.text), ("error", .text e.message)]
  | locksExpired n cutoff => [("unlocked", .number n), ("expiry", .text cutoff.text)]
  | recordsRemoved n cutoff finishedOnly =>
    [("removed", .number n), ("expiry", .text cutoff.text), ("terminal_only", .flag finishedOnly)]
  | batchDelivered m claimed delivered =>
    [("machine_id", .text m.text), ("claimed", .number claimed), ("delivered", .number delivered)]
  | taskStarted task period => [("task", .text task.name), ("period", .text (periodText period))]
  | iterationFailed task e => [("task", .text task.name), ("error", .text e.message)]
  | taskStopped task => [("task", .text task.name)]
  | dispatcherStarted m | dispatcherStopped m => [("machine_id", .text m.text)]
  | messageSent m =>
    [("topic", .text m.topic), ("key", .text m.key), ("headers", .number m.headers.size),
      ("body_len", .number m.body.length), ("body", .text (lossyText m.body))]
  | memoryStoreUsed | interrupted => []

def line (e : LogEntry) : String :=
  e.fields.foldl (fun s f => s ++ " " ++ f.1 ++ "=" ++ f.2.render) e.message

end LogEntry

end Outbox

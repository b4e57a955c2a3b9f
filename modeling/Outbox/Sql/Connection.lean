import Outbox.Broker
import Outbox.Event
import Outbox.Housekeeping
import Outbox.Pass
import Outbox.Publisher
import Outbox.Sql.Adapter

/-!
The relational store at work on a database whose replies are given beforehand, under observation.
-/

namespace Outbox.Sql

inductive Sent where
  | begin
  | commit
  | rollback
  | statement (s : Statement)

structure Connection where
  now : Instant
  /-- How many ids the publisher has given out. -/
  issued : Nat := 0
  /-- One for each statement to come; any further ones find nothing. -/
  replies : List Reply := []
  broker : Broker := .accepting
  /-- The latest first. -/
  sent : List Sent := []
  /-- The latest first. -/
  seen : List Event := []

namespace Connection

def note (c : Connection) (s : Sent) : Connection := { c with sent := s :: c.sent }

def see (c : Connection) (e : Event) : Connection := { c with seen := e :: c.seen }

def log (c : Connection) (e : LogEntry) : Connection := c.see (.log e)

def execute (s : Statement) (c : Connection) : Reply × Connection :=
  let c := c.note (.statement s)
  match c.replies with
  | r :: rs => (r, { c with replies := rs })
  | [] => (.ok {}, c)

def call {a : Answer} (k : Call a) (c : Connection) : Except OutboxError a.Val × Connection :=
  Sql.call execute .sorted k c

def send (m : Message) (c : Connection) : Option (Except BrokerError Unit) × Connection :=
  let (o, entries, broker) := c.broker.take m
  let c := entries.foldl log ({ c with broker }.see (.send "" m))
  match c.now.shift? (o.advanceMillis * 1000000) with
  | none => (none, c)
  | some now => (some o.answer, { c with now })

def host : Host Connection := { now := fun c => some c.now, call, send, log }

/-- Runs one piece of work in a transaction of its own, which is undone if the work fails. -/
def inTransaction {α : Type} (c : Connection) (work : Connection → Except OutboxError α × Connection) :
    Except OutboxError α × Connection :=
  match work (c.note .begin) with
  | (.ok a, c) => (.ok a, c.note .commit)
  | (.error e, c) => (.error e, c.note .rollback)

def add (c : Connection) (r : Record) : Except OutboxError Unit × Connection :=
  Sql.add execute .sorted r c

def publish (c : Connection) (m : Message) : Except OutboxError RecordId × Connection :=
  let id := RecordId.nth (c.issued + 1)
  let c := { c with issued := c.issued + 1 }
  let (result, c') := c.add (.new id m c.now)
  match Outbox.publish (fun _ => result) id m c.now with
  | .ok (id, (), entry) => (.ok id, c'.log entry)
  | .error e => (.error e, c')

def migrate (c : Connection) : Except OutboxError Unit × Connection := Sql.migrate execute c

/-! ## Steps -/

inductive Step where
  | migrate
  | advance (nanos : Int)
  | add (record : Record)
  | send (message : Message)
  | call {a : Answer} (k : Call a)
  | process (machine : MachineId) (policy : RetrialPolicy) (broker : Broker)
  | unlock (ageMillis : Nat)
  | clean (ageMillis : Nat) (finishedOnly : Bool)

inductive Result where
  | done
  /-- The step could not be carried through. -/
  | brokenOff
  | failed (e : OutboxError)
  | id (id : RecordId)
  | time (now : Instant)
  | value {a : Answer} (v : a.Val)
  | report (report : Report)

def Result.ofExcept {α : Type} (f : α → Result) : Except OutboxError α → Result
  | .ok a => f a
  | .error e => .failed e

def Result.ofOutcome {α : Type} (f : α → Result) : Option (Except OutboxError α) → Result
  | some result => ofExcept f result
  | none => brokenOff

def perform (c : Connection) : Step → Result × Connection
  | .migrate => (c.migrate).map (.ofExcept fun _ => .done) id
  | .advance nanos =>
    match c.now.shift? nanos with
    | some now => (.time now, { c with now })
    | none => (.brokenOff, c)
  | .add r => (c.inTransaction fun c => c.add r).map (.ofExcept fun _ => .done) id
  | .send m => (c.inTransaction fun c => c.publish m).map (.ofExcept .id) id
  | .call k => (c.call k).map (.ofExcept .value) id
  | .process machine policy broker =>
    (deliverBatch host ⟨machine, policy⟩ { c with broker }).map (.ofOutcome .report) id
  | .unlock age =>
    ((Sweep.unlocking (ofMillis age)).run host c).map (.ofOutcome fun n => .value (a := .count) n) id
  | .clean age finishedOnly =>
    ((Sweep.cleaning (ofMillis age) finishedOnly).run host c).map
      (.ofOutcome fun n => .value (a := .count) n) id

def step (c : Connection) (replies : List Reply) (s : Step) :
    Result × List Sent × List Event × Connection :=
  let (result, c) := { c with replies, sent := [], seen := [] }.perform s
  (result, c.sent.reverse, c.seen.reverse, c)

end Connection

end Outbox.Sql

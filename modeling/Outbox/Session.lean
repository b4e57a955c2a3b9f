import Outbox.Housekeeping
import Outbox.Pass
import Outbox.Publisher
import Outbox.Store.Transaction
import Outbox.Trial

/-!
Sessions: one store in memory, one clock that is moved by hand, one publisher that numbers its
records, and whoever works on them, step by step.
-/

namespace Outbox

structure Session where
  store : Store := .empty
  now : Instant
  /-- How many ids the publisher has given out. -/
  issued : Nat := 0
  transactions : List (String × Transaction) := []

namespace Session

inductive Step where
  | begin (tx : String)
  | drop (tx : String)
  | commit (tx : String)
  | staged (tx : String)
  | add (tx : String) (record : Record)
  | send (tx : String) (message : Message) (faults : List Fault)
  | set (now : Instant)
  | advance (nanos : Int)
  | now
  | access (a : Access)
  | process (machine : MachineId) (policy : RetrialPolicy) (broker : Broker) (faults : List Fault)
  | unlock (ageMillis : Nat) (faults : List Fault)
  | clean (ageMillis : Nat) (finishedOnly : Bool) (faults : List Fault)

inductive Reply where
  | done
  /-- The step could not be carried through; what it had done before stays. -/
  | brokenOff
  | failed (e : OutboxError)
  | id (id : RecordId)
  | staged (records : List Record)
  | time (now : Instant)
  | access (result : AccessResult)
  | report (report : Report)
  | count (n : Nat)

def Reply.ofExcept {α : Type} (f : α → Reply) : Except OutboxError α → Reply
  | .ok a => f a
  | .error e => .failed e

def transaction (s : Session) (tx : String) : Transaction := (s.transactions.lookup tx).getD {}

def close (s : Session) (tx : String) : Session :=
  { s with transactions := s.transactions.filter (·.1 ≠ tx) }

def setTransaction (s : Session) (tx : String) (t : Transaction) : Session :=
  { s with transactions := (tx, t) :: (s.close tx).transactions }

def trial (s : Session) (broker : Broker) (faults : List Fault) : Trial :=
  { store := s.store, now := some s.now, broker, faults }

def after (s : Session) (t : Trial) : Session × List Event :=
  ({ s with store := t.store, now := t.now.getD s.now }, t.seen.reverse)

def work {α : Type} (s : Session) (broker : Broker) (faults : List Fault)
    (f : Trial → Option (Except OutboxError α) × Trial) (reply : α → Reply) :
    Reply × Session × List Event :=
  let (result, t) := f (s.trial broker faults)
  (result.elim .brokenOff (.ofExcept reply), s.after t)

/-- A failed send uses up its id as well. -/
def send (s : Session) (tx : String) (m : Message) (faults : List Fault) :
    Reply × Session × List Event :=
  let id := RecordId.nth (s.issued + 1)
  let s := { s with issued := s.issued + 1 }
  let record := Record.new id m s.now
  let add (r : Record) : Except OutboxError Transaction :=
    match (Fault.strike .add faults).1 with
    | some e => .error e
    | none => .ok ((s.transaction tx).add r)
  match publish add id m s.now with
  | .ok (id, t, entry) => (.id id, s.setTransaction tx t, [.add "" record (.ok ()), .log entry])
  | .error e => (.failed e, s, [.add "" record (.error e)])

def step (s : Session) : Step → Reply × Session × List Event
  | .begin tx => (.done, s.setTransaction tx {}, [])
  | .drop tx => (.done, s.close tx, [])
  | .commit tx =>
    let (result, store) := s.store.commit (s.transaction tx)
    (.ofExcept (fun _ => .done) result, { s.close tx with store }, [])
  | .staged tx => (.staged (s.transaction tx).staged, s, [])
  | .add tx r => (.done, s.setTransaction tx ((s.transaction tx).add r), [])
  | .send tx m faults => s.send tx m faults
  | .set now => (.time now, { s with now }, [])
  | .advance nanos =>
    match s.now.shift? nanos with
    | some now => (.time now, { s with now }, [])
    | none => (.brokenOff, s, [])
  | .now => (.time s.now, s, [])
  | .access a =>
    let (result, store) := s.store.access a
    (.access result, { s with store }, [])
  | .process machine policy broker faults =>
    s.work broker faults (deliverBatch (Trial.host "") ⟨machine, policy⟩) .report
  | .unlock age faults => s.work .accepting faults ((Sweep.unlocking (ofMillis age)).run (Trial.host "")) .count
  | .clean age finishedOnly faults =>
    s.work .accepting faults ((Sweep.cleaning (ofMillis age) finishedOnly).run (Trial.host "")) .count

end Session

end Outbox

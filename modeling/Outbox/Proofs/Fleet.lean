import Mathlib.Logic.Function.Basic
import Outbox.Housekeeping
import Outbox.Pass
import Outbox.Publisher
import Outbox.Store.Transaction

/-!
# Fleets

Any number of workers run delivery passes on one store in memory, while publishers stage and commit
records and sweeps release locks and delete records. Each action is one clock reading, one store call,
one half of a send or one move of a publisher, and the actions come in any order. The history keeps
what the statements about runs speak of.
-/

namespace Outbox

/-- What each worker calls itself, and the policy that all share. Two workers may have one name. -/
structure Fleet where
  machine : Nat → MachineId
  policy : RetrialPolicy

namespace Fleet

def settings (f : Fleet) (k : Nat) : Pass.Settings := ⟨f.machine k, f.policy⟩

/-- The name of worker `k` is `k` letters long. -/
def numbered (policy : RetrialPolicy) : Fleet where
  machine k := ⟨String.ofList (List.replicate k 'm')⟩
  policy

theorem numbered_injective (policy : RetrialPolicy) : Function.Injective (numbered policy).machine := by
  intro j k h
  simp only [numbered, MachineId.mk.injEq, String.ofList_inj] at h
  simpa using congrArg List.length h

end Fleet

/-- Something that has happened. `k` is the worker that did it. -/
inductive Occurrence where
  | committed (r : Record)
  | fetched (k : Nat)
  | handedOver (k : Nat) (id : RecordId) (m : Message)
  | answered (k : Nat) (id : RecordId) (m : Message) (a : Except BrokerError Unit)
  | saved (k : Nat) (r : Record)
  /-- A sweep at the time `now` deleted the record. -/
  | removed (s : Sweep) (now : Instant) (r : Record)

def Occurrence.ofCall (k : Nat) : {a : Answer} → Call a → Except OutboxError a.Val → List Occurrence
  | _, .fetch _, .ok _ => [fetched k]
  | _, .save r, .ok _ => [saved k r]
  | _, _, _ => []

/-- `k` is the worker that moves, `tx` the transaction that is meant. A call with a fault fails and has
no other effect. -/
inductive Action where
  | begin (tx : Nat)
  | publish (tx : Nat) (id : RecordId) (m : Message) (now : Instant) (fault : Option OutboxError)
  | commit (tx : Nat)
  | drop (tx : Nat)
  | sweep (s : Sweep) (now : Instant) (fault : Option OutboxError)
  | start (k : Nat)
  | read (k : Nat) (now : Instant)
  | call (k : Nat) (fault : Option OutboxError)
  | handOver (k : Nat)
  | answer (k : Nat) (a : Except BrokerError Unit)
  | crash (k : Nat)

structure World where
  store : Store
  /-- Every id that was ever given to a record. -/
  issued : List RecordId
  /-- The open transactions. -/
  staged : Nat → Option Transaction := fun _ => none
  pass : Nat → Pass := fun _ => .halted
  /-- Whether the message of the pass is with the broker. -/
  awaiting : Nat → Bool := fun _ => false
  /-- The latest first. -/
  history : List Occurrence

namespace Pass

def underWay? : Pass → Option Record
  | sending _ r _ | accepted _ r _ | saving _ r _ _ => some r
  | _ => none

end Pass

def Store.call {a : Answer} (fault : Option OutboxError) (c : Call a) (s : Store) :
    Except OutboxError a.Val × Store :=
  match fault with
  | some e => (.error e, s)
  | none => s.perform c

def Store.host (now : Instant) (fault : Option OutboxError) : Host Store where
  now _ := some now
  call := Store.call fault
  send _ s := (none, s)
  log s _ := s

def Transaction.tryAdd (fault : Option OutboxError) (tx : Transaction) (r : Record) :
    Except OutboxError Transaction :=
  match fault with
  | some e => .error e
  | none => .ok (tx.add r)

namespace World

variable (f : Fleet) (w : World)

/-- All workers stand still, and all that is stored counts as committed. -/
def start (s : Store) : World where
  store := s
  issued := s.records.map Record.id
  history := s.records.map .committed

def setPass (k : Nat) (p : Pass) : World := { w with pass := Function.update w.pass k p }

def setStaged (tx : Nat) (t : Option Transaction) : World :=
  { w with staged := Function.update w.staged tx t }

def setAwaiting (k : Nat) (b : Bool) : World := { w with awaiting := Function.update w.awaiting k b }

def note (os : List Occurrence) : World := { w with history := os ++ w.history }

def lost (s t : Store) : List Record := s.records.filter fun r => (t.get? r.id).isNone

/-- What an action does. One that is not possible leaves the world as it is. -/
def step : Action → World
  | .begin tx => w.setStaged tx (some {})
  | .publish tx id m now fault =>
    match w.staged tx with
    | none => w
    | some t =>
      if id ∈ w.issued then w
      else
        -- A publish that fails has used up its id as well.
        let w := { w with issued := id :: w.issued }
        match publish (t.tryAdd fault) id m now with
        | .ok (_, t, _) => w.setStaged tx (some t)
        | .error _ => w
  | .commit tx =>
    match w.staged tx with
    | none => w
    | some t =>
      match w.store.commit t with
      | (.ok (), store) => { w.setStaged tx none with store }.note (t.staged.map .committed)
      | (.error _, store) => { w.setStaged tx none with store }
  | .drop tx => w.setStaged tx none
  | .sweep s now fault =>
    let (_, store) := s.run (Store.host now fault) w.store
    { w with store }.note ((lost w.store store).map (.removed s now))
  | .start k => if ((w.pass k).next (f.settings k)).isNone then w.setPass k .opening else w
  | .read k now =>
    match (w.pass k).next (f.settings k) with
    | some (.now resume) => w.setPass k (resume now)
    | _ => w
  | .call k fault =>
    match (w.pass k).next (f.settings k) with
    | some (.call c resume) =>
      let (a, store) := w.store.call fault c
      ({ w with store }.setPass k (resume a).1).note (Occurrence.ofCall k c a)
    | _ => w
  | .handOver k =>
    match (w.pass k).next (f.settings k), (w.pass k).underWay? with
    | some (.send m _), some r =>
      if w.awaiting k then w else (w.setAwaiting k true).note [.handedOver k r.id m]
    | _, _ => w
  | .answer k a =>
    match (w.pass k).next (f.settings k), (w.pass k).underWay? with
    | some (.send m resume), some r =>
      if w.awaiting k then ((w.setAwaiting k false).setPass k (resume a)).note [.answered k r.id m a]
      else w
    | _, _ => w
  | .crash k => (w.setAwaiting k false).setPass k .halted

def run (as : List Action) : World := as.foldl (step f) w

/-- Every action of the run meets the condition in the world that it finds. -/
def Along (ok : World → Action → Prop) : World → List Action → Prop
  | _, [] => True
  | w, a :: as => ok w a ∧ Along ok (w.step f a) as

end World

end Outbox

import Outbox.Config
import Outbox.Housekeeping
import Outbox.Pass
import Outbox.Periodic
import Outbox.Trial

/-!
Dispatchers: three periodic tasks of one machine, the delivery pass and the two sweeps, each in a loop
of its own.
-/

namespace Outbox

/-- A delivery in the middle of an iteration: the pass waits for what the broker comes to. -/
structure Flight where
  pass : Pass
  outcome : Outcome

namespace Loop

def pending : Loop Flight → Nat
  | inFlight _ f _ => f.pass.waiting
  | _ => 0

end Loop

structure Dispatcher where
  name : String
  machine : MachineId
  config : Config
  /-- A clock that stands still, in place of the passing time. -/
  clock : Option Instant := none
  faults : List Fault := []
  broker : Broker := .accepting
  signal : StopSignal := {}
  /-- Whether a loop that finds its tick due at a time when nobody can stop it any more goes on. -/
  lingers : Task → Nat → Bool := fun _ _ => true
  processor : Loop Flight
  unlocker : Loop Flight
  cleaner : Loop Flight

namespace Dispatcher

def settings (d : Dispatcher) : Pass.Settings := ⟨d.machine, d.config.retrialPolicy⟩

/-- Goes on with a pass as far as it gets without time passing. -/
def deliver (d : Dispatcher) (p : Pass) (t : Trial) : Job.Progress Flight × Trial :=
  let (p, t) := p.advance (Trial.patientHost d.name) d.settings { t with awaited := none }
  match t.awaited, p.result? with
  | some o, _ => (.awaits ⟨p, o⟩, t)
  | none, none => (.over none, t)
  | none, some (.error e) => (.over (some (.error e)), t)
  | none, some (.ok report) =>
    (.over (some (.ok ())),
      if 0 < report.delivered then t.log (.batchDelivered d.machine report.claimed report.delivered) else t)

def sweep (d : Dispatcher) (s : Sweep) (t : Trial) : Job.Progress Flight × Trial :=
  let (result, t) := s.run (Trial.patientHost d.name) t
  (.over (result.map (·.map fun _ => ())), t)

def iterate (d : Dispatcher) : Task → Trial → Job.Progress Flight × Trial
  | .processor, t => d.deliver .opening t
  | .unlocker, t => d.sweep (.unlocking (ofMillis d.config.maxLockTime)) t
  | .cleaner, t => d.sweep (.cleaning (ofMillis d.config.retention) d.config.cleanupFinishedOnly) t

def resume (d : Dispatcher) (p : Pass) (o : Outcome) (t : Trial) : Job.Progress Flight × Trial :=
  d.deliver (p.receive d.settings o.answer) (o.effects.foldl Trial.effect t)

/-- A failed iteration is only logged. -/
def report (task : Task) (t : Trial) : Except OutboxError Unit → Trial
  | .ok () => t
  | .error e => t.log (.iterationFailed task e)

/-- A task as a job. -/
def job (d : Dispatcher) (task : Task) : Job Flight Trial where
  iterate := d.iterate task
  resume f t := d.resume f.pass f.outcome t
  delay f := f.outcome.delayMillis
  report ending t := report task t ending
  quit t := t.log (.taskStopped task)

/-- What one loop does at the time `now`, as far as it gets without time passing. -/
def settleLoop (d : Dispatcher) (task : Task) (now : Nat) (l : Loop Flight) (t : Trial) : Loop Flight × Trial :=
  (d.job task).settle d.signal (d.lingers task now) now l t

def isEnded (d : Dispatcher) : Bool := d.processor.isEnded && d.unlocker.isEnded && d.cleaner.isEnded

def wake? (d : Dispatcher) (now : Nat) : Option Nat :=
  ([d.processor.wake?, d.unlocker.wake?, d.cleaner.wake?].filterMap fun w => w.filter (now < ·)).min?

def trial (d : Dispatcher) (store : Store) (now : Option Instant) : Trial :=
  { store, now := d.clock <|> now, faults := d.faults, broker := d.broker }

def settleLoops (d : Dispatcher) (now : Nat) (t : Trial) : Dispatcher × Trial :=
  let (processor, t) := d.settleLoop .processor now d.processor t
  let (unlocker, t) := d.settleLoop .unlocker now d.unlocker t
  let (cleaner, t) := d.settleLoop .cleaner now d.cleaner t
  ({ d with processor, unlocker, cleaner, faults := t.faults, broker := t.broker }, t)

def startLoop (d : Dispatcher) (task : Task) (period now : Nat) (l : Loop Flight) (t : Trial) :
    Loop Flight × Trial :=
  d.settleLoop task now l (t.log (.taskStarted task period))

def startLoops (d : Dispatcher) (now : Nat) (t : Trial) : Dispatcher × Trial :=
  let (processor, t) := d.startLoop .processor d.config.processInterval now d.processor t
  let (unlocker, t) := d.startLoop .unlocker d.config.lockCheckerInterval now d.unlocker t
  let (cleaner, t) := d.startLoop .cleaner d.config.cleanupInterval now d.cleaner t
  ({ d with processor, unlocker, cleaner, faults := t.faults, broker := t.broker }, t)

end Dispatcher

end Outbox

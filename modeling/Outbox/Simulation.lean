import Outbox.Dispatcher

/-!
Simulations: a store in memory and any number of dispatchers on virtual time, which is counted in
milliseconds and passes only as far as it is told to.
-/

namespace Outbox

/-- How a dispatcher was started. -/
inductive Mode where
  | spawned
  /-- By someone who waits until it has stopped; `told` once the stop signal has reached it. -/
  | running (told : Bool)
  /-- By someone who waited, and is done. -/
  | stopped
deriving DecidableEq

structure Running where
  dispatcher : Dispatcher
  mode : Mode
  /-- Whether the name of the dispatcher still stands for it. -/
  named : Bool := true

namespace Running

def answersTo (r : Running) (name : String) : Bool := r.named && r.dispatcher.name = name

def signal (r : Running) (f : StopSignal → StopSignal) : Running :=
  { r with dispatcher := { r.dispatcher with signal := f r.dispatcher.signal } }

def forget (r : Running) : Running := { r with named := false }

end Running

structure Simulation where
  /-- The instant at which virtual time is zero. -/
  epoch : Instant
  /-- By what waits end. -/
  timer : Timer := .limited
  time : Nat := 0
  store : Store := .empty
  running : List Running := []
  /-- What was seen so far and when, the latest first. -/
  seen : List (Nat × Event) := []

namespace Simulation

def now (s : Simulation) : Option Instant := s.epoch.shift? (ofMillis s.time)

def atTime (s : Simulation) (time : Nat) : Simulation := { s with time }

def attend (r : Running) (t : Trial) : Running × Trial :=
  match r.mode with
  | .running told =>
    let told := told || r.dispatcher.signal.value || r.dispatcher.signal.dropped
    if told && r.dispatcher.isEnded then
      ({ r with mode := .stopped }, t.log (.dispatcherStopped r.dispatcher.machine))
    else ({ r with mode := .running told }, t)
  | _ => (r, t)

def stamp (s : Simulation) (t : Trial) : List (Nat × Event) := t.seen.map (s.time, ·)

def settleOne (s : Simulation) (r : Running) (store : Store) (seen : List (Nat × Event)) :
    Running × Store × List (Nat × Event) :=
  let (dispatcher, t) := r.dispatcher.settleLoops s.time (r.dispatcher.trial store s.now)
  let (r, t) := attend { r with dispatcher } t
  (r, t.store, s.stamp t ++ seen)

def settleAll (s : Simulation) (store : Store) (seen : List (Nat × Event)) :
    List Running → List Running × Store × List (Nat × Event)
  | [] => ([], store, seen)
  | r :: rs =>
    let (r, store, seen) := s.settleOne r store seen
    let (rs, store, seen) := s.settleAll store seen rs
    (r :: rs, store, seen)

/-- Everything that can be done without time passing. -/
def settle (s : Simulation) : Simulation :=
  let (running, store, seen) := s.settleAll s.store s.seen s.running
  { s with running, store, seen }

def wake? (s : Simulation) : Option Nat :=
  (s.running.filterMap fun r => r.dispatcher.wake? s.time).min?

/-- Time passes up to `target`; everything that is due on the way is done in its time. -/
def advanceTo (target : Nat) (s : Simulation) : Simulation :=
  match s.wake? with
  | some w => if s.time < w ∧ w ≤ target then advanceTo target (s.atTime w).settle else s.atTime target
  | none => s.atTime target
termination_by target - s.time
decreasing_by
  have : (s.atTime w).settle.time = w := rfl
  omega

/-! ## Dispatchers -/

/-- The loops of a dispatcher that starts now, if its settings are sound. -/
def dispatcher? (s : Simulation) (name : String) (machine : MachineId) (config : Config)
    (clock : Option Instant) (faults : List Fault) (broker : Broker) : Except ConfigError Dispatcher :=
  match h : config.validate with
  | .error e => .error e
  | .ok () =>
    have pos {e : String × Nat} (he : e ∈ config.times) : 0 < e.2 := Config.time_pos h he
    .ok {
      name, machine, config, clock, faults, broker
      processor := .waiting (.start s.timer config.processInterval s.time
        (pos (e := ("process_interval_ms", config.processInterval)) (by simp [Config.times])))
      unlocker := .waiting (.start s.timer config.lockCheckerInterval s.time
        (pos (e := ("lock_checker_interval_ms", config.lockCheckerInterval)) (by simp [Config.times])))
      cleaner := .waiting (.start s.timer config.cleanupInterval s.time
        (pos (e := ("cleanup_worker_interval_ms", config.cleanupInterval)) (by simp [Config.times]))) }

/-- Starts a dispatcher. Only one that someone waits for reports that it has started. -/
def start (s : Simulation) (d : Dispatcher) (mode : Mode) : Simulation :=
  let t := d.trial s.store s.now
  let t := if mode = .spawned then t else t.log (.dispatcherStarted d.machine)
  let (dispatcher, t) := d.startLoops s.time t
  let (r, t) := attend { dispatcher, mode } t
  { s with store := t.store, running := s.running ++ [r], seen := s.stamp t ++ s.seen }

def find? (s : Simulation) (name : String) : Option Running := s.running.find? (·.answersTo name)

def modify (s : Simulation) (name : String) (f : Running → Running) : Simulation :=
  { s with running := s.running.map fun r => if r.answersTo name then f r else r }

def signal (s : Simulation) (name : String) (f : StopSignal → StopSignal) : Simulation :=
  (s.modify name (·.signal f)).settle

/-- Starts a dispatcher under a name; nobody can stop any more what the name stood for before. -/
def replace (s : Simulation) (d : Dispatcher) (mode : Mode) : Simulation :=
  ((s.modify d.name fun r => (r.signal StopSignal.drop).forget).start d mode).settle

/-- Lets go of a dispatcher, so that nobody can stop it any more. One that someone waits for keeps its
name. -/
def drop (s : Simulation) (name : String) : Simulation :=
  (s.modify name fun r =>
    if r.mode = .spawned then (r.signal StopSignal.drop).forget else r.signal StopSignal.drop).settle

/-- Lets time pass until the loops of a dispatcher have ended, but not past `fuel` of its waits. -/
def awaitEnd (name : String) : (fuel : Nat) → Simulation → Simulation
  | 0, s => s
  | n + 1, s =>
    match (s.find? name).bind fun r => if r.dispatcher.isEnded then none else r.dispatcher.wake? s.time with
    | some w => awaitEnd name n (s.advanceTo w)
    | none => s

/-- Waits for a dispatcher that was told to stop: each loop that is in an iteration finishes it. -/
def join (s : Simulation) (name : String) : Simulation :=
  match s.find? name with
  | none => s
  | some r =>
    let s := if r.mode = .spawned then s.signal name (StopSignal.set true) else s
    let waits := (s.find? name).elim 0 fun r =>
      r.dispatcher.processor.pending + r.dispatcher.unlocker.pending + r.dispatcher.cleaner.pending
    (awaitEnd name waits s).modify name Running.forget

/-! ## Steps -/

inductive Step where
  | access (a : Access)
  | start (mode : Mode) (initial : Bool) (name : String) (machine : MachineId) (config : Config)
      (clock : Option Instant) (faults : List Fault) (broker : Broker)
  | advance (millis : Nat)
  | signal (name : String) (value : Bool)
  | drop (name : String)
  | finished (name : String)
  | join (name : String)

inductive Reply where
  | done
  | access (result : AccessResult)
  | started (machine : MachineId)
  | refused (e : ConfigError)
  /-- Whether whoever waits for the dispatcher is done; none if nobody waits. -/
  | finished (b : Option Bool)
  | joined

def finished? (s : Simulation) (name : String) : Option Bool :=
  match (s.find? name).map Running.mode with
  | some .stopped => some true
  | some (.running _) => some false
  | some .spawned | none => none

def perform (s : Simulation) : Step → Reply × Simulation
  | .access a =>
    let (result, store) := s.store.access a
    (.access result, { s with store })
  | .start mode initial name machine config clock faults broker =>
    match s.dispatcher? name machine config clock faults broker with
    | .error e => (.refused e, s)
    | .ok d => (.started machine, s.replace { d with signal := { value := initial } } mode)
  | .advance millis => (.done, s.advanceTo (s.timer.wake s.time millis))
  | .signal name value => (.done, s.signal name (StopSignal.set value))
  | .drop name => (.done, s.drop name)
  | .finished name => (.finished (s.finished? name), s)
  | .join name => (.joined, s.join name)

def step (s : Simulation) (k : Step) : Reply × List (Nat × Event) × Simulation :=
  let (reply, s) := { s with seen := [] }.perform k
  (reply, s.seen.reverse, s)

end Simulation

end Outbox

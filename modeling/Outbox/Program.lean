import Outbox.Config.Toml
import Outbox.Demo
import Outbox.Failure
import Outbox.Log.Filter
import Outbox.Simulation
import Outbox.Sql.Address
import Outbox.Sql.Connection
import Outbox.Store.Transaction

/-!
The program: reads its environment, enqueues demonstration messages and runs a dispatcher on them,
with a broker that reports each message in the log.
-/

namespace Outbox

structure Environment where
  /-- The path of the settings, and what is found there. -/
  config : Option (String × Except FileFault (List UInt8)) := none
  machineId : Option String := none
  demoMessages : Option String := none
  databaseUrl : Option String := none
  hostname : Option String := none
  /-- Which log entries to show. -/
  logFilter : Option String := none

structure Plan where
  config : Config
  machine : MachineId
  messages : List Message

namespace Environment

def readConfig (e : Environment) : Except Failure Config :=
  match e.config with
  | none => .ok {}
  | some (path, file) =>
    (Config.load path file).mapError fun f => (Failure.ofConfigError f).within ("loading " ++ path)

def defaultMessages : Nat := 3

def readMessages (e : Environment) : Except Failure (List Message) :=
  match e.demoMessages with
  | none => .ok (Outbox.demoMessages defaultMessages)
  | some s =>
    match readCount (Nat.pow 2 64) s with
    | .ok n => .ok (Outbox.demoMessages n)
    | .error f => .error ⟨"FERRY_DEMO_MESSAGES must be a number", [f.message]⟩

/-- `token` makes a generated machine id unique. -/
def plan (e : Environment) (token : String) : Except Failure Plan := do
  let config ← e.readConfig
  let messages ← e.readMessages
  let machine := match e.machineId with
    | some id => ⟨id⟩
    | none => MachineId.generated e.hostname token
  return { config, machine, messages }

end Environment

/-- Why no connection to a database comes about. -/
def connectionFailure (url : String) : Failure :=
  ⟨"connecting to postgres",
    match Sql.Address.ofUrl url with
    | .error e => e.chain
    | .ok address => address.silence⟩

structure Transcript where
  log : List LogEntry := []
  failure : Option Failure := none

def Transcript.through (t : Transcript) (f : LogFilter) : Transcript := { t with log := t.log.filter f.shows }

def Transcript.exitCode (t : Transcript) : UInt32 := if t.failure.isSome then 1 else 0

def logged (events : List Event) : List LogEntry :=
  events.filterMap fun
    | .log e => some e
    | _ => none

namespace Plan

def name : String := "dispatcher"

/-! ## In memory -/

def memoryStore (p : Plan) (now : Instant) : Except Failure Store :=
  let records := p.messages.mapIdx fun i m => Record.new (.stamped now (i + 1)) m now
  match Store.empty.commit ⟨records⟩ with
  | (.ok (), store) => .ok store
  | (.error e, _) => .error (.ofOutboxError e)

def start (p : Plan) (now : Instant) : Except Failure Simulation := do
  let store ← p.memoryStore now
  let s : Simulation := { epoch := now, store }
  match s.dispatcher? name p.machine p.config none [] (.logging 0) with
  | .error e => .error (.ofConfigError e)
  | .ok d => return s.start d (.running false)

/-- What is shown when the program is interrupted after its first batch. -/
def transcript (p : Plan) (now : Instant) : Transcript :=
  match p.start now with
  | .error f => { log := [.memoryStoreUsed], failure := some f }
  | .ok s =>
    let s' := { s with seen := [] }.signal name (StopSignal.set true)
    let log (s : Simulation) := logged (s.seen.reverse.map Prod.snd)
    { log := .memoryStoreUsed :: log s ++ .interrupted :: log s' }

/-! ## On a database -/

def publishAll : List Message → Sql.Connection → Except OutboxError Unit × Sql.Connection
  | [], c => (.ok (), c)
  | m :: ms, c =>
    match c.publish m with
    | (.ok _, c) => publishAll ms c
    | (.error e, c) => (.error e, c)

def enqueue (p : Plan) (c : Sql.Connection) : Except OutboxError Unit × Sql.Connection :=
  match c.migrate with
  | (.ok (), c) => c.inTransaction (publishAll p.messages)
  | (.error e, c) => (.error e, c)

def databaseTranscript (p : Plan) (c : Sql.Connection) : Transcript × Sql.Connection :=
  match p.enqueue { c with broker := .logging 0 } with
  | (.error e, c) => ({ failure := some (.ofOutboxError e) }, c)
  | (.ok (), c) =>
    match p.config.validate with
    | .error e => ({ failure := some (.ofConfigError e) }, c)
    | .ok () =>
      let (result, c) := deliverBatch Sql.Connection.host ⟨p.machine, p.config.retrialPolicy⟩
        (c.log (.dispatcherStarted p.machine))
      let c := match result with
        | some (.ok report) =>
          if 0 < report.delivered then c.log (.batchDelivered p.machine report.claimed report.delivered) else c
        | _ => c
      let c := (c.log .interrupted).log (.dispatcherStopped p.machine)
      ({ log := logged c.seen.reverse }, c)

end Plan

end Outbox

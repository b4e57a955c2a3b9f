import Outbox.Program
import Std.Time.DateTime.Timestamp

/-!
The command line. Settings come from `FERRY_CONFIG`, `FERRY_MACHINE_ID`, `FERRY_DEMO_MESSAGES`,
`DATABASE_URL` and `RUST_LOG`.
-/

namespace Outbox

/-- Only a fault that keeps the file from being opened names it. -/
def readFile (path : String) : IO (Except FileFault (List UInt8)) := do
  try
    return .ok (← IO.FS.readBinFile path).data.toList
  catch
    | .noFileOrDirectory .. => return .error .missing
    | .inappropriateType none .. => return .error .directory
    | .inappropriateType (some _) .. => return .error .notDirectory
    | .invalidArgument .. => return .error (if path.contains '\x00' then .nullInName else .nameTooLong)
    | e => return .error (.other (toString e))

def readEnvironment : IO Environment := do
  let config ← match ← IO.getEnv "FERRY_CONFIG" with
    | some path => pure (some (path, ← readFile path))
    | none => pure none
  return {
    config
    machineId := ← IO.getEnv "FERRY_MACHINE_ID"
    demoMessages := ← IO.getEnv "FERRY_DEMO_MESSAGES"
    databaseUrl := ← IO.getEnv "DATABASE_URL"
    hostname := ← IO.getEnv "HOSTNAME"
    logFilter := ← IO.getEnv "RUST_LOG" }

def currentTime : IO Instant := do
  let millis := (← Std.Time.Timestamp.now).toMillisecondsSinceUnixEpoch.val
  return (Instant.ofNanos? (millis * 1000000)).getD default

def printEntry (filter : LogFilter) (e : LogEntry) : IO Unit := do
  if filter.shows e then IO.println (e.level.name ++ " " ++ e.line)

def fail (f : Failure) : IO UInt32 := do
  f.lines.forM fun line => IO.eprintln line
  return 1

/-- Lets the simulation follow the time that passes, until nothing is left to be done. -/
partial def follow (filter : LogFilter) (began : Nat) (s : Simulation) : IO Unit := do
  (logged (s.seen.reverse.map Prod.snd)).forM (printEntry filter)
  match s.wake? with
  | none => return
  | some wake =>
    let passed := (← IO.monoMsNow) - began
    IO.sleep (UInt32.ofNat (min (wake - passed) 60000))
    follow filter began ({ s with seen := [] }.advanceTo ((← IO.monoMsNow) - began))

end Outbox

open Outbox in
def main : IO UInt32 := do
  let env ← readEnvironment
  let now ← currentTime
  let token := (RecordId.stamped now (← IO.rand 0 (Nat.pow 2 80 - 1))).text
  match env.plan token with
  | .error f => fail f
  | .ok plan =>
    match env.databaseUrl with
    | some url => fail (connectionFailure url)
    | none => do
      let filter := LogFilter.wanted env.logFilter
      printEntry filter .memoryStoreUsed
      match plan.start now with
      | .error f => fail f
      | .ok s => do
        follow filter (← IO.monoMsNow) s
        return 0

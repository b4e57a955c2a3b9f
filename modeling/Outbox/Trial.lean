import Outbox.Broker
import Outbox.Event
import Outbox.Fault
import Outbox.Request

/-!
Trials: an activity at work on the store in memory, with planned faults and a broker, under
observation.
-/

namespace Outbox

structure Trial where
  store : Store
  /-- The time, as long as the calendar reaches it. -/
  now : Option Instant
  faults : List Fault := []
  broker : Broker := .accepting
  /-- The outcome that a broker takes its time for. -/
  awaited : Option Outcome := none
  /-- What was seen so far, the latest first. -/
  seen : List Event := []

namespace Trial

def see (t : Trial) (e : Event) : Trial := { t with seen := e :: t.seen }

/-- A call that a fault strikes fails and does nothing else. -/
def call (owner : String) {a : Answer} (c : Call a) (t : Trial) : Except OutboxError a.Val × Trial :=
  match Fault.strike c.operation t.faults with
  | (some e, faults) => (.error e, { t with faults }.see (.call owner c (.error e)))
  | (none, faults) =>
    let (result, store) := t.store.perform c
    (result, { t with store, faults }.see (.call owner c result))

def access (t : Trial) (a : Access) : AccessResult × Trial :=
  let (result, store) := t.store.access a
  (result, { t with store })

def effect (t : Trial) (a : Access) : Trial :=
  let (result, t) := t.access a
  t.see (.effect a result)

def log (t : Trial) (e : LogEntry) : Trial := t.see (.log e)

def handOver (owner : String) (m : Message) (t : Trial) : Outcome × Trial :=
  let (o, entries, broker) := t.broker.take m
  (o, entries.foldl log ({ t with broker }.see (.send owner m)))

/-- Sends where the clock is moved by hand. An outcome that would move it off the calendar gives no
answer. -/
def send (owner : String) (m : Message) (t : Trial) : Option (Except BrokerError Unit) × Trial :=
  let (o, t) := t.handOver owner m
  match t.now.bind (·.shift? (o.advanceMillis * 1000000)) with
  | none => (none, t)
  | some now => (some o.answer, o.effects.foldl effect { t with now := some now })

/-- Sends where time passes by itself. An outcome that takes time is awaited. -/
def sendOrWait (owner : String) (m : Message) (t : Trial) : Option (Except BrokerError Unit) × Trial :=
  let (o, t) := t.handOver owner m
  if 0 < o.delayMillis then (none, { t with awaited := some o })
  else (some o.answer, o.effects.foldl effect t)

def host (owner : String) : Host Trial := { now, call := call owner, send := send owner, log }

def patientHost (owner : String) : Host Trial :=
  { now, call := call owner, send := sendOrWait owner, log }

end Trial

end Outbox

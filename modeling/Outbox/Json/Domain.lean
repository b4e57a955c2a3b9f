import Outbox.Config.Fields
import Outbox.Json.Parser
import Outbox.Record

/-!
The JSON forms of ids, states, policies, messages and settings.
-/

namespace Outbox

namespace Json

def Value.text? : Value → Option String
  | .text s => s
  | _ => none

def Value.named? : Option String × Value → Option (String × Value)
  | (some name, v) => some (name, v)
  | (none, _) => none

/-- Structures stand as objects, or as lists of exactly their fields. -/
def notated : Notated Value where
  number?
    | .integer n => some n
    | _ => none
  flag?
    | .flag b => some b
    | _ => none
  parts?
    | .object entries => (entries.mapM Value.named?).map .named
    | .list items => some (.listed items)
    | _ => none
  longLists := false

def string (s : String) : Value := .text (some s)

def object (entries : List (String × Value)) : Value := .object (entries.map fun e => (some e.1, e.2))

end Json

open Json (Value)

namespace RecordId

def ofJson? (v : Value) : Option RecordId := v.text?.bind ofText?

def toJson (id : RecordId) : Value := Json.string id.text

end RecordId

namespace MachineId

def ofJson? (v : Value) : Option MachineId := v.text?.map MachineId.mk

def toJson (m : MachineId) : Value := Json.string m.text

end MachineId

namespace State

/-- The name of the state, or an object with that name for a null. -/
def ofJson? : Value → Option State
  | .text (some s) => ofName? s
  | .object [(some s, .null)] => ofName? s
  | _ => none

def toJson (s : State) : Value := Json.string s.name

end State

namespace RetrialPolicy

def ofJson? (v : Value) : Option RetrialPolicy := Json.notated.policy? v

def toJson (p : RetrialPolicy) : Value :=
  Json.object [("max_send_attempts_enabled", .flag p.enabled), ("max_send_attempts", .integer p.max)]

end RetrialPolicy

def Config.ofJson? (v : Value) : Option Config := Json.notated.config? v

namespace Message

def byteOfJson? (v : Value) : Option UInt8 := (Json.notated.bounded? 256 v).map UInt8.ofNat

def bodyOfJson? : Value → Option (List UInt8)
  | .list items => items.mapM byteOfJson?
  | _ => none

def headerOfJson? (e : Option String × Value) : Option (String × String) := do
  return (← e.1, ← e.2.text?)

def headersOfJson? : Value → Option Headers
  | .object entries => (entries.mapM headerOfJson?).map Headers.ofList
  | _ => none

def ofJson? (v : Value) : Option Message := do
  let p ← Json.notated.compound? 4 v
  let required (name : String) (place : Nat) : Option Value := (p.field? name place).join
  return {
    key := ← (← required "key" 0).text?
    headers := ← headersOfJson? (← required "headers" 1)
    body := ← bodyOfJson? (← required "body" 2)
    topic := ← (← required "topic" 3).text? }

def toJson (m : Message) : Value :=
  Json.object [("key", Json.string m.key),
    ("headers", Json.object (m.headers.entries.map fun e => (e.1, Json.string e.2))),
    ("body", .list (m.body.map fun b => .integer b.toNat)), ("topic", Json.string m.topic)]

end Message

end Outbox

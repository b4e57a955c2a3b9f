import Outbox.Blob.Texts
import Outbox.Config.Fields
import Outbox.Toml.Document

/-!
Settings from TOML.
-/

namespace Outbox

def Toml.notated : Notated Toml.Value where
  number?
    | .integer n => some n
    | _ => none
  flag?
    | .flag b => some b
    | _ => none
  parts?
    | .table t => some (.named t.entries)
    | .tables ts => some (.listed (ts.map .table))
    | .array items => some (.listed items)
    | .datetime _ => some (.named [])
    | _ => none
  longLists := true

def Config.ofToml (s : String) : Except ConfigError Config :=
  match (Toml.parse? s).bind fun t => Toml.notated.config? (.table t) with
  | some c => .ok c
  | none => .error .malformed

/-- Settings from the file at that path, given its bytes or why there are none. -/
def Config.load (path : String) (file : Except FileFault (List UInt8)) : Except ConfigError Config :=
  match file with
  | .error fault => .error (.unreadable path fault)
  | .ok bytes =>
    match Blob.ofUtf8? bytes with
    | some s => Config.ofToml s
    | none => .error (.unreadable path .notText)

end Outbox

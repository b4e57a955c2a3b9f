import Outbox.Log
import Outbox.Store.Access

/-!
Events: what an observer of the store, the broker and the log gets to see.
-/

namespace Outbox

/-- `owner` is the name of the one whose call or send it is. -/
inductive Event where
  | call (owner : String) {a : Answer} (c : Call a) (result : Except OutboxError a.Val)
  | add (owner : String) (record : Record) (result : Except OutboxError Unit)
  | send (owner : String) (message : Message)
  | effect (access : Access) (result : AccessResult)
  | log (entry : LogEntry)

end Outbox

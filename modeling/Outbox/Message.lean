import Outbox.Headers

/-!
Messages: what a record carries to the broker.
-/

namespace Outbox

structure Message where
  topic : String
  key : String
  body : List UInt8
  headers : Headers := .empty
deriving DecidableEq, Inhabited

namespace Message

def withHeader (m : Message) (name value : String) : Message :=
  { m with headers := m.headers.insert name value }

def header? (m : Message) (name : String) : Option String := m.headers.get? name

end Message

end Outbox

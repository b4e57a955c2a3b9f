import Outbox.Call

/-!
Faults: planned failures of store calls.
-/

namespace Outbox

/-- Lets `skip` calls of an operation pass and then makes the next `times` of them fail. -/
structure Fault where
  operation : Operation
  skip : Nat := 0
  times : Nat := 1
  error : OutboxError
deriving DecidableEq

namespace Fault

def injected (text : String) : OutboxError := .store "injected" (.reported text)

/-- What becomes of a call: the first fault that strikes makes it fail, and those before it that
still had calls to let pass have one fewer. -/
def strike (op : Operation) : List Fault → Option OutboxError × List Fault
  | [] => (none, [])
  | f :: fs =>
    if f.operation ≠ op ∨ f.skip = 0 ∧ f.times = 0 then
      let (e, fs) := strike op fs
      (e, f :: fs)
    else if 0 < f.skip then
      let (e, fs) := strike op fs
      (e, { f with skip := f.skip - 1 } :: fs)
    else (some f.error, { f with times := f.times - 1 } :: fs)

end Fault

end Outbox

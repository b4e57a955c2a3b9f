import Outbox.Log

/-!
The write side: a message becomes a new pending record in the caller's transaction.
-/

namespace Outbox

/-- Enqueues `m` under a fresh id, with `add` to put the record into the transaction. -/
def publish {τ : Type} (add : Record → Except OutboxError τ) (id : RecordId) (m : Message)
    (now : Instant) : Except OutboxError (RecordId × τ × LogEntry) := do
  let tx ← add (.new id m now)
  return (id, tx, .recordEnqueued id m.topic)

end Outbox

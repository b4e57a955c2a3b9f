import Outbox.Broker.Script
import Outbox.Log

/-!
Brokers: where messages are handed over.
-/

namespace Outbox

inductive Broker where
  /-- Follows a plan. -/
  | scripted (s : Script)
  /-- Reports each message in the log, and counts them. -/
  | logging (sent : Nat)

namespace Broker

/-- A broker that accepts everything. -/
def accepting : Broker := scripted {}

/-- The outcome of a send, and what the broker itself reports about it. -/
def take (m : Message) : Broker → Outcome × List LogEntry × Broker
  | scripted s => let (o, s) := s.next; (o, [], scripted s)
  | logging sent => ({}, [.messageSent m], logging (sent + 1))

end Broker

end Outbox

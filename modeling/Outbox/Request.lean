import Outbox.Call
import Outbox.Log

/-!
Activities ask for one thing at a time, the time, a store call or a send, and go on from the answer;
hosts give the answers.
-/

namespace Outbox

/-- What an activity in state `σ` asks for, and how it goes on from each answer. -/
inductive Request (σ : Type) where
  | now (resume : Instant → σ)
  | call {a : Answer} (c : Call a) (resume : Except OutboxError a.Val → σ × List LogEntry)
  | send (m : Message) (resume : Except BrokerError Unit → σ)

/-- The surroundings of an activity. There may be no time to give, and no answer to a send. -/
structure Host (ω : Type) where
  now : ω → Option Instant
  call : {a : Answer} → Call a → ω → Except OutboxError a.Val × ω
  send : Message → ω → Option (Except BrokerError Unit) × ω
  log : ω → LogEntry → ω

def Host.logAll {ω : Type} (h : Host ω) (w : ω) (entries : List LogEntry) : ω := entries.foldl h.log w

end Outbox

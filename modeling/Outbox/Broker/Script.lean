import Outbox.Store.Access

/-!
Scripted brokers: each send takes the next planned outcome.
-/

namespace Outbox

/-- What happens during a send, in this order, and how it ends. -/
structure Outcome where
  /-- How long the broker takes, where time passes by itself. -/
  delayMillis : Nat := 0
  /-- By how much the clock moves, where it has to be moved. -/
  advanceMillis : Int := 0
  /-- What others do to the store meanwhile. -/
  effects : List Access := []
  failure : Option BrokerError := none

def Outcome.answer (o : Outcome) : Except BrokerError Unit :=
  match o.failure with
  | some e => .error e
  | none => .ok ()

/-- Planned outcomes, and the one for every send after them. -/
structure Script where
  outcomes : List Outcome := []
  otherwise : Outcome := {}

def Script.next (s : Script) : Outcome × Script :=
  match s.outcomes with
  | o :: os => (o, { s with outcomes := os })
  | [] => (s.otherwise, s)

end Outbox

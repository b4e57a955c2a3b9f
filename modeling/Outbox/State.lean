/-!
The delivery states of a record, and the policy that decides when delivery is given up.
-/

namespace Outbox

inductive State where
  | pending | delivered | exhausted
deriving DecidableEq

namespace State

def isTerminal : State → Bool
  | pending => false
  | delivered | exhausted => true

def name : State → String
  | pending => "PendingDelivery"
  | delivered => "Delivered"
  | exhausted => "MaxAttemptsReached"

def number : State → Nat
  | pending => 1 | delivered => 2 | exhausted => 3

def ofNumber? (n : Int) : Option State :=
  if n = 1 then some pending
  else if n = 2 then some delivered
  else if n = 3 then some exhausted
  else none

def ofName? (s : String) : Option State := [pending, delivered, exhausted].find? (·.name = s)

theorem ofNumber?_number (s : State) : ofNumber? s.number = some s := by cases s <;> rfl

theorem eq_number_of_ofNumber? {n : Int} {s : State} (h : ofNumber? n = some s) : n = s.number := by
  unfold ofNumber? at h
  split at h
  · cases h; assumption
  · split at h
    · cases h; assumption
    · split at h
      · cases h; assumption
      · cases h

end State

/-- When `enabled`, a record is given up once it has made `max` attempts. -/
structure RetrialPolicy where
  enabled : Bool := false
  max : Nat := 5
deriving DecidableEq, Inhabited

namespace RetrialPolicy

def unlimited : RetrialPolicy := {}

def limited (max : Nat) : RetrialPolicy := { enabled := true, max }

def isExhausted (p : RetrialPolicy) (attempts : Nat) : Bool := p.enabled && p.max ≤ attempts

end RetrialPolicy

end Outbox

import Outbox.Blob.Reader
import Outbox.MachineId
import Outbox.RecordId
import Outbox.State

/-!
Everything that can go wrong, by cause, and the texts of it.
-/

namespace Outbox

/-- A broker's refusal, with the texts of the errors behind it, the nearest first. -/
structure BrokerError where
  message : String
  causes : List String := []
deriving DecidableEq

inductive StoreFault where
  | duplicateRecord (id : RecordId)
  | recordNotFound (id : RecordId)
  | unknownState (number : Int)
  | negativeAttempts (count : Int)
  | attemptsOverflow (count : Nat)
  | database (text : String)
  | reported (text : String)
deriving DecidableEq

/-- The text of the fault, followed by those of the errors behind it. -/
def StoreFault.chain : StoreFault → List String
  | .duplicateRecord id => ["record " ++ id.text ++ " already exists"]
  | .recordNotFound id => ["record " ++ id.text ++ " not found"]
  | .unknownState n => ["unknown record state " ++ toString n]
  | .negativeAttempts n => ["negative attempt count " ++ toString n]
  | .attemptsOverflow n =>
    ["attempt count " ++ toString n ++ " does not fit the number_of_attempts column"]
  | .database t => ["error returned from database: " ++ t, t]
  | .reported t => [t]

/-- `op` names the operation that failed. -/
inductive OutboxError where
  | store (op : String) (fault : StoreFault)
  | codec (op : String) (cause : BlobError)
  | delivery (id : RecordId) (attempts : Nat) (cause : BrokerError)
  | invalidTransition (id : RecordId) (source target : State)
deriving DecidableEq

namespace OutboxError

/-- The texts of the errors behind this one, the nearest first. -/
def chain : OutboxError → List String
  | store _ fault => fault.chain
  | codec _ cause => [cause.message]
  | delivery _ _ cause => cause.message :: cause.causes
  | invalidTransition .. => []

def message (e : OutboxError) : String :=
  match e with
  | store op _ | codec op _ => op ++ ": " ++ e.chain.headD ""
  | delivery id attempts _ =>
    "delivery of record " ++ id.text ++ " failed on attempt " ++ toString attempts ++ ": " ++
      e.chain.headD ""
  | invalidTransition id source target =>
    "record " ++ id.text ++ " cannot move from " ++ source.name ++ " to " ++ target.name

def isDelivery : OutboxError → Bool
  | delivery .. => true
  | _ => false

def unreadable (cause : BlobError) : OutboxError := codec "outbox.message.decode" cause

end OutboxError

end Outbox

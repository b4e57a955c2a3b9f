import Outbox.Config

/-!
Reading settings from structured values of any notation. Absent fields keep their defaults, and
unknown ones are ignored.
-/

namespace Outbox

/-- The parts of a compound value, by name or in order. -/
inductive Parts (V : Type) where
  | named (entries : List (String × V))
  | listed (items : List V)

/-- How a notation shows numbers, flags and compound values. -/
structure Notated (V : Type) where
  number? : V → Option Int
  flag? : V → Option Bool
  parts? : V → Option (Parts V)
  /-- Whether a list may hold more than the fields. -/
  longLists : Bool

namespace Parts

variable {V : Type}

/-- The field with that name, or at that place in a list; a name must not stand twice. -/
def field? (name : String) (place : Nat) : Parts V → Option (Option V)
  | named entries =>
    match entries.filter (·.1 = name) with
    | [] => some none
    | [e] => some (some e.2)
    | _ => none
  | listed items => some items[place]?

def read {α : Type} (p : Parts V) (name : String) (place : Nat) (f : V → Option α) (d : α) : Option α :=
  match p.field? name place with
  | none => none
  | some none => some d
  | some (some v) => f v

def fits (size : Nat) (longLists : Bool) : Parts V → Bool
  | named _ => true
  | listed items => longLists || items.length ≤ size

end Parts

namespace Notated

variable {V : Type}

def bounded? (n : Notated V) (limit : Nat) (v : V) : Option Nat :=
  match n.number? v with
  | some i => if 0 ≤ i ∧ i < limit then some i.toNat else none
  | none => none

def compound? (n : Notated V) (size : Nat) (v : V) : Option (Parts V) :=
  (n.parts? v).filter (·.fits size n.longLists)

def policy? (n : Notated V) (v : V) : Option RetrialPolicy := do
  let p ← n.compound? 2 v
  let d : RetrialPolicy := {}
  return {
    enabled := ← p.read "max_send_attempts_enabled" 0 n.flag? d.enabled
    max := ← p.read "max_send_attempts" 1 (n.bounded? (Nat.pow 2 32)) d.max }

def config? (n : Notated V) (v : V) : Option Config := do
  let p ← n.compound? 7 v
  let d : Config := {}
  let time (name : String) (place value : Nat) := p.read name place (n.bounded? (Nat.pow 2 64)) value
  return {
    processInterval := ← time "process_interval_ms" 0 d.processInterval
    lockCheckerInterval := ← time "lock_checker_interval_ms" 1 d.lockCheckerInterval
    maxLockTime := ← time "max_lock_time_duration_ms" 2 d.maxLockTime
    cleanupInterval := ← time "cleanup_worker_interval_ms" 3 d.cleanupInterval
    retrialPolicy := ← p.read "retrial_policy" 4 n.policy? d.retrialPolicy
    retention := ← time "messages_retention_duration_ms" 5 d.retention
    cleanupFinishedOnly := ← p.read "cleanup_terminal_only" 6 n.flag? d.cleanupFinishedOnly }

end Notated

end Outbox

import Outbox.Request

/-!
Housekeeping sweeps: one store call each, with a cutoff that lies a given time in the past. One
releases locks that were held too long, the other deletes records that were kept too long.
-/

namespace Outbox

/-- Ages are in nanoseconds. -/
inductive Sweep where
  /-- Releases the locks that are older than `age`. -/
  | unlocking (age : Nat)
  /-- Deletes the records that are older than `age`, or those of them that are in a terminal state. -/
  | cleaning (age : Nat) (finishedOnly : Bool)
deriving DecidableEq

namespace Sweep

def age : Sweep → Nat
  | unlocking age | cleaning age _ => age

def call (s : Sweep) (cutoff : Instant) : Call .count :=
  match s with
  | unlocking _ => .unlockBefore cutoff
  | cleaning _ false => .removeBefore cutoff
  | cleaning _ true => .removeFinishedBefore cutoff

def note (s : Sweep) (cutoff : Instant) (n : Nat) : LogEntry :=
  match s with
  | unlocking _ => .locksExpired n cutoff
  | cleaning _ finishedOnly => .recordsRemoved n cutoff finishedOnly

/-- There is no result where there is no time to go by. -/
def run {ω : Type} (h : Host ω) (s : Sweep) (w : ω) : Option (Except OutboxError Nat) × ω :=
  match h.now w with
  | none => (none, w)
  | some now =>
    match h.call (s.call (now.before s.age)) w with
    | (.ok n, w) => (some (.ok n), if n = 0 then w else h.log w (s.note (now.before s.age) n))
    | (.error e, w) => (some (.error e), w)

end Sweep

def ofMillis (n : Nat) : Nat := n * 1000000

end Outbox

import Outbox.Error
import Outbox.Ticker

/-!
Periodic jobs: each is done again and again, with every tick, in a loop that ends when it is told to stop. A
loop finishes the iteration it is in first.
-/

namespace Outbox

/-- What the loops are told by whoever can stop them. -/
structure StopSignal where
  value : Bool := false
  /-- Nobody is left who could give the signal. -/
  dropped : Bool := false
deriving DecidableEq

namespace StopSignal

/-- Nothing changes once nobody is left to give the signal. -/
def set (value : Bool) (s : StopSignal) : StopSignal := if s.dropped then s else { s with value }

def drop (s : StopSignal) : StopSignal := { s with dropped := true }

end StopSignal

/-- How an iteration that is over came out; none if it was broken off. -/
abbrev Job.Ending := Option (Except OutboxError Unit)

/-- Either the iteration is over, or it has to wait. -/
inductive Job.Progress (α : Type) where
  | over (ending : Ending)
  | awaits (work : α)

/-- What is done with every tick. An iteration that has to wait leaves behind what it goes on with. -/
structure Job (α σ : Type) where
  /-- Begins an iteration and goes on with it as far as it gets without time passing. -/
  iterate : σ → Job.Progress α × σ
  /-- Goes on with an iteration that has waited long enough. -/
  resume : α → σ → Job.Progress α × σ
  /-- How long an iteration has to wait. -/
  delay : α → Nat
  /-- Takes note of how an iteration came out. -/
  report : Except OutboxError Unit → σ → σ
  /-- Takes leave when it is told to stop. -/
  quit : σ → σ

inductive Loop (α : Type) where
  /-- For the next tick. -/
  | waiting (ticker : Ticker)
  /-- In the middle of an iteration, until the time `wake`. -/
  | inFlight (ticker : Ticker) (work : α) (wake : Nat)
  | ended

namespace Loop

variable {α : Type}

def isEnded : Loop α → Bool
  | ended => true
  | _ => false

def wake? : Loop α → Option Nat
  | waiting t => some t.due
  | inFlight _ _ wake => some wake
  | ended => none

inductive Choice where
  | stop | iterate | wait
deriving DecidableEq

/-- `lingers` decides between a tick that is due and a signal that nobody can give any more. -/
def choose (signal : StopSignal) (lingers : Bool) (ticker : Ticker) (now : Nat) : Choice :=
  if signal.value then .stop
  else if ticker.due ≤ now then if signal.dropped && !lingers then .stop else .iterate
  else if signal.dropped then .stop
  else .wait

theorem due_of_iterate {signal : StopSignal} {lingers : Bool} {ticker : Ticker} {now : Nat}
    (h : choose signal lingers ticker now = .iterate) : ticker.due ≤ now := by
  unfold choose at h
  split at h
  · contradiction
  · split at h
    · assumption
    · split at h <;> contradiction

end Loop

namespace Job

variable {α σ : Type}

/-- What the loop of a job does at the time `now`, as far as it gets without time passing. -/
def settle (j : Job α σ) (signal : StopSignal) (lingers : Bool) (now : Nat) (l : Loop α) (s : σ) :
    Loop α × σ :=
  match l with
  | .ended => (.ended, s)
  | .waiting ticker =>
    match h : Loop.choose signal lingers ticker now with
    | .stop => (.ended, j.quit s)
    | .wait => (.waiting ticker, s)
    | .iterate =>
      have := Loop.due_of_iterate h
      have := Ticker.due_lt_take this
      match j.iterate s with
      | (.awaits w, s) => (.inFlight (ticker.take now) w (ticker.timer.wake now (j.delay w)), s)
      | (.over none, s) => (.ended, s)
      | (.over (some ending), s) =>
        j.settle signal lingers now (.waiting (ticker.take now)) (j.report ending s)
  | .inFlight ticker w wake =>
    if wake ≤ now then
      match j.resume w s with
      | (.awaits w, s) => (.inFlight ticker w (ticker.timer.wake now (j.delay w)), s)
      | (.over none, s) => (.ended, s)
      | (.over (some ending), s) => j.settle signal lingers now (.waiting ticker) (j.report ending s)
    else (l, s)
termination_by
  match l with
  | .ended => (0, 0)
  | .waiting ticker => (now + 1 - ticker.due, 0)
  | .inFlight ticker .. => (now + 1 - ticker.due, 1)
decreasing_by
  · exact .left _ _ (by omega)
  · exact .right _ (by omega)

end Job

end Outbox

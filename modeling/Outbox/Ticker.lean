/-!
Timers and tickers: when someone who waits is woken, and when the iterations of a periodic task are due, in
milliseconds.
-/

namespace Outbox

/-- How waits come to an end. -/
structure Timer where
  /-- When the tick is due that follows the one that was due at `due` and is taken at `now`. -/
  next (period due now : Nat) : Nat
  /-- When someone is woken who waits for so long from `now` on. -/
  wake (now millis : Nat) : Nat
  lt_next {period due now : Nat} : 0 < period → due ≤ now → due < next period due now
  le_wake {now millis : Nat} : now ≤ wake now millis
  lt_wake {now millis : Nat} : 0 < millis → now < wake now millis

namespace Timer

/-- A tick that is taken later than this after it was due counts as late. -/
def tolerance : Nat := 5

/-- After a tick that is taken late the next is due a period from now, else a period after this one was due. -/
def delayed (period due now : Nat) : Nat := if due + tolerance < now then now + period else due + period

theorem lt_delayed {period due now : Nat} (hpos : 0 < period) (h : due ≤ now) :
    due < delayed period due now := by
  unfold delayed
  split <;> omega

/-- Every wait lasts as long as it should. -/
def unlimited : Timer where
  next := delayed
  wake now millis := now + millis
  lt_next := lt_delayed
  le_wake := Nat.le_add_right ..
  lt_wake := Nat.lt_add_of_pos_right

/-- Thirty years in milliseconds. -/
def longestWait : Nat := 30 * 365 * 24 * 3600000

/-- Whoever waits for longer than thirty years is woken by then. The timers that dispatchers run on are like that:
a cleaner with a period of 2^64 - 1 milliseconds was seen to clean up again after 946080000000. -/
def limited : Timer where
  next period due now := min (delayed period due now) (now + longestWait)
  wake now millis := now + min millis longestWait
  lt_next hpos h := Nat.lt_min.2 ⟨lt_delayed hpos h, Nat.lt_of_le_of_lt h (Nat.lt_add_of_pos_right (by decide))⟩
  le_wake := Nat.le_add_right ..
  lt_wake h := Nat.lt_add_of_pos_right (Nat.lt_min.2 ⟨h, by decide⟩)

end Timer

structure Ticker where
  timer : Timer
  period : Nat
  /-- When the next tick is due. -/
  due : Nat
  period_pos : 0 < period

namespace Ticker

/-- The first tick is due at once. -/
def start (timer : Timer) (period now : Nat) (h : 0 < period) : Ticker := ⟨timer, period, now, h⟩

/-- Takes the tick that is due. -/
def take (t : Ticker) (now : Nat) : Ticker := { t with due := t.timer.next t.period t.due now }

theorem due_lt_take {t : Ticker} {now : Nat} (h : t.due ≤ now) : t.due < (t.take now).due :=
  t.timer.lt_next t.period_pos h

end Ticker

end Outbox

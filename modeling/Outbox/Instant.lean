/-!
Points in time, to the nanosecond, within the years that the calendar covers.
-/

namespace Outbox

/-- The first nanosecond of the year -262143, counted from the start of 1970. -/
def earliestNanos : Int := -8334601228800 * 1000000000

/-- The last nanosecond of the year 262142, counted from the start of 1970. -/
def latestNanos : Int := 8210266876800 * 1000000000 - 1

/-- A point in time, as nanoseconds from the start of 1970 in UTC. -/
structure Instant where
  nanos : Int
  earliest_le : earliestNanos ≤ nanos
  le_latest : nanos ≤ latestNanos
deriving DecidableEq

namespace Instant

theorem ext {a b : Instant} (h : a.nanos = b.nanos) : a = b := by
  cases a; cases b; cases h; rfl

instance : LT Instant := ⟨fun a b => a.nanos < b.nanos⟩
instance : LE Instant := ⟨fun a b => a.nanos ≤ b.nanos⟩
instance : DecidableLT Instant := fun a b => inferInstanceAs (Decidable (a.nanos < b.nanos))
instance : DecidableLE Instant := fun a b => inferInstanceAs (Decidable (a.nanos ≤ b.nanos))

theorem lt_def {a b : Instant} : a < b ↔ a.nanos < b.nanos := Iff.rfl
theorem le_def {a b : Instant} : a ≤ b ↔ a.nanos ≤ b.nanos := Iff.rfl

def earliest : Instant := ⟨earliestNanos, by decide, by decide⟩
def latest : Instant := ⟨latestNanos, by decide, by decide⟩

instance : Inhabited Instant := ⟨⟨0, by decide, by decide⟩⟩

def ofNanos? (n : Int) : Option Instant :=
  if h : earliestNanos ≤ n ∧ n ≤ latestNanos then some ⟨n, h.1, h.2⟩ else none

def shift? (t : Instant) (delta : Int) : Option Instant := ofNanos? (t.nanos + delta)

/-- The longest span that a time is moved by, 2^63 - 1 milliseconds. -/
def longestSpan : Nat := 9223372036854775807 * 1000000

def span? (age : Nat) : Option Int := if age ≤ longestSpan then some age else none

/-- `age` nanoseconds before `now`, or the earliest instant where that is too long for a span or the
calendar ends sooner. -/
def before (now : Instant) (age : Nat) : Instant :=
  ((span? age).bind fun span => now.shift? (-span)).getD earliest

/-- Whole seconds from the start of 1970, rounded down. -/
def seconds (t : Instant) : Int := t.nanos / 1000000000

def fraction (t : Instant) : Nat := (t.nanos % 1000000000).toNat

def millis (t : Instant) : Int := t.nanos / 1000000

/-- No instant is further from another than the longest span. -/
theorem calendar_lt_longestSpan : latestNanos - earliestNanos < longestSpan := by decide

/-- No instant lies between the cutoff and the exact difference of `now` and `age`. -/
theorem lt_before {t now : Instant} {age : Nat} :
    t < now.before age ↔ t.nanos < now.nanos - age := by
  have ht := t.earliest_le
  have hnow := now.le_latest
  rw [lt_def, before, span?]
  split
  · rw [Option.bind_some, shift?, ofNanos?]
    split
    · simp only [Option.getD_some]; omega
    · simp only [Option.getD_none, earliest]; omega
  · simp only [Option.bind_none, Option.getD_none, earliest]
    have := calendar_lt_longestSpan
    omega

end Instant

end Outbox

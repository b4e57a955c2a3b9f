import Outbox.Instant

/-!
Calendar dates of instants, in the proleptic Gregorian calendar, and their text in UTC.
-/

namespace Outbox

structure Date where
  year : Int
  month : Nat
  day : Nat
deriving DecidableEq

namespace Date

/-- The date that many days after 1970-01-01. Years are counted from March, so that the leap day
is the last of its year, in cycles of 146097 days that repeat every 400 years. -/
def ofDays (days : Int) : Date :=
  let shifted := days + 719468
  let dayOfCycle := (shifted % 146097).toNat
  let yearOfCycle := (dayOfCycle - dayOfCycle / 1460 + dayOfCycle / 36524 - dayOfCycle / 146096) / 365
  let dayOfYear := dayOfCycle - (365 * yearOfCycle + yearOfCycle / 4 - yearOfCycle / 100)
  let monthFromMarch := (5 * dayOfYear + 2) / 153
  let month := if monthFromMarch < 10 then monthFromMarch + 3 else monthFromMarch - 9
  { year := yearOfCycle + shifted / 146097 * 400 + (if month ≤ 2 then 1 else 0)
    month := month
    day := dayOfYear - (153 * monthFromMarch + 2) / 5 + 1 }

end Date

/-- Decimal digits, filled up with zeros to `width`. -/
def padded (width n : Nat) : String :=
  let s := toString n
  String.ofList (List.replicate (width - s.length) '0') ++ s

namespace Date

/-- Years outside 0 to 9999 carry a sign; all have at least four digits. -/
def yearText (year : Int) : String :=
  if year < 0 then "-" ++ padded 4 year.natAbs
  else if 9999 < year then "+" ++ padded 4 year.natAbs
  else padded 4 year.natAbs

def text (d : Date) : String := yearText d.year ++ "-" ++ padded 2 d.month ++ "-" ++ padded 2 d.day

end Date

namespace Instant

/-- Three, six or nine digits, the fewest that are exact, and none for a whole second. -/
def fractionText (nanos : Nat) : String :=
  if nanos = 0 then ""
  else if nanos % 1000000 = 0 then "." ++ padded 3 (nanos / 1000000)
  else if nanos % 1000 = 0 then "." ++ padded 6 (nanos / 1000)
  else "." ++ padded 9 nanos

def text (t : Instant) : String :=
  let second := (t.seconds % 86400).toNat
  (Date.ofDays (t.seconds / 86400)).text ++ " " ++ padded 2 (second / 3600) ++ ":" ++
    padded 2 (second / 60 % 60) ++ ":" ++ padded 2 (second % 60) ++ fractionText t.fraction ++ " UTC"

end Instant

/-! ## Periods -/

/-- Milliseconds as they are below one second, else seconds with the decimals that are needed. -/
def periodText (millis : Nat) : String :=
  if millis < 1000 then toString millis ++ "ms"
  else
    let decimals :=
      if millis % 1000 = 0 then ""
      else if millis % 100 = 0 then "." ++ padded 1 (millis % 1000 / 100)
      else if millis % 10 = 0 then "." ++ padded 2 (millis % 1000 / 10)
      else "." ++ padded 3 (millis % 1000)
    toString (millis / 1000) ++ decimals ++ "s"

end Outbox

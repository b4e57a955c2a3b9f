import Outbox.Digits
import Outbox.Toml.Value

/-!
TOML scalars that are written as one word: numbers, dates and times, flags.
-/

namespace Outbox.Toml

/-! ## Digits -/

def isOctDigit (c : Char) : Bool := '0' ≤ c && c ≤ '7'

def isBinDigit (c : Char) : Bool := c = '0' || c = '1'

def isHexDigit (c : Char) : Bool := (Digits.ofChar? c).isSome

/-- Digits with single underscores between them, as the digits alone. -/
def digits? (isDigit : Char → Bool) : List Char → Option (List Char)
  | [] => none
  | [c] => if isDigit c then some [c] else none
  | c :: '_' :: rest => if isDigit c then (digits? isDigit rest).map (c :: ·) else none
  | c :: rest => if isDigit c then (digits? isDigit rest).map (c :: ·) else none

/-- Decimal digits without a leading zero. -/
def wholeDigits? (cs : List Char) : Option (List Char) :=
  match digits? Char.isDigit cs with
  | some ['0'] => some ['0']
  | some ('0' :: _) | none => none
  | some ds => some ds

def splitSign : List Char → Bool × List Char
  | '-' :: rest => (true, rest)
  | '+' :: rest => (false, rest)
  | cs => (false, cs)

/-! ## Integers -/

def radix? (base : Nat) (isDigit : Char → Bool) (cs : List Char) : Option Int :=
  (digits? isDigit cs).map fun ds => Digits.ofChars base ds

def decimal? (cs : List Char) : Option Int :=
  let (negative, rest) := splitSign cs
  (wholeDigits? rest).map fun ds => if negative then -(Digits.ofChars 10 ds : Int) else Digits.ofChars 10 ds

/-- Integers have 64 bits, with the sign. -/
def inRange (n : Int) : Bool := -(Nat.pow 2 63 : Int) ≤ n && n < Nat.pow 2 63

/-- The other bases take no sign. -/
def integer? (cs : List Char) : Option Int :=
  Option.filter inRange <| match cs with
    | '0' :: 'x' :: rest => radix? 16 isHexDigit rest
    | '0' :: 'o' :: rest => radix? 8 isOctDigit rest
    | '0' :: 'b' :: rest => radix? 2 isBinDigit rest
    | _ => decimal? cs

/-! ## Floats -/

/-- Whether `n · 10 ^ e` is rounded to infinity. -/
def overflows (n : Nat) (e : Int) : Bool :=
  let limit := Nat.pow 2 1024 - Nat.pow 2 970
  let size : Int := (Nat.toDigits 10 n).length + e
  if n = 0 || size < 300 then false
  else if 400 < size then true
  else if 0 ≤ e then limit ≤ n * Nat.pow 10 e.toNat
  else limit * Nat.pow 10 (-e).toNat ≤ n

def isExponentMark (c : Char) : Bool := c = 'e' || c = 'E'

/-- A whole part, then a fraction or an exponent or both. -/
def finite? (cs : List Char) : Bool :=
  let (negative, unsigned) := splitSign cs
  let (mantissa, exponent) := unsigned.span fun c => !isExponentMark c
  let (whole, fraction) := mantissa.span (· ≠ '.')
  let exponent? : Option Int := match exponent with
    | [] => some 0
    | _ :: rest =>
      let (minus, ds) := splitSign rest
      (digits? Char.isDigit ds).map fun ds => if minus then -(Digits.ofChars 10 ds : Int) else Digits.ofChars 10 ds
  let fraction? := match fraction with
    | [] => some []
    | _ :: ds => digits? Char.isDigit ds
  match wholeDigits? whole, fraction?, exponent? with
  | some w, some f, some e =>
    !(fraction.isEmpty && exponent.isEmpty) && (negative || !overflows (Digits.ofChars 10 (w ++ f)) (e - f.length))
  | _, _, _ => false

def special? (cs : List Char) : Bool :=
  let word := (splitSign cs).2
  word = ['i', 'n', 'f'] || word = ['n', 'a', 'n']

/-! ## Dates and times -/

/-- Exactly `width` digits at the front, within bounds. -/
def field? (width low high : Nat) (cs : List Char) : Option (Nat × List Char) :=
  let ds := cs.take width
  let n := Digits.ofChars 10 ds
  if ds.length = width && ds.all Char.isDigit && low ≤ n && n ≤ high then some (n, cs.drop width) else none

def expect (c : Char) : List Char → Option (List Char)
  | d :: rest => if c = d then some rest else none
  | [] => none

def daysIn (year month : Nat) : Nat :=
  if month = 2 then if year % 4 = 0 && (year % 100 ≠ 0 || year % 400 = 0) then 29 else 28
  else if month = 4 || month = 6 || month = 9 || month = 11 then 30
  else 31

def date? (cs : List Char) : Option (List Char) := do
  let (year, cs) ← field? 4 0 9999 cs
  let (month, cs) ← field? 2 1 12 (← expect '-' cs)
  let (_, cs) ← field? 2 1 (daysIn year month) (← expect '-' cs)
  return cs

/-- A second may be a leap second; its fraction has any number of digits. -/
def time? (cs : List Char) : Option (List Char) := do
  let (_, cs) ← field? 2 0 23 cs
  let (_, cs) ← field? 2 0 59 (← expect ':' cs)
  let (_, cs) ← field? 2 0 60 (← expect ':' cs)
  match cs with
  | '.' :: rest => if (rest.takeWhile Char.isDigit).isEmpty then none else some (rest.dropWhile Char.isDigit)
  | _ => some cs

def offset? : List Char → Option (List Char)
  | [] => some []
  | c :: cs =>
    if c = 'Z' || c = 'z' then some cs
    else if c = '+' || c = '-' then do
      let (_, cs) ← field? 2 0 23 cs
      let (_, cs) ← field? 2 0 59 (← expect ':' cs)
      return cs
    else none

def isTimeMark (c : Char) : Bool := c = 'T' || c = 't' || c = ' '

def isDatetime (cs : List Char) : Bool :=
  match date? cs with
  | some [] => true
  | some (c :: rest) => isTimeMark c && ((time? rest).bind offset?) == some []
  | none => time? cs == some []

def word? (cs : List Char) : Option Value :=
  if cs = ['t', 'r', 'u', 'e'] then some (.flag true)
  else if cs = ['f', 'a', 'l', 's', 'e'] then some (.flag false)
  else if isDatetime cs then some (.datetime (String.ofList cs))
  else if finite? cs || special? cs then some (.float (String.ofList cs))
  else (integer? cs).map .integer

end Outbox.Toml

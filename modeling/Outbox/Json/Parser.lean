import Outbox.Digits
import Outbox.Json.Value

/-!
Reading JSON text. Each reader gives the rest of the text.
-/

namespace Outbox.Json

abbrev Reader (α : Type) := List Char → Option (α × List Char)

def isSpace (c : Char) : Bool := c = ' ' || c = '\n' || c = '\t' || c = '\r'

def skipSpace (cs : List Char) : List Char := cs.dropWhile isSpace

/-! ## Strings -/

def simpleEscape? (c : Char) : Option Char :=
  if c = '\x22' || c = '\x5c' || c = '/' then some c
  else if c = 'b' then some '\x08'
  else if c = 'f' then some '\x0c'
  else if c = 'n' then some '\n'
  else if c = 'r' then some '\r'
  else if c = 't' then some '\t'
  else none

/-- The units of a string, behind its quotation mark: characters, and escaped 16 bit numbers. -/
def units? : List Char → Option (List (Char ⊕ Nat) × List Char)
  | [] => none
  | '\x22' :: rest => some ([], rest)
  | '\x5c' :: 'u' :: a :: b :: c :: d :: rest => do
    let n := Digits.toNat 16 (← [a, b, c, d].mapM Digits.ofChar?)
    let (us, rest) ← units? rest
    return (.inr n :: us, rest)
  | '\x5c' :: c :: rest => do
    let e ← simpleEscape? c
    let (us, rest) ← units? rest
    return (.inl e :: us, rest)
  | c :: rest =>
    if ' ' ≤ c ∧ c ≠ '\x5c' then do
      let (us, rest) ← units? rest
      return (.inl c :: us, rest)
    else none

def isHighSurrogate (n : Nat) : Bool := 0xD800 ≤ n && n < 0xDC00

def isLowSurrogate (n : Nat) : Bool := 0xDC00 ≤ n && n < 0xE000

/-- The characters that the units stand for; two escaped surrogates make one. -/
def combine? : List (Char ⊕ Nat) → Option (List Char)
  | [] => some []
  | .inl c :: us => (combine? us).map (c :: ·)
  | .inr n :: us =>
    if isHighSurrogate n then
      match us with
      | .inr m :: us =>
        if isLowSurrogate m then
          (combine? us).map (Char.ofNat (0x10000 + (n - 0xD800) * 0x400 + (m - 0xDC00)) :: ·)
        else none
      | _ => none
    else if isLowSurrogate n then none
    else (combine? us).map (Char.ofNat n :: ·)

def string? (cs : List Char) : Option (Option String × List Char) :=
  (units? cs).map fun r => ((combine? r.1).map String.ofList, r.2)

/-! ## Numbers -/

def whole? (cs : List Char) : Option (List Char × List Char) :=
  match cs with
  | '0' :: rest => some (['0'], rest)
  | _ =>
    let ds := cs.takeWhile Char.isDigit
    if ds.isEmpty then none else some (ds, cs.dropWhile Char.isDigit)

/-- The digits behind a point or an exponent mark; at least one is due. -/
def someDigits? (lead : List Char) (cs : List Char) : Option (List Char × List Char) :=
  let ds := cs.takeWhile Char.isDigit
  if ds.isEmpty then none else some (lead ++ ds, cs.dropWhile Char.isDigit)

def fraction? : List Char → Option (List Char × List Char)
  | '.' :: rest => someDigits? ['.'] rest
  | cs => some ([], cs)

def exponent? : List Char → Option (List Char × List Char)
  | c :: rest =>
    if c = 'e' ∨ c = 'E' then
      match rest with
      | '+' :: rest => someDigits? [c, '+'] rest
      | '-' :: rest => someDigits? [c, '-'] rest
      | _ => someDigits? [c] rest
    else some ([], c :: rest)
  | [] => some ([], [])

def number? (cs : List Char) : Option (Value × List Char) := do
  let (negative, cs) := match cs with
    | '-' :: rest => (true, rest)
    | _ => (false, cs)
  let (w, cs) ← whole? cs
  let (f, cs) ← fraction? cs
  let (e, cs) ← exponent? cs
  let n := Digits.ofChars 10 w
  if f.isEmpty && e.isEmpty && !(negative && n = 0) then
    return (.integer (if negative then -(n : Int) else n), cs)
  else
    let sign := if negative then ['-'] else []
    return (.decimal (String.ofList (sign ++ w ++ f ++ e)), cs)

/-! ## Values -/

/-- The rest of a list, from where an item is due. -/
def items? (value : Reader Value) (cs : List Char) : Option (List Value × List Char) :=
  match value (skipSpace cs) with
  | none => none
  | some (v, rest) =>
    match skipSpace rest with
    | ']' :: rest => some ([v], rest)
    | ',' :: rest =>
      if rest.length < cs.length then (items? value rest).map fun r => (v :: r.1, r.2) else none
    | _ => none
termination_by cs.length

def entry? (value : Reader Value) (cs : List Char) : Option ((Option String × Value) × List Char) :=
  match skipSpace cs with
  | '\x22' :: rest => do
    let (name, rest) ← string? rest
    match skipSpace rest with
    | ':' :: rest => do
      let (v, rest) ← value (skipSpace rest)
      return ((name, v), rest)
    | _ => none
  | _ => none

/-- The rest of an object, from where an entry is due. -/
def entries? (value : Reader Value) (cs : List Char) :
    Option (List (Option String × Value) × List Char) :=
  match entry? value cs with
  | none => none
  | some (e, rest) =>
    match skipSpace rest with
    | '\x7d' :: rest => some ([e], rest)
    | ',' :: rest =>
      if rest.length < cs.length then (entries? value rest).map fun r => (e :: r.1, r.2) else none
    | _ => none
termination_by cs.length

def list? (value : Reader Value) (cs : List Char) : Option (Value × List Char) :=
  match skipSpace cs with
  | ']' :: rest => some (.list [], rest)
  | _ => (items? value cs).map fun r => (.list r.1, r.2)

def object? (value : Reader Value) (cs : List Char) : Option (Value × List Char) :=
  match skipSpace cs with
  | '\x7d' :: rest => some (.object [], rest)
  | _ => (entries? value cs).map fun r => (.object r.1, r.2)

/-- A value with lists and objects nested at most `depth` deep. -/
def value? : (depth : Nat) → Reader Value
  | _, 'n' :: 'u' :: 'l' :: 'l' :: rest => some (.null, rest)
  | _, 't' :: 'r' :: 'u' :: 'e' :: rest => some (.flag true, rest)
  | _, 'f' :: 'a' :: 'l' :: 's' :: 'e' :: rest => some (.flag false, rest)
  | _, '\x22' :: rest => (string? rest).map fun r => (.text r.1, r.2)
  | depth + 1, '[' :: rest => list? (value? depth) rest
  | depth + 1, '\x7b' :: rest => object? (value? depth) rest
  | _, cs => number? cs

/-- The value of a whole text. It cannot nest deeper than it is long. -/
def parse? (s : String) : Option Value :=
  match value? s.length (skipSpace s.toList) with
  | some (v, rest) => if skipSpace rest = [] then some v else none
  | none => none

end Outbox.Json

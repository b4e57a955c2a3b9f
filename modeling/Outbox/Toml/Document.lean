import Outbox.Toml.Text

/-!
TOML documents: keys, values of any depth up to a limit, and the lines of a document.
-/

namespace Outbox.Toml

/-! ## Keys -/

def isBareKeyChar (c : Char) : Bool := c.isAlphanum || c = '-' || c = '_'

def simpleKey? : Reader String
  | cs@('\x22' :: _) => shortString? cs
  | cs@('\x27' :: _) => shortString? cs
  | cs =>
    let word := cs.takeWhile isBareKeyChar
    if word.isEmpty then none else some (String.ofList word, cs.dropWhile isBareKeyChar)

/-- How deep arrays and inline tables nest, and how long dotted keys are, must stay below this. -/
def depthLimit : Nat := 80

/-- Up to `limit` keys with dots between them, and blanks around each. -/
def keys? : (limit : Nat) → Reader (List String)
  | 0, _ => none
  | n + 1, cs => do
    let (k, cs) ← simpleKey? (skipBlanks cs)
    match skipBlanks cs with
    | '.' :: rest => do
      let (ks, rest) ← keys? n rest
      return (k :: ks, rest)
    | rest => return ([k], rest)

/-- A dotted key as the path to a table and the key in it. -/
def dottedKey? (cs : List Char) : Option ((List String × String) × List Char) := do
  let (ks, rest) ← keys? (depthLimit - 1) cs
  return ((ks.dropLast, ks.getLastD ""), rest)

/-! ## Values -/

def isWordChar (c : Char) : Bool := c.isAlphanum || c = '+' || c = '-' || c = '_' || c = '.' || c = ':'

/-- A word; a time may stand one space behind a date. -/
def scalar? (cs : List Char) : Option (Value × List Char) :=
  let word := cs.takeWhile isWordChar
  let rest := cs.dropWhile isWordChar
  match rest with
  | ' ' :: c :: more =>
    if date? word = some [] ∧ c.isDigit then
      let time := (c :: more).takeWhile isWordChar
      (word? (word ++ ' ' :: time)).map (·, (c :: more).dropWhile isWordChar)
    else (word? word).map (·, rest)
  | _ => (word? word).map (·, rest)

/-- The rest of an array, from where an element or the end is due. -/
def items? (value : Reader Value) (cs : List Char) : Option (List Value × List Char) :=
  match skipFiller false cs with
  | ']' :: rest => some ([], rest)
  | start =>
    match value start with
    | none => none
    | some (v, rest) =>
      match skipFiller false rest with
      | ']' :: rest => some ([v], rest)
      | ',' :: rest =>
        if rest.length < cs.length then (items? value rest).map fun r => (v :: r.1, r.2) else none
      | _ => none
termination_by cs.length

def assignment? (value : Reader Value) : Reader (List String × String × Value) := fun cs => do
  let ((path, key), rest) ← dottedKey? cs
  match rest with
  | '=' :: rest => do
    let (v, rest) ← value (skipBlanks rest)
    return ((path, key, v), rest)
  | _ => none

/-- The rest of an inline table, from where an assignment is due. -/
def assignments? (value : Reader Value) (cs : List Char) :
    Option (List (List String × String × Value) × List Char) :=
  match assignment? value cs with
  | none => none
  | some (a, rest) =>
    match skipBlanks rest with
    | '\x7d' :: rest => some ([a], rest)
    | ',' :: rest =>
      if rest.length < cs.length then (assignments? value rest).map fun r => (a :: r.1, r.2) else none
    | _ => none
termination_by cs.length

def inlineTable? (value : Reader Value) (cs : List Char) : Option (Value × List Char) :=
  match skipBlanks cs with
  | '\x7d' :: rest => some (.table (.empty .inline), rest)
  | _ => do
    let (l, rest) ← assignments? value cs
    return (.table (← Table.ofAssignments? l), rest)

/-- A value with arrays and inline tables nested at most `depth` deep. -/
def value? : (depth : Nat) → Reader Value
  | _, cs@('\x22' :: _) => (string? cs).map fun r => (.text r.1, r.2)
  | _, cs@('\x27' :: _) => (string? cs).map fun r => (.text r.1, r.2)
  | depth + 1, '[' :: rest => (items? (value? depth) rest).map fun r => (.array r.1, r.2)
  | depth + 1, '\x7b' :: rest => inlineTable? (value? depth) rest
  | _, cs => scalar? cs

/-! ## Lines -/

/-- The next line that says something, which begins with neither blank, comment nor line end. -/
def line? : Reader Line
  | '[' :: '[' :: rest => do
    let ((path, key), rest) ← dottedKey? rest
    match rest with
    | ']' :: ']' :: rest => return (.element path key, ← trailing? rest)
    | _ => none
  | '[' :: rest => do
    let ((path, key), rest) ← dottedKey? rest
    match rest with
    | ']' :: rest => return (.table path key, ← trailing? rest)
    | _ => none
  | cs => do
    let ((path, key, v), rest) ← assignment? (value? (depthLimit - 1)) cs
    return (.assign path key v, ← trailing? rest)

def lines? (cs : List Char) : Option (List Line) :=
  match skipBlanks cs with
  | [] => some []
  | c :: rest =>
    if c = '#' ∨ c = '\n' ∨ c = '\r' then
      match trailing? (c :: rest) with
      | some rest => if rest.length < cs.length then lines? rest else none
      | none => none
    else
      match line? (c :: rest) with
      | some (l, rest) => if rest.length < cs.length then (lines? rest).map (l :: ·) else none
      | none => none
termination_by cs.length

def byteOrderMark : Char := '\uFEFF'

/-- The root table of a document; a byte order mark at its start is skipped. -/
def parse? (s : String) : Option Table := do
  let cs := match s.toList with
    | c :: rest => if c = byteOrderMark then rest else c :: rest
    | [] => []
  Table.ofLines? (← lines? cs)

end Outbox.Toml

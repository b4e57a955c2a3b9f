import Outbox.Toml.Scalar

/-!
TOML strings, and the white space and comments around things. Each reader gives the rest of the text.
-/

namespace Outbox.Toml

abbrev Reader (α : Type) := List Char → Option (α × List Char)

def isBlank (c : Char) : Bool := c = ' ' || c = '\t'

/-- Tabs, and everything but control characters. -/
def isPlain (c : Char) : Bool := c = '\t' || (' ' ≤ c && c ≠ '\x7f')

def skipBlanks (cs : List Char) : List Char := cs.dropWhile isBlank

/-- A line ends with a line feed, which may follow a carriage return, or with the text. -/
def lineEnd? : List Char → Option (List Char)
  | [] => some []
  | '\n' :: rest => some rest
  | '\r' :: '\n' :: rest => some rest
  | _ => none

/-- What may stand behind the last thing on a line. -/
def trailing? (cs : List Char) : Option (List Char) :=
  match skipBlanks cs with
  | '#' :: rest => lineEnd? (rest.dropWhile isPlain)
  | rest => lineEnd? rest

/-- White space, line ends and comments, as they may stand inside an array; `comment` says whether a
comment is open. -/
def skipFiller (comment : Bool) : List Char → List Char
  | [] => []
  | '\n' :: rest => skipFiller false rest
  | '\r' :: '\n' :: rest => skipFiller false rest
  | c :: rest =>
    if comment then if isPlain c then skipFiller true rest else c :: rest
    else if isBlank c then skipFiller false rest
    else if c = '#' then skipFiller true rest
    else c :: rest

/-! ## Strings -/

def ofHex? (ds : List Char) : Option Char :=
  let n := Digits.ofChars 16 ds
  if ds.all isHexDigit && n.isValidChar then some (Char.ofNat n) else none

def simpleEscape? (c : Char) : Option Char :=
  if c = 'b' then some '\x08'
  else if c = 't' then some '\t'
  else if c = 'n' then some '\n'
  else if c = 'f' then some '\x0c'
  else if c = 'r' then some '\r'
  else if c = '\x22' || c = '\x5c' then some c
  else none

def escape? : Reader Char
  | 'u' :: a :: b :: c :: d :: rest => (ofHex? [a, b, c, d]).map (·, rest)
  | 'U' :: a :: b :: c :: d :: e :: f :: g :: h :: rest => (ofHex? [a, b, c, d, e, f, g, h]).map (·, rest)
  | c :: rest => (simpleEscape? c).map (·, rest)
  | [] => none

theorem length_escape? {cs rest : List Char} {c : Char} (h : escape? cs = some (c, rest)) :
    rest.length < cs.length := by
  unfold escape? at h
  split at h <;> simp at h
  · obtain ⟨_, _, _, rfl⟩ := h; simp; omega
  · obtain ⟨_, _, _, rfl⟩ := h; simp; omega
  · obtain ⟨_, _, _, rfl⟩ := h; simp

/-- A string in quotation marks, behind the first of them. -/
def quoted? (cs : List Char) : Option (List Char × List Char) :=
  match cs with
  | [] => none
  | '\x22' :: rest => some ([], rest)
  | '\x5c' :: rest =>
    match h : escape? rest with
    | some (c, rest') =>
      have := length_escape? h
      (quoted? rest').map fun r => (c :: r.1, r.2)
    | none => none
  | c :: rest => if isPlain c then (quoted? rest).map fun r => (c :: r.1, r.2) else none
termination_by cs.length
decreasing_by all_goals simp; try omega

/-- A string in apostrophes, behind the first of them, in which nothing is escaped. -/
def literal? : List Char → Option (List Char × List Char)
  | [] => none
  | '\x27' :: rest => some ([], rest)
  | c :: rest => if isPlain c then (literal? rest).map fun r => (c :: r.1, r.2) else none

/-- The end of a string of several lines that three marks close: up to two more marks belong to it. -/
def closing (mark : Char) : List Char → List Char × List Char
  | a :: b :: rest =>
    if a = mark then if b = mark then ([a, b], rest) else ([a], b :: rest) else ([], a :: b :: rest)
  | [a] => if a = mark then ([a], []) else ([], [a])
  | [] => ([], [])

/-- Whether only white space is left on the line, so that a backslash before it drops the line end and
all white space behind that. -/
def isGapStart (cs : List Char) : Bool :=
  match skipBlanks cs with
  | '\n' :: _ => true
  | '\r' :: '\n' :: _ => true
  | _ => false

/-- A string of several lines in triple quotation marks, behind the first three; `skipping` says
whether white space is being dropped. -/
def quotedLines? (skipping : Bool) (cs : List Char) : Option (List Char × List Char) :=
  match cs with
  | [] => none
  | '\n' :: rest =>
    if skipping then quotedLines? true rest
    else (quotedLines? false rest).map fun r => ('\n' :: r.1, r.2)
  | '\r' :: '\n' :: rest =>
    if skipping then quotedLines? true rest
    else (quotedLines? false rest).map fun r => ('\n' :: r.1, r.2)
  | '\x22' :: '\x22' :: '\x22' :: rest => some (closing '\x22' rest)
  | '\x5c' :: rest =>
    if isGapStart rest then quotedLines? true rest
    else
      match h : escape? rest with
      | some (c, rest') =>
        have := length_escape? h
        (quotedLines? false rest').map fun r => (c :: r.1, r.2)
      | none => none
  | c :: rest =>
    if isPlain c then
      if skipping && isBlank c then quotedLines? true rest
      else (quotedLines? false rest).map fun r => (c :: r.1, r.2)
    else none
termination_by cs.length
decreasing_by all_goals simp; try omega

/-- A string of several lines in triple apostrophes, behind the first three. -/
def literalLines? : List Char → Option (List Char × List Char)
  | [] => none
  | '\n' :: rest => (literalLines? rest).map fun r => ('\n' :: r.1, r.2)
  | '\r' :: '\n' :: rest => (literalLines? rest).map fun r => ('\n' :: r.1, r.2)
  | '\x27' :: '\x27' :: '\x27' :: rest => some (closing '\x27' rest)
  | c :: rest => if isPlain c then (literalLines? rest).map fun r => (c :: r.1, r.2) else none

/-- A line end right behind the opening marks does not count. -/
def skipFirstLineEnd : List Char → List Char
  | '\n' :: rest => rest
  | '\r' :: '\n' :: rest => rest
  | cs => cs

def shortString? : Reader String
  | '\x22' :: rest => (quoted? rest).map fun r => (String.ofList r.1, r.2)
  | '\x27' :: rest => (literal? rest).map fun r => (String.ofList r.1, r.2)
  | _ => none

def string? : Reader String
  | '\x22' :: '\x22' :: '\x22' :: rest =>
    (quotedLines? false (skipFirstLineEnd rest)).map fun r => (String.ofList r.1, r.2)
  | '\x27' :: '\x27' :: '\x27' :: rest =>
    (literalLines? (skipFirstLineEnd rest)).map fun r => (String.ofList r.1, r.2)
  | cs => shortString? cs

end Outbox.Toml

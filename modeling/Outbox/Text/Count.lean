/-!
Counts as text: numbers below a limit in decimal digits.
-/

namespace Outbox

inductive CountError where
  | empty
  | invalidDigit
  | tooLarge
deriving DecidableEq

def CountError.message : CountError → String
  | empty => "cannot parse integer from empty string"
  | invalidDigit => "invalid digit found in string"
  | tooLarge => "number too large to fit in target type"

/-- Goes on from `n` with further digits; the first character that cannot be taken decides. -/
def countFrom (limit n : Nat) : List Char → Except CountError Nat
  | [] => .ok n
  | c :: cs =>
    if c.isDigit then
      let n := n * 10 + (c.toNat - '0'.toNat)
      if n < limit then countFrom limit n cs else .error .tooLarge
    else .error .invalidDigit

def readCount (limit : Nat) (s : String) : Except CountError Nat :=
  match s.toList with
  | [] => .error .empty
  | ['+'] => .error .invalidDigit
  | '+' :: cs => countFrom limit 0 cs
  | cs => countFrom limit 0 cs

end Outbox

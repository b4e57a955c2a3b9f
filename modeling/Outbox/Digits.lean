/-!
Numerals of a fixed width: the digits of a number in some base, the most significant first.
-/

namespace Outbox.Digits

/-- The `width` lowest digits of `n` in base `b`. -/
def ofNat (b : Nat) : (width : Nat) → (n : Nat) → List Nat
  | 0, _ => []
  | w + 1, n => n / Nat.pow b w % b :: ofNat b w n

def toNat (b : Nat) (ds : List Nat) : Nat := ds.foldl (fun n d => n * b + d) 0

/-- The value of a digit of base 16 or less, in either case. -/
def ofChar? (c : Char) : Option Nat :=
  if c.isDigit then some (c.toNat - '0'.toNat)
  else if 'a' ≤ c.toLower ∧ c.toLower ≤ 'f' then some (c.toLower.toNat - 'a'.toNat + 10)
  else none

/-- The number that these characters stand for, all of which are digits. -/
def ofChars (b : Nat) (cs : List Char) : Nat := toNat b (cs.filterMap ofChar?)

end Outbox.Digits

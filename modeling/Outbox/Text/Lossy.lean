/-!
A readable text of any bytes: well-formed UTF-8 is decoded, and each maximal part that begins like a
character but does not become one is shown as a single replacement character.
-/

namespace Outbox.Lossy

/-- What a first byte announces: the range of the second byte and how many more follow that one. -/
structure Lead where
  low : Nat
  high : Nat
  more : Nat

def lead? (b : Nat) : Option Lead :=
  if 0xC2 ≤ b ∧ b ≤ 0xDF then some ⟨0x80, 0xBF, 0⟩
  else if b = 0xE0 then some ⟨0xA0, 0xBF, 1⟩
  else if b = 0xED then some ⟨0x80, 0x9F, 1⟩
  else if 0xE1 ≤ b ∧ b ≤ 0xEF then some ⟨0x80, 0xBF, 1⟩
  else if b = 0xF0 then some ⟨0x90, 0xBF, 2⟩
  else if 0xF1 ≤ b ∧ b ≤ 0xF3 then some ⟨0x80, 0xBF, 2⟩
  else if b = 0xF4 then some ⟨0x80, 0x8F, 2⟩
  else none

/-- The length of the longest beginning of `bs` in which a second byte in range and at most `more`
continuation bytes stand. -/
def tailLength (l : Lead) : List UInt8 → Nat
  | [] => 0
  | b :: bs =>
    if l.low ≤ b.toNat ∧ b.toNat ≤ l.high then
      1 + ((bs.take l.more).takeWhile fun c => 0x80 ≤ c.toNat ∧ c.toNat ≤ 0xBF).length
    else 0

def replacement : Char := '\uFFFD'

/-- The character of a complete sequence: the payload bits of its first byte, then six of each other. -/
def assemble (first : Nat) (tail : List UInt8) : Char :=
  let payload := first % Nat.pow 2 (6 - tail.length)
  Char.ofNat (tail.foldl (fun n b => n * 64 + b.toNat % 64) payload)

def decode : List UInt8 → List Char
  | [] => []
  | b :: bs =>
    if b.toNat < 0x80 then Char.ofNat b.toNat :: decode bs
    else
      match lead? b.toNat with
      | none => replacement :: decode bs
      | some l =>
        let n := tailLength l bs
        (if n = l.more + 1 then assemble b.toNat (bs.take n) else replacement) :: decode (bs.drop n)
termination_by bs => bs.length
decreasing_by all_goals simp; try omega

/-- Where the first part begins that does not become a character, counted from `start`, and how long
it is, unless the end of the bytes cuts it off. -/
def fault? (start : Nat) : List UInt8 → Option (Nat × Option Nat)
  | [] => none
  | b :: bs =>
    if b.toNat < 0x80 then fault? (start + 1) bs
    else
      match lead? b.toNat with
      | none => some (start, some 1)
      | some l =>
        let n := tailLength l bs
        if n = l.more + 1 then fault? (start + 1 + n) (bs.drop n)
        else some (start, if (bs.drop n).isEmpty then none else some (n + 1))
termination_by bs => bs.length
decreasing_by all_goals simp only [List.length_drop, List.length_cons]; omega

end Outbox.Lossy

namespace Outbox

def lossyText (bs : List UInt8) : String := String.ofList (Lossy.decode bs)

end Outbox

import Outbox.Blob.Reader

/-!
Columns of bytes. Where all values are small, or lie close together, several of them share a byte.
-/

namespace Outbox.Blob

/-- How many values share a byte, as the digits of a numeral. -/
inductive Packing where
  | whole | twos | threes | fours | fives | eights
deriving DecidableEq

namespace Packing

def perByte : Packing → Nat
  | whole => 1 | twos => 2 | threes => 3 | fours => 4 | fives => 5 | eights => 8

def base : Packing → Nat
  | whole => 256 | twos => 16 | threes => 6 | fours => 4 | fives => 3 | eights => 2

def rank : Packing → Nat
  | whole => 0 | twos => 1 | threes => 2 | fours => 3 | fives => 4 | eights => 5

def fitting (m : Nat) : Packing :=
  if m ≤ 1 then eights
  else if m ≤ 2 then fives
  else if m ≤ 3 then fours
  else if m ≤ 5 then threes
  else if m ≤ 15 then twos
  else whole

def ofRank? : Nat → Option Packing
  | 0 => some whole | 1 => some twos | 2 => some threes | 3 => some fours | 4 => some fives
  | 5 => some eights | _ => none

/-- The numeral with these digits, the first one least significant. -/
def numeral (b : Nat) : List UInt8 → Nat
  | [] => 0
  | v :: vs => v.toNat + b * numeral b vs

/-- The `count` lowest digits of `n`, the first one least significant. -/
def digits (b : Nat) : (count n : Nat) → List UInt8
  | 0, _ => []
  | c + 1, n => UInt8.ofNat (n % b) :: digits b c (n / b)

def pack (p : Packing) : List UInt8 → List UInt8
  | [] => []
  | v :: vs =>
    UInt8.ofNat (numeral p.base (v :: vs.take (p.perByte - 1))) :: pack p (vs.drop (p.perByte - 1))
termination_by vs => vs.length
decreasing_by simp only [List.length_drop, List.length_cons]; omega

def packedSize (p : Packing) (n : Nat) : Nat := (n + p.perByte - 1) / p.perByte

def unpack (p : Packing) (n : Nat) (bs : List UInt8) : List UInt8 :=
  (bs.flatMap fun b => digits p.base p.perByte b.toNat).take n

end Packing

def largest (vs : List UInt8) : Nat := vs.foldl (fun m v => max m v.toNat) 0

def smallest (vs : List UInt8) : Nat := vs.foldl (fun m v => min m v.toNat) 255

/-- Up to two values stand as they are. More are led by a tag that gives the packing and, where it
pays, by the smallest value, which is then taken off all of them. -/
def writeBytes (vs : List UInt8) : List UInt8 :=
  if vs.length ≤ 2 then vs
  else
    let basic := Packing.fitting (largest vs)
    let shifted := Packing.fitting (largest vs - smallest vs)
    if basic.rank < shifted.rank ∧ 5 < vs.length then
      let low := UInt8.ofNat (smallest vs)
      UInt8.ofNat (2 * shifted.rank - 1) :: low :: shifted.pack (vs.map (· - low))
    else UInt8.ofNat (2 * basic.rank) :: basic.pack vs

def readPacked (p : Packing) (n : Nat) : Reader (List UInt8) := do
  return p.unpack n (← take (p.packedSize n))

/-- Reads `n` values; the addition of the smallest one wraps. -/
def readBytes (n : Nat) : Reader (List UInt8) :=
  if n ≤ 2 then take n
  else do
    let tag ← byte
    match Packing.ofRank? ((tag.toNat + 1) / 2) with
    | none => throw .badPacking
    | some p =>
      if tag.toNat % 2 = 1 then
        let low ← byte
        return (← readPacked p n).map (· + low)
      else readPacked p n

end Outbox.Blob

import Outbox.Blob.Bytes

/-!
Columns of numbers below 2^64, in the narrowest width that holds them all.
-/

namespace Outbox.Blob

inductive Width where
  | bits64 | bits32 | bits16 | bits8
deriving DecidableEq

namespace Width

def size : Width → Nat
  | bits64 => 8 | bits32 => 4 | bits16 => 2 | bits8 => 1

def rank : Width → Nat
  | bits64 => 0 | bits32 => 1 | bits16 => 2 | bits8 => 3

def fitting (m : Nat) : Width :=
  if m ≤ 0xFF then bits8
  else if m ≤ 0xFFFF then bits16
  else if m ≤ 0xFFFFFFFF then bits32
  else bits64

def ofRank? : Nat → Option Width
  | 0 => some bits64 | 1 => some bits32 | 2 => some bits16 | 3 => some bits8 | _ => none

end Width

/-- The `size` lowest bytes of `n`, the least significant first. -/
def littleEndian : (size n : Nat) → List UInt8
  | 0, _ => []
  | s + 1, n => UInt8.ofNat n :: littleEndian s (n / 256)

def ofLittleEndian : List UInt8 → Nat
  | [] => 0
  | b :: bs => b.toNat + 256 * ofLittleEndian bs

def largestOf (ns : List Nat) : Nat := ns.foldl max 0

def smallestOf (ns : List Nat) : Nat := ns.foldl min (Nat.pow 2 64 - 1)

def spread (ns : List Nat) : Nat := largestOf ns - smallestOf ns

/-- Numbers of one byte are a column of bytes. -/
def writeWidth (w : Width) (ns : List Nat) : List UInt8 :=
  match w with
  | .bits8 => writeBytes (ns.map UInt8.ofNat)
  | _ => ns.flatMap (littleEndian w.size)

/-- A tag gives the width. Where it pays, the smallest number follows and is taken off all of them;
a glance at the first sixteen may settle for the full width. -/
def writeNumbers (ns : List Nat) : List UInt8 :=
  if ns = [] then []
  else if Width.fitting (spread (ns.take 16)) = .bits64 then 0 :: writeWidth .bits64 ns
  else
    let basic := Width.fitting (largestOf ns)
    let shifted := Width.fitting (spread ns)
    if basic.rank < shifted.rank ∧ 5 < ns.length then
      let low := smallestOf ns
      UInt8.ofNat (2 * shifted.rank - 1) :: (littleEndian 8 low ++ writeWidth shifted (ns.map (· - low)))
    else UInt8.ofNat (2 * basic.rank) :: writeWidth basic ns

def readFixed (size : Nat) : (count : Nat) → Reader (List Nat)
  | 0 => return []
  | c + 1 => do
    let n := ofLittleEndian (← take size)
    return n :: (← readFixed size c)

def readWidth (w : Width) (count : Nat) : Reader (List Nat) :=
  match w with
  | .bits8 => do return (← readBytes count).map UInt8.toNat
  | _ => readFixed w.size count

/-- Reads `count` numbers; the addition of the smallest one wraps. -/
def readNumbers (count : Nat) : Reader (List Nat) :=
  if count = 0 then return []
  else do
    let tag ← byte
    match Width.ofRank? ((tag.toNat + 1) / 2) with
    | none => throw .badPacking
    | some w =>
      if tag.toNat % 2 = 1 then
        let low := ofLittleEndian (← take 8)
        return (← readWidth w count).map fun n => (n + low) % Nat.pow 2 64
      else readWidth w count

end Outbox.Blob

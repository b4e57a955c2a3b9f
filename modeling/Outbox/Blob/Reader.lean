/-!
Readers of the binary form: each takes what it needs from the front of the input and leaves the rest.
-/

namespace Outbox

inductive BlobError where
  | endOfInput
  | badPacking
  | lengthOverflow
  | hugeLength
  | badText
  | trailingInput
deriving DecidableEq

def BlobError.message : BlobError → String
  | .endOfInput => "EOF"
  | .badPacking => "invalid packing"
  | .lengthOverflow => "length overflow"
  | .hugeLength => "huge length"
  | .badText => "invalid utf8"
  | .trailingInput => "Expected EOF"

namespace Blob

abbrev Reader (α : Type) := StateT (List UInt8) (Except BlobError) α

def take (n : Nat) : Reader (List UInt8) := fun input =>
  if n ≤ input.length then .ok (input.splitAt n) else .error .endOfInput

def byte : Reader UInt8 := fun
  | [] => .error .endOfInput
  | b :: rest => .ok (b, rest)

/-- The value of a reader that uses up the input. -/
def Reader.readAll {α : Type} (r : Reader α) (input : List UInt8) : Except BlobError α :=
  match r input with
  | .ok (a, []) => .ok a
  | .ok (_, _ :: _) => .error .trailingInput
  | .error e => .error e

end Blob

end Outbox

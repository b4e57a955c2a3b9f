import Outbox.Blob.Numbers

/-!
Columns of lengths and of texts. A length below 255 is one byte; 255 stands for a longer one, which
follows in a column of its own. Texts are their lengths in UTF-8 and then their bytes.
-/

namespace Outbox.Blob

def longMark : Nat := 255

def writeLengths (ns : List Nat) : List UInt8 :=
  writeBytes (ns.map fun n => UInt8.ofNat (min n longMark)) ++ writeNumbers (ns.filter (longMark ≤ ·))

/-- Puts the long lengths where the short ones say. -/
def fillLengths : (short : List UInt8) → (long : List Nat) → List Nat
  | [], _ => []
  | b :: bs, [] => b.toNat :: fillLengths bs []
  | b :: bs, n :: ns =>
    if b.toNat = longMark then n :: fillLengths bs ns else b.toNat :: fillLengths bs (n :: ns)

/-- Sums from here on are refused. -/
def hugeLength : Nat := Nat.pow 2 51 - 1

def total (ns : List Nat) : Nat := ns.foldl (· + ·) 0

def checkTotal (short : List UInt8) (lengths : List Nat) : Except BlobError Unit :=
  if total (short.map UInt8.toNat) < longMark then .ok ()
  else if Nat.pow 2 64 ≤ total lengths then .error .lengthOverflow
  else if hugeLength ≤ total lengths then .error .hugeLength
  else .ok ()

def readLengths (count : Nat) : Reader (List Nat) := do
  let short ← readBytes count
  let long ← readNumbers (short.countP (·.toNat = longMark))
  let lengths := fillLengths short long
  checkTotal short lengths
  return lengths

def readLength : Reader Nat := do
  return (← readLengths 1).headD 0

def utf8 (s : String) : List UInt8 := s.toUTF8.data.toList

def ofUtf8? (bs : List UInt8) : Option String := String.fromUTF8? ⟨bs.toArray⟩

def writeTexts (ss : List String) : List UInt8 :=
  writeLengths (ss.map fun s => (utf8 s).length) ++ ss.flatMap utf8

def cutTexts : (lengths : List Nat) → (bytes : List UInt8) → Option (List String)
  | [], _ => some []
  | n :: ns, bs => do
    let s ← ofUtf8? (bs.take n)
    return s :: (← cutTexts ns (bs.drop n))

def readTexts (count : Nat) : Reader (List String) := do
  let lengths ← readLengths count
  let bytes ← take (total lengths)
  match cutTexts lengths bytes with
  | some ss => return ss
  | none => throw .badText

def readText : Reader String := do
  return (← readTexts 1).headD ""

end Outbox.Blob

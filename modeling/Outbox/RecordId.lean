import Outbox.Digits
import Outbox.Instant

/-!
Record ids: 128 bits, the upper 48 a timestamp in milliseconds and the lower 80 random, so that ids
sort by the time of their making. Their text has 26 digits of base 32; relational columns hold the
same bits as 16 bytes, written as a UUID.
-/

namespace Outbox

structure RecordId where
  number : Nat
  number_lt : number < Nat.pow 2 128
deriving DecidableEq

namespace RecordId

theorem ext {a b : RecordId} (h : a.number = b.number) : a = b := by
  cases a; cases b; cases h; rfl

instance : LT RecordId := ⟨fun a b => a.number < b.number⟩
instance : LE RecordId := ⟨fun a b => a.number ≤ b.number⟩
instance : DecidableLT RecordId := fun a b => inferInstanceAs (Decidable (a.number < b.number))
instance : DecidableLE RecordId := fun a b => inferInstanceAs (Decidable (a.number ≤ b.number))

theorem lt_def {a b : RecordId} : a < b ↔ a.number < b.number := Iff.rfl
theorem le_def {a b : RecordId} : a ≤ b ↔ a.number ≤ b.number := Iff.rfl

instance : Std.Irrefl (α := RecordId) (· < ·) := ⟨fun a => Nat.lt_irrefl a.number⟩
instance : Trans (α := RecordId) (β := RecordId) (γ := RecordId) (· < ·) (· < ·) (· < ·) :=
  ⟨fun {_ b _} h₁ h₂ => @Nat.lt_trans _ b.number _ h₁ h₂⟩
instance : Std.Trichotomous (α := RecordId) (· < ·) :=
  ⟨fun a b h₁ h₂ => ext (by simp only [lt_def] at h₁ h₂; omega)⟩

def ofNat (n : Nat) : RecordId := ⟨n % Nat.pow 2 128, Nat.mod_lt _ (by decide)⟩

/-- Higher bits of either part are dropped. -/
def ofParts (timestamp random : Nat) : RecordId :=
  ofNat (timestamp % Nat.pow 2 48 * Nat.pow 2 80 + random % Nat.pow 2 80)

def timestamp (id : RecordId) : Nat := id.number / Nat.pow 2 80

def random (id : RecordId) : Nat := id.number % Nat.pow 2 80

def nth (n : Nat) : RecordId := ofParts 0 n

/-- An id made at that time; times before 1970 count as its start. -/
def stamped (now : Instant) (random : Nat) : RecordId := ofParts now.millis.toNat random

/-! ## Text -/

/-- The letters that look like another digit, and U, stand for none. -/
def alphabet : List Char :=
  ['0', '1', '2', '3', '4', '5', '6', '7', '8', '9', 'A', 'B', 'C', 'D', 'E', 'F', 'G', 'H', 'J', 'K',
    'M', 'N', 'P', 'Q', 'R', 'S', 'T', 'V', 'W', 'X', 'Y', 'Z']

def digitChar (d : Nat) : Char := alphabet.getD d '0'

def digit? (c : Char) : Option Nat := alphabet.idxOf? c.toUpper

def chars (id : RecordId) : List Char := (Digits.ofNat 32 26 id.number).map digitChar

def text (id : RecordId) : String := String.ofList id.chars

/-- Reads 26 digits; what exceeds 128 bits is dropped. -/
def ofChars? (cs : List Char) : Option RecordId :=
  if cs.length = 26 then (cs.mapM digit?).map fun ds => ofNat (Digits.toNat 32 ds) else none

def ofText? (s : String) : Option RecordId := ofChars? s.toList

/-! ## Column value -/

def bytes (id : RecordId) : List UInt8 := (Digits.ofNat 256 16 id.number).map UInt8.ofNat

def ofBytes (bs : List UInt8) : RecordId := ofNat (Digits.toNat 256 (bs.map UInt8.toNat))

/-- Lower-case hexadecimal digits in groups of 8, 4, 4, 4 and 12. -/
def uuidText (id : RecordId) : String :=
  let ds := (Digits.ofNat 16 32 id.number).map Nat.digitChar
  let group (start size : Nat) := (ds.drop start).take size
  String.ofList (group 0 8 ++ '-' :: group 8 4 ++ '-' :: group 12 4 ++ '-' :: group 16 4 ++ '-' :: group 20 12)

/-- Reads the groups back, in either case. -/
def ofUuidText? (s : String) : Option RecordId :=
  let group (start size : Nat) := (s.toList.drop start).take size
  let hyphens := [8, 13, 18, 23].all fun i => s.toList[i]? = some '-'
  if s.length = 36 ∧ hyphens then
    ((group 0 8 ++ group 9 4 ++ group 14 4 ++ group 19 4 ++ group 24 12).mapM Digits.ofChar?).map
      fun ds => ofNat (Digits.toNat 16 ds)
  else none

end RecordId

end Outbox

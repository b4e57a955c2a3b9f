import Mathlib.Algebra.Group.Nat.Defs
import Outbox.Digits

/-!
# Numerals

Numerals have the width and the digits that were asked for, and reading undoes writing.
-/

namespace Outbox.Digits

theorem length_ofNat (b w n : Nat) : (ofNat b w n).length = w := by
  induction w with
  | zero => rfl
  | succ w ih => simp [ofNat, ih]

theorem lt_of_mem_ofNat {b w n d : Nat} (hb : 0 < b) (h : d ∈ ofNat b w n) : d < b := by
  induction w with
  | zero => simp [ofNat] at h
  | succ w ih =>
    rcases List.mem_cons.1 h with rfl | h
    · exact Nat.mod_lt _ hb
    · exact ih h

theorem foldl_eq (b k : Nat) (ds : List Nat) :
    ds.foldl (fun n d => n * b + d) k = k * b ^ ds.length + toNat b ds := by
  unfold toNat
  induction ds generalizing k with
  | nil => simp
  | cons d ds ih =>
    rw [List.foldl_cons, List.foldl_cons, ih, ih (0 * b + d), List.length_cons, Nat.pow_succ]
    simp only [Nat.zero_mul, Nat.zero_add, Nat.add_mul, ← Nat.add_assoc]
    rw [Nat.mul_assoc k b, Nat.mul_comm b]

theorem toNat_cons (b d : Nat) (ds : List Nat) :
    toNat b (d :: ds) = d * b ^ ds.length + toNat b ds := by
  have := foldl_eq b d ds
  simpa [toNat] using this

/-- Writing and reading keeps the number up to what the width can hold. -/
theorem toNat_ofNat (b w n : Nat) : toNat b (ofNat b w n) = n % b ^ w := by
  induction w with
  | zero => simp [ofNat, toNat, Nat.mod_one]
  | succ w ih =>
    rw [ofNat, toNat_cons, length_ofNat, ih, Nat.pow_eq, Nat.pow_succ, Nat.mod_mul, Nat.mul_comm, Nat.add_comm]

/-- Decimal digits are read in the library's way. -/
theorem ofChars_eq_ofDigitChars {cs : List Char} (h : ∀ c ∈ cs, c.isDigit) (b : Nat) :
    ofChars b cs = Nat.ofDigitChars b cs 0 := by
  unfold ofChars toNat Nat.ofDigitChars
  generalize (0 : Nat) = n
  induction cs generalizing n with
  | nil => rfl
  | cons c cs ih =>
      have hc : ofChar? c = some (c.toNat - '0'.toNat) := if_pos (h c List.mem_cons_self)
      rw [List.filterMap_cons_some hc, List.foldl_cons, List.foldl_cons, Nat.mul_comm n,
        ih fun d hd => h d (List.mem_cons_of_mem _ hd)]

end Outbox.Digits

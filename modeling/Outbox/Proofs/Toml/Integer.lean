import Mathlib.Algebra.Group.Int.Defs
import Mathlib.Data.List.TakeDrop
import Mathlib.Data.List.TakeWhile
import Outbox.Proofs.Digits
import Outbox.Toml.Scalar

/-!
# Integers as words

The decimal text of an integer reads back as that integer where it has 64 bits, and as nothing where it has
more.
-/

namespace Outbox.Toml

/-! ## Digits -/

theorem ne_of_isDigit {c d : Char} (hc : c.isDigit) (hd : d.isDigit = false) : c ≠ d := by
  rintro rfl
  exact Bool.false_ne_true (hd.symm.trans hc)

theorem digits?_of_isDigit :
    {cs : List Char} → cs ≠ [] → (∀ c ∈ cs, c.isDigit) → digits? Char.isDigit cs = some cs
  | [], h, _ => absurd rfl h
  | [c], _, h => if_pos (h c List.mem_cons_self)
  | c :: d :: cs, _, h => by
      have hd : d ≠ '_' := ne_of_isDigit (h d (by simp)) (by decide)
      have hrest := digits?_of_isDigit (List.cons_ne_nil d cs) fun e he => h e (List.mem_cons_of_mem _ he)
      rw [digits?, hrest, if_pos (h c List.mem_cons_self), Option.map_some]
      · exact List.cons_ne_nil d cs
      · exact fun _ h => hd (List.cons.inj h).1

theorem isDigit_of_mem (n : Nat) : ∀ c ∈ Nat.toDigits 10 n, c.isDigit :=
  fun _ => Nat.isDigit_of_mem_toDigits (by decide) (by decide)

theorem head?_toDigits_ne {n : Nat} (h : 0 < n) : (Nat.toDigits 10 n).head? ≠ some '0' := by
  induction n using Nat.strongRecOn with
  | ind n ih =>
      rw [Nat.toDigits_eq_if (by decide)]
      split
      · simpa using Nat.ne_of_gt h
      · have hq : 0 < n / 10 := by omega
        rw [List.head?_append, Option.or_of_isSome (by simp)]
        exact ih (n / 10) (by omega) hq

theorem wholeDigits?_toDigits (n : Nat) : wholeDigits? (Nat.toDigits 10 n) = some (Nat.toDigits 10 n) := by
  rw [wholeDigits?, digits?_of_isDigit Nat.toDigits_ne_nil (isDigit_of_mem n)]
  rcases Nat.eq_zero_or_pos n with rfl | hn
  · rfl
  · have hhead := head?_toDigits_ne hn
    split
    next h => rw [Option.some.inj h] at hhead; exact absurd rfl hhead
    next h => rw [Option.some.inj h] at hhead; exact absurd rfl hhead
    next h => cases h
    next h => rw [Option.some.inj h]

/-! ## Integers -/

/-- The digits of a number behind its sign, which is left out where it would be a plus. -/
theorem toList_toString (n : Int) :
    (toString n).toList =
      if n < 0 then '-' :: Nat.toDigits 10 n.natAbs else Nat.toDigits 10 n.natAbs := by
  rw [Int.toString_eq_repr, Int.repr_eq_if]
  by_cases h : n < 0
  · have hn : (-n).toNat = n.natAbs := by omega
    rw [if_neg (by omega), if_pos h, hn, String.toList_append, Nat.toList_repr]
    rfl
  · have hn : n.toNat = n.natAbs := by omega
    rw [if_pos (by omega), if_neg h, hn, Nat.toList_repr]

theorem splitSign_toString (n : Int) :
    splitSign (toString n).toList = (decide (n < 0), Nat.toDigits 10 n.natAbs) := by
  rw [toList_toString]
  split
  next h => simp [splitSign, h]
  next h =>
    rw [decide_eq_false h]
    unfold splitSign
    split
    next hd => exact absurd (isDigit_of_mem n.natAbs '-' (by simp [hd])) (by decide)
    next hd => exact absurd (isDigit_of_mem n.natAbs '+' (by simp [hd])) (by decide)
    next => rfl

theorem isDigit_of_mem_tail (n : Int) : ∀ c ∈ (toString n).toList.tail, c.isDigit := by
  rw [toList_toString]
  split
  · exact isDigit_of_mem n.natAbs
  · exact fun c hc => isDigit_of_mem n.natAbs c (List.mem_of_mem_tail hc)

theorem decimal?_toString (n : Int) : decimal? (toString n).toList = some n := by
  rw [decimal?, splitSign_toString]
  simp only [wholeDigits?_toDigits, Option.map_some, Digits.ofChars_eq_ofDigitChars (isDigit_of_mem n.natAbs),
    Nat.ofDigitChars_ten_toDigits, decide_eq_true_eq, Option.some.injEq]
  omega

theorem inRange_iff {n : Int} : inRange n ↔ -2 ^ 63 ≤ n ∧ n < 2 ^ 63 := by
  rw [inRange, Bool.and_eq_true, decide_eq_true_eq, decide_eq_true_eq]
  rfl

theorem integer?_toString (n : Int) :
    integer? (toString n).toList = if inRange n then some n else none := by
  have htail := isDigit_of_mem_tail n
  have hdecimal := decimal?_toString n
  unfold integer?
  split
  next h => rw [h] at htail; exact absurd (htail 'x' (by simp)) (by decide)
  next h => rw [h] at htail; exact absurd (htail 'o' (by simp)) (by decide)
  next h => rw [h] at htail; exact absurd (htail 'b' (by simp)) (by decide)
  next => rw [hdecimal, Option.filter_some]

/-! ## Words of other kinds -/

theorem span_of_forall {p : Char → Bool} {cs : List Char} (h : ∀ c ∈ cs, p c) :
    cs.span p = (cs, []) := by
  rw [List.span_eq_takeWhile_dropWhile, List.takeWhile_eq_self_iff.2 h, List.dropWhile_eq_nil_iff.2 h]

/-- There is neither a fraction nor an exponent. -/
theorem finite?_of_isDigit {cs ds : List Char} {negative : Bool} (h : splitSign cs = (negative, ds))
    (hdigit : ∀ c ∈ ds, c.isDigit) : finite? cs = false := by
  have hmark : ∀ c ∈ ds, !isExponentMark c := by
    intro c hc
    simp [isExponentMark, ne_of_isDigit (d := 'e') (hdigit c hc), ne_of_isDigit (d := 'E') (hdigit c hc)]
  have hpoint : ∀ c ∈ ds, decide (c ≠ '.') := by
    intro c hc
    simp [ne_of_isDigit (d := '.') (hdigit c hc)]
  rw [finite?, h]
  simp only [span_of_forall hmark, span_of_forall hpoint]
  cases wholeDigits? ds <;> rfl

theorem special?_of_isDigit {cs ds : List Char} {negative : Bool} (h : splitSign cs = (negative, ds))
    (hdigit : ∀ c ∈ ds, c.isDigit) : special? cs = false := by
  rw [special?, h]
  refine Bool.or_eq_false_iff.2 ⟨decide_eq_false ?_, decide_eq_false ?_⟩
  · rintro rfl; exact absurd (hdigit 'i' (by simp)) (by decide)
  · rintro rfl; exact absurd (hdigit 'n' (by simp)) (by decide)

theorem field?_eq_some {width low high k : Nat} {cs rest : List Char}
    (h : field? width low high cs = some (k, rest)) : rest = cs.drop width := by
  simp only [field?, Option.ite_none_right_eq_some, Option.some.injEq, Prod.mk.injEq] at h
  exact h.2.2.symm

theorem expect_of_isDigit {c : Char} (hc : c.isDigit = false) {cs : List Char} (h : ∀ d ∈ cs, d.isDigit) :
    expect c cs = none := by
  cases cs with
  | nil => rfl
  | cons d cs => exact if_neg (ne_of_isDigit (h d List.mem_cons_self) hc).symm

/-- Dates and times have a mark behind their first field. -/
theorem isDatetime_of_tail {cs : List Char} (h : ∀ c ∈ cs.tail, c.isDigit) : isDatetime cs = false := by
  have hmark (c : Char) (hc : c.isDigit = false) (k : Nat) : expect c (cs.drop (k + 1)) = none :=
    expect_of_isDigit hc fun d hd => h d (List.mem_of_mem_drop (List.drop_tail ▸ hd))
  have hdate : date? cs = none := by
    unfold date?
    cases hfield : field? 4 0 9999 cs with
    | none => rfl
    | some y => simp [field?_eq_some hfield, hmark '-' (by decide) 3]
  have htime : time? cs = none := by
    unfold time?
    cases hfield : field? 2 0 23 cs with
    | none => rfl
    | some y => simp [field?_eq_some hfield, hmark ':' (by decide) 1]
  simp [isDatetime, hdate, htime]

/-! ## Words -/

theorem word?_toString (n : Int) :
    word? (toString n).toList = if inRange n then some (.integer n) else none := by
  have hsplit := splitSign_toString n
  have hdigit := isDigit_of_mem n.natAbs
  have htail := isDigit_of_mem_tail n
  have hinteger := integer?_toString n
  have hfloat := finite?_of_isDigit hsplit hdigit
  have hspecial := special?_of_isDigit hsplit hdigit
  have hdatetime := isDatetime_of_tail htail
  generalize (toString n).toList = cs at *
  have htrue : cs ≠ ['t', 'r', 'u', 'e'] := by
    rintro rfl; exact absurd (htail 'r' (by simp)) (by decide)
  have hfalse : cs ≠ ['f', 'a', 'l', 's', 'e'] := by
    rintro rfl; exact absurd (htail 'a' (by simp)) (by decide)
  simp only [word?, htrue, hfalse, hdatetime, hfloat, hspecial, hinteger, Bool.or_false, Bool.false_eq_true,
    if_false]
  cases inRange n <;> rfl

end Outbox.Toml

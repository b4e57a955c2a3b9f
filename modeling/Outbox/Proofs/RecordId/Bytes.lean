import Outbox.Proofs.Digits
import Outbox.RecordId

/-!
# Ids as bytes

The most significant byte stands first, so that byte by byte ids are in the order of their numbers.
-/

namespace Outbox

namespace Digits

theorem toNat_lt {b : Nat} {ds : List Nat} (h : ∀ d ∈ ds, d < b) : toNat b ds < b ^ ds.length := by
  induction ds with
  | nil => exact Nat.one_pos
  | cons d ds ih =>
      have hd : d + 1 ≤ b := h d List.mem_cons_self
      have hds : toNat b ds < b ^ ds.length := ih fun e he => h e (List.mem_cons_of_mem _ he)
      calc toNat b (d :: ds) = d * b ^ ds.length + toNat b ds := toNat_cons b d ds
        _ < (d + 1) * b ^ ds.length := by rw [Nat.succ_mul]; omega
        _ ≤ b * b ^ ds.length := Nat.mul_le_mul_right _ hd
        _ = b ^ (d :: ds).length := by rw [List.length_cons, Nat.pow_succ, Nat.mul_comm]

/-- Numerals of one width are ordered by their first different digit. -/
theorem lt_iff_toNat_lt {b : Nat} {ds es : List Nat} (hl : ds.length = es.length)
    (hd : ∀ d ∈ ds, d < b) (he : ∀ e ∈ es, e < b) : ds < es ↔ toNat b ds < toNat b es := by
  induction ds generalizing es with
  | nil =>
      rw [List.length_eq_zero_iff.1 hl.symm]
      simp
  | cons d ds ih =>
      cases es with
      | nil => cases hl
      | cons e es =>
          have hl : ds.length = es.length := Nat.succ.inj hl
          have hd := fun x hx => hd x (List.mem_cons_of_mem _ hx)
          have he := fun x hx => he x (List.mem_cons_of_mem _ hx)
          have hds := toNat_lt hd
          have hes := toNat_lt he
          rw [List.cons_lt_cons_iff, ih hl hd he, toNat_cons, toNat_cons]
          rw [hl] at hds ⊢
          rcases Nat.lt_trichotomy d e with h | rfl | h
          · have hle := Nat.mul_le_mul_right (b ^ es.length) (Nat.succ_le_of_lt h)
            rw [Nat.succ_mul] at hle
            exact iff_of_true (Or.inl h) (by omega)
          · simp
          · have hle := Nat.mul_le_mul_right (b ^ es.length) (Nat.succ_le_of_lt h)
            rw [Nat.succ_mul] at hle
            exact iff_of_false (by omega) (by omega)

section Letters

variable {α : Type} [LT α] {f : Nat → α} {b : Nat}

theorem map_lt_map_iff {ds es : List Nat} (hlt : ∀ d < b, ∀ e < b, (f d < f e ↔ d < e))
    (heq : ∀ d < b, ∀ e < b, (f d = f e ↔ d = e)) (hd : ∀ d ∈ ds, d < b) (he : ∀ e ∈ es, e < b) :
    ds.map f < es.map f ↔ ds < es := by
  induction ds generalizing es with
  | nil => cases es <;> simp
  | cons d ds ih =>
      cases es with
      | nil => simp
      | cons e es =>
          have hd' := hd d List.mem_cons_self
          have he' := he e List.mem_cons_self
          rw [List.map_cons, List.map_cons, List.cons_lt_cons_iff, List.cons_lt_cons_iff,
            ih (fun x hx => hd x (List.mem_cons_of_mem _ hx)) fun x hx => he x (List.mem_cons_of_mem _ hx),
            hlt d hd' e he', heq d hd' e he']

/-- Numerals of one width are in the order of their numbers also in letters, where these are in the order
of the digits that they stand for. -/
theorem map_ofNat_lt_map_ofNat_iff {w m n : Nat} (hlt : ∀ d < b, ∀ e < b, (f d < f e ↔ d < e))
    (heq : ∀ d < b, ∀ e < b, (f d = f e ↔ d = e)) (hb : 0 < b) (hm : m < b ^ w) (hn : n < b ^ w) :
    (ofNat b w m).map f < (ofNat b w n).map f ↔ m < n := by
  have hdigit (k : Nat) : ∀ d ∈ ofNat b w k, d < b := fun _ hd => lt_of_mem_ofNat hb hd
  rw [map_lt_map_iff hlt heq (hdigit m) (hdigit n),
    lt_iff_toNat_lt (by simp only [length_ofNat]) (hdigit m) (hdigit n), toNat_ofNat, toNat_ofNat,
    Nat.mod_eq_of_lt hm, Nat.mod_eq_of_lt hn]

end Letters

end Digits

namespace RecordId

theorem le_iff_lt_or_eq {a b : RecordId} : a ≤ b ↔ a < b ∨ a = b := by
  rw [le_def, lt_def, Nat.le_iff_lt_or_eq]
  exact or_congr_right ⟨ext, congrArg number⟩

theorem bytes_lt_bytes_iff {a b : RecordId} : a.bytes < b.bytes ↔ a < b := by
  have hvalue (d : Nat) (h : d < 256) : (UInt8.ofNat d).toNat = d := UInt8.toNat_ofNat_of_lt' h
  refine Digits.map_ofNat_lt_map_ofNat_iff (fun d hd e he => ?_) (fun d hd e he => ?_) (by decide)
    a.number_lt b.number_lt
  · rw [UInt8.lt_iff_toNat_lt, hvalue d hd, hvalue e he]
  · rw [← UInt8.toNat_inj, hvalue d hd, hvalue e he]

theorem ofNat_number (id : RecordId) : ofNat id.number = id := ext (Nat.mod_eq_of_lt id.number_lt)

/-- A numeral that is wide enough for all ids gives the id back. -/
theorem ofNat_toNat_ofNat {b w : Nat} (hw : 2 ^ 128 ≤ b ^ w) (id : RecordId) :
    ofNat (Digits.toNat b (Digits.ofNat b w id.number)) = id := by
  rw [Digits.toNat_ofNat, Nat.mod_eq_of_lt (Nat.lt_of_lt_of_le id.number_lt hw), ofNat_number]

theorem length_bytes (id : RecordId) : id.bytes.length = 16 := by
  rw [bytes, List.length_map, Digits.length_ofNat]

theorem ofBytes_bytes (id : RecordId) : ofBytes id.bytes = id := by
  have hdigits : id.bytes.map UInt8.toNat = Digits.ofNat 256 16 id.number := by
    rw [bytes, List.map_map]
    refine (List.map_congr_left fun d hd => ?_).trans (List.map_id _)
    exact UInt8.toNat_ofNat_of_lt' (Digits.lt_of_mem_ofNat (by decide) hd)
  rw [ofBytes, hdigits, ofNat_toNat_ofNat (by decide)]

end RecordId

end Outbox

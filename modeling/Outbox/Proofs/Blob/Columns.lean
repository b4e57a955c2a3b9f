import Mathlib.Algebra.Group.Nat.Defs
import Outbox.Blob.Texts

/-!
# Columns are read as they were written

A reader takes what a writer has written from the front of any input, and leaves the rest. The lemmas
go from columns of bytes to columns of numbers, of lengths and of texts.
-/

namespace Outbox.Blob

/-- The reader takes `bytes` from the front of any input, and makes `a` of them. -/
def Reads {α : Type} (r : Reader α) (bytes : List UInt8) (a : α) : Prop :=
  ∀ rest, r (bytes ++ rest) = .ok (a, rest)

namespace Reads

variable {α β : Type} {r : Reader α} {a : α} {bytes more : List UInt8}

theorem pure (a : α) : Reads (Pure.pure a) [] a := fun _ => rfl

theorem bind {k : α → Reader β} {b : β} (h : Reads r bytes a) (hk : Reads (k a) more b) :
    Reads (r >>= k) (bytes ++ more) b := by
  intro rest
  have hr : r ((bytes ++ more) ++ rest) = .ok (a, more ++ rest) := by
    rw [List.append_assoc]; exact h _
  show (r ((bytes ++ more) ++ rest) >>= fun p => k p.1 p.2) = _
  rw [hr]
  exact hk rest

/-- What comes after takes nothing more. -/
theorem bindPure {b : β} {k : α → Reader β} (h : Reads r bytes a) (hk : Reads (k a) [] b) :
    Reads (r >>= k) bytes b := by
  have hb := h.bind hk
  rwa [List.append_nil] at hb

theorem readAll (h : Reads r bytes a) : r.readAll bytes = .ok a := by
  have hr := h []
  rw [List.append_nil] at hr
  rw [Reader.readAll, hr]

end Reads

/-- The reader takes `bytes` from the front of any input and makes `a` of them, unless the check fails. -/
def ReadsIf {α : Type} (c : Except BlobError Unit) (r : Reader α) (bytes : List UInt8) (a : α) : Prop :=
  ∀ rest, r (bytes ++ rest) = c.map fun _ => (a, rest)

section

variable {α β : Type} {c d : Except BlobError Unit} {r : Reader α} {k : α → Reader β} {a : α} {b : β}
  {bytes more : List UInt8}

theorem ReadsIf.lift (c : Except BlobError Unit) : ReadsIf c (liftM c) [] () := by
  intro rest
  cases c <;> rfl

theorem ReadsIf.bind (h : ReadsIf c r bytes a) (hk : ReadsIf d (k a) more b) :
    ReadsIf (c >>= fun _ => d) (r >>= k) (bytes ++ more) b := by
  intro rest
  have hr : r ((bytes ++ more) ++ rest) = c.map fun _ => (a, more ++ rest) := by
    rw [List.append_assoc]; exact h _
  show (r ((bytes ++ more) ++ rest) >>= fun p => k p.1 p.2) = _
  rw [hr]
  cases c with
  | error e => rfl
  | ok => exact hk rest

/-- What comes after is not checked. -/
theorem ReadsIf.bindReads (h : ReadsIf c r bytes a) (hk : Reads (k a) more b) :
    ReadsIf c (r >>= k) (bytes ++ more) b := by
  have hb := h.bind (d := .ok ()) hk
  cases c <;> exact hb

theorem ReadsIf.bindPure (h : ReadsIf c r bytes a) (hk : Reads (k a) [] b) :
    ReadsIf c (r >>= k) bytes b := by
  have hb := h.bindReads hk
  rwa [List.append_nil] at hb

theorem Reads.bindIf (h : Reads r bytes a) (hk : ReadsIf c (k a) more b) :
    ReadsIf c (r >>= k) (bytes ++ more) b :=
  ReadsIf.bind (c := .ok ()) h hk

theorem ReadsIf.reads (h : ReadsIf c r bytes a) (hc : c = .ok ()) : Reads r bytes a := by
  intro rest
  rw [h rest, hc]
  rfl

end

theorem reads_take {n : Nat} {bytes : List UInt8} (h : bytes.length = n) :
    Reads (take n) bytes bytes := by
  intro rest
  have hn : n ≤ (bytes ++ rest).length := by rw [List.length_append]; omega
  rw [take, if_pos hn, List.splitAt_eq, ← h, List.take_left, List.drop_left]

theorem reads_byte (b : UInt8) : Reads byte [b] b := fun _ => rfl

/-! ## Extremes -/

theorem le_foldl_max {α : Type} (g : α → Nat) (l : List α) (m : Nat) :
    m ≤ l.foldl (fun m a => max m (g a)) m ∧ ∀ a ∈ l, g a ≤ l.foldl (fun m a => max m (g a)) m := by
  induction l generalizing m with
  | nil => simp
  | cons b bs ih =>
      obtain ⟨hm, hl⟩ := ih (max m (g b))
      rw [List.foldl_cons]
      refine ⟨by omega, fun a ha => ?_⟩
      rcases List.mem_cons.1 ha with rfl | ha
      · omega
      · exact hl a ha

theorem foldl_max_lt {α : Type} {g : α → Nat} {l : List α} {m n : Nat} (hm : m < n)
    (hl : ∀ a ∈ l, g a < n) : l.foldl (fun m a => max m (g a)) m < n := by
  induction l generalizing m with
  | nil => exact hm
  | cons b bs ih =>
      exact ih (Nat.max_lt.2 ⟨hm, hl b List.mem_cons_self⟩) fun a ha => hl a (List.mem_cons_of_mem _ ha)

theorem foldl_min_le {α : Type} (g : α → Nat) (l : List α) (m : Nat) :
    l.foldl (fun m a => min m (g a)) m ≤ m ∧ ∀ a ∈ l, l.foldl (fun m a => min m (g a)) m ≤ g a := by
  induction l generalizing m with
  | nil => simp
  | cons b bs ih =>
      obtain ⟨hm, hl⟩ := ih (min m (g b))
      rw [List.foldl_cons]
      refine ⟨by omega, fun a ha => ?_⟩
      rcases List.mem_cons.1 ha with rfl | ha
      · omega
      · exact hl a ha

/-! ## Packed bytes -/

namespace Packing

variable {b : Nat} {p : Packing} {vs : List UInt8}

theorem perByte_pos (p : Packing) : 0 < p.perByte := by cases p <;> decide

theorem base_pow_le (p : Packing) : p.base ^ p.perByte ≤ 256 := by cases p <;> decide

theorem base_pos (p : Packing) : 0 < p.base := by cases p <;> decide

theorem lt_base_fitting {v m : Nat} (hv : v ≤ m) (hm : m < 256) : v < (fitting m).base := by
  unfold fitting
  repeat' split
  all_goals simp only [base]; omega

theorem numeral_lt (h : ∀ v ∈ vs, v.toNat < b) : numeral b vs < b ^ vs.length := by
  induction vs with
  | nil => simp [numeral]
  | cons v vs ih =>
      have hv : v.toNat < b := h v List.mem_cons_self
      have hvs := ih fun u hu => h u (List.mem_cons_of_mem _ hu)
      calc numeral b (v :: vs) < b + b * numeral b vs := by rw [numeral]; omega
        _ = b * (numeral b vs + 1) := by rw [Nat.mul_add, Nat.mul_one, Nat.add_comm]
        _ ≤ b * b ^ vs.length := Nat.mul_le_mul_left b hvs
        _ = b ^ (v :: vs).length := by rw [List.length_cons, Nat.pow_succ, Nat.mul_comm]

@[simp] theorem length_digits (b c n : Nat) : (digits b c n).length = c := by
  induction c generalizing n with
  | zero => rfl
  | succ c ih => rw [digits, List.length_cons, ih]

/-- The digits of a numeral are the values that it was made of, whatever zeros follow. -/
theorem take_digits_numeral {c : Nat} (hc : vs.length ≤ c) (h : ∀ v ∈ vs, v.toNat < b) :
    (digits b c (numeral b vs)).take vs.length = vs := by
  induction vs generalizing c with
  | nil => simp
  | cons v vs ih =>
      obtain ⟨c, rfl⟩ := Nat.exists_eq_add_of_lt (Nat.lt_of_lt_of_le (Nat.succ_pos _) hc)
      have hv : v.toNat < b := h v List.mem_cons_self
      have hmod : numeral b (v :: vs) % b = v.toNat := by
        rw [numeral, Nat.add_mul_mod_self_left, Nat.mod_eq_of_lt hv]
      have hdiv : numeral b (v :: vs) / b = numeral b vs := by
        rw [numeral, Nat.add_mul_div_left _ _ (Nat.zero_lt_of_lt hv), Nat.div_eq_of_lt hv, Nat.zero_add]
      rw [Nat.zero_add, digits, hmod, hdiv, UInt8.ofNat_toNat, List.length_cons, List.take_succ_cons,
        ih (by rw [List.length_cons] at hc; omega) fun u hu => h u (List.mem_cons_of_mem _ hu)]

theorem toNat_ofNat_numeral (hn : vs.length ≤ p.perByte) (h : ∀ v ∈ vs, v.toNat < p.base) :
    (UInt8.ofNat (numeral p.base vs)).toNat = numeral p.base vs := by
  refine UInt8.toNat_ofNat_of_lt' ?_
  calc numeral p.base vs < p.base ^ vs.length := numeral_lt h
    _ ≤ p.base ^ p.perByte := Nat.pow_le_pow_right p.base_pos hn
    _ ≤ UInt8.size := p.base_pow_le

theorem pack_cons (p : Packing) (v : UInt8) (vs : List UInt8) :
    p.pack (v :: vs) = UInt8.ofNat (numeral p.base ((v :: vs).take p.perByte)) ::
      p.pack (vs.drop (p.perByte - 1)) := by
  obtain ⟨k, hk⟩ := Nat.exists_eq_succ_of_ne_zero (Nat.ne_of_gt p.perByte_pos)
  rw [pack, hk, List.take_succ_cons, Nat.succ_sub_one]

theorem drop_perByte (p : Packing) (v : UInt8) (vs : List UInt8) :
    (v :: vs).drop p.perByte = vs.drop (p.perByte - 1) := by
  obtain ⟨k, hk⟩ := Nat.exists_eq_succ_of_ne_zero (Nat.ne_of_gt p.perByte_pos)
  rw [hk, List.drop_succ_cons, Nat.succ_sub_one]

theorem length_pack (p : Packing) (vs : List UInt8) : (p.pack vs).length = p.packedSize vs.length := by
  have hpos := p.perByte_pos
  induction vs using pack.induct p with
  | case1 => rw [pack, packedSize, List.length_nil, Nat.div_eq_of_lt (by omega)]
  | case2 v vs ih =>
      have hall : vs.length + 1 + p.perByte - 1 = vs.length + p.perByte := by omega
      rw [pack_cons, List.length_cons, ih, List.length_drop, List.length_cons, packedSize, packedSize,
        hall, Nat.add_div_right _ hpos]
      by_cases hle : vs.length < p.perByte
      · rw [Nat.div_eq_of_lt (by omega), Nat.div_eq_of_lt hle]
      · have hrest : vs.length - (p.perByte - 1) + p.perByte - 1 = vs.length := by omega
        rw [hrest]

theorem unpack_pack (h : ∀ v ∈ vs, v.toNat < p.base) : p.unpack vs.length (p.pack vs) = vs := by
  induction vs using pack.induct p with
  | case1 => rfl
  | case2 v vs ih =>
      rw [← drop_perByte] at ih
      have hrest := ih fun u hu => h u (List.mem_of_mem_drop hu)
      have hchunk : ∀ u ∈ (v :: vs).take p.perByte, u.toNat < p.base :=
        fun u hu => h u (List.mem_of_mem_take hu)
      have hlen : ((v :: vs).take p.perByte).length ≤ p.perByte := List.length_take_le _ _
      have hdigits := take_digits_numeral hlen hchunk
      rw [unpack] at hrest
      rw [unpack, pack_cons, ← drop_perByte, List.flatMap_cons, toNat_ofNat_numeral hlen hchunk]
      by_cases hle : (v :: vs).length ≤ p.perByte
      -- All values are in the first byte, with zeros after them.
      · rw [List.take_of_length_le hle] at hdigits ⊢
        rwa [List.take_append_of_le_length (by rwa [length_digits])]
      · have hfull : ((v :: vs).take p.perByte).length = p.perByte := by
          rw [List.length_take]; omega
        rw [hfull, List.take_of_length_le (Nat.le_of_eq (length_digits ..))] at hdigits
        rw [List.take_append, hdigits, List.take_of_length_le (by omega), hfull, ← List.length_drop,
          hrest, List.take_append_drop]

theorem ofRank?_even (p : Packing) : ofRank? (((UInt8.ofNat (2 * p.rank)).toNat + 1) / 2) = some p ∧
    (UInt8.ofNat (2 * p.rank)).toNat % 2 = 0 := by
  cases p <;> decide

theorem ofRank?_odd (hp : 0 < p.rank) :
    ofRank? (((UInt8.ofNat (2 * p.rank - 1)).toNat + 1) / 2) = some p ∧
      (UInt8.ofNat (2 * p.rank - 1)).toNat % 2 = 1 := by
  cases p <;> revert hp <;> decide

theorem reads_readPacked (h : ∀ v ∈ vs, v.toNat < p.base) :
    Reads (readPacked p vs.length) (p.pack vs) vs := by
  have hpure : Reads (Pure.pure (p.unpack vs.length (p.pack vs))) [] vs := by
    rw [unpack_pack h]; exact .pure vs
  exact (reads_take (p.length_pack vs)).bindPure hpure

end Packing

/-! ## Columns of bytes -/

theorem toNat_le_largest {vs : List UInt8} {v : UInt8} (h : v ∈ vs) : v.toNat ≤ largest vs :=
  (le_foldl_max UInt8.toNat vs 0).2 v h

theorem largest_lt (vs : List UInt8) : largest vs < 256 :=
  foldl_max_lt (by decide) fun v _ => v.toNat_lt

theorem smallest_le_toNat {vs : List UInt8} {v : UInt8} (h : v ∈ vs) : smallest vs ≤ v.toNat :=
  (foldl_min_le UInt8.toNat vs 255).2 v h

theorem toNat_ofNat_smallest (vs : List UInt8) : (UInt8.ofNat (smallest vs)).toNat = smallest vs :=
  UInt8.toNat_ofNat_of_lt' (Nat.lt_succ_of_le (foldl_min_le UInt8.toNat vs 255).1)

theorem toNat_sub_smallest {vs : List UInt8} {v : UInt8} (h : v ∈ vs) :
    (v - UInt8.ofNat (smallest vs)).toNat = v.toNat - smallest vs := by
  have hle : UInt8.ofNat (smallest vs) ≤ v := by
    rw [UInt8.le_iff_toNat_le, toNat_ofNat_smallest]
    exact smallest_le_toNat h
  rw [UInt8.toNat_sub_of_le _ _ hle, toNat_ofNat_smallest]

/-- The column as it stands behind a tag for the packing. -/
theorem reads_plain {p : Packing} {vs : List UInt8} (hn : ¬ vs.length ≤ 2)
    (h : ∀ v ∈ vs, v.toNat < p.base) :
    Reads (readBytes vs.length) (UInt8.ofNat (2 * p.rank) :: p.pack vs) vs := by
  obtain ⟨hrank, hparity⟩ := p.ofRank?_even
  rw [readBytes, if_neg hn]
  refine (reads_byte _).bind ?_
  simp only [hrank, hparity, Nat.zero_ne_one, if_false]
  exact Packing.reads_readPacked h

/-- The column behind a tag and the value that is taken off. -/
theorem reads_shifted {p : Packing} {vs : List UInt8} (low : UInt8) (hn : ¬ vs.length ≤ 2)
    (hp : 0 < p.rank) (h : ∀ v ∈ vs, (v - low).toNat < p.base) :
    Reads (readBytes vs.length) (UInt8.ofNat (2 * p.rank - 1) :: low :: p.pack (vs.map (· - low))) vs := by
  obtain ⟨hrank, hparity⟩ := Packing.ofRank?_odd hp
  have hback : (vs.map (· - low)).map (· + low) = vs := by
    simp [Function.comp_def]
  have hpacked : Reads (readPacked p vs.length) (p.pack (vs.map (· - low))) (vs.map (· - low)) := by
    rw [← List.length_map (· - low)]
    refine Packing.reads_readPacked fun u hu => ?_
    obtain ⟨v, hv, rfl⟩ := List.mem_map.1 hu
    exact h v hv
  rw [readBytes, if_neg hn]
  refine (reads_byte _).bind ?_
  simp only [hrank, hparity, if_true]
  refine (reads_byte low).bind (hpacked.bindPure ?_)
  rw [hback]
  exact .pure vs

theorem reads_writeBytes (vs : List UInt8) : Reads (readBytes vs.length) (writeBytes vs) vs := by
  unfold writeBytes
  split
  · rename_i hn
    rw [readBytes, if_pos hn]
    exact reads_take rfl
  · rename_i hn
    dsimp only
    split
    · rename_i hs
      refine reads_shifted _ hn (Nat.zero_lt_of_lt hs.1) fun v hv => ?_
      have hle := toNat_le_largest hv
      have hlt := largest_lt vs
      rw [toNat_sub_smallest hv]
      exact Packing.lt_base_fitting (by omega) (by omega)
    · exact reads_plain hn fun v hv => Packing.lt_base_fitting (toNat_le_largest hv) (largest_lt vs)

/-! ## Columns of numbers -/

theorem ofLittleEndian_littleEndian {s n : Nat} (h : n < 256 ^ s) :
    ofLittleEndian (littleEndian s n) = n := by
  induction s generalizing n with
  | zero =>
      rw [Nat.pow_zero] at h
      exact (Nat.lt_one_iff.1 h).symm
  | succ s ih =>
      have hdiv : n / 256 < 256 ^ s := by
        rw [Nat.pow_succ] at h
        exact Nat.div_lt_of_lt_mul (by rwa [Nat.mul_comm] at h)
      have hbyte : (UInt8.ofNat n).toNat = n % 256 := UInt8.toNat_ofNat'
      rw [littleEndian, ofLittleEndian, ih hdiv, hbyte]
      exact Nat.mod_add_div n 256

@[simp] theorem length_littleEndian (s n : Nat) : (littleEndian s n).length = s := by
  induction s generalizing n with
  | zero => rfl
  | succ s ih => rw [littleEndian, List.length_cons, ih]

theorem reads_littleEndian {s n : Nat} : Reads (take s) (littleEndian s n) (littleEndian s n) :=
  reads_take (length_littleEndian s n)

theorem reads_readFixed {s : Nat} {ns : List Nat} (h : ∀ n ∈ ns, n < 256 ^ s) :
    Reads (readFixed s ns.length) (ns.flatMap (littleEndian s)) ns := by
  induction ns with
  | nil => exact .pure []
  | cons n ns ih =>
      have hn : n < 256 ^ s := h n List.mem_cons_self
      rw [List.flatMap_cons, List.length_cons, readFixed]
      refine reads_littleEndian.bind ?_
      rw [ofLittleEndian_littleEndian hn]
      exact (ih fun m hm => h m (List.mem_cons_of_mem _ hm)).bindPure (.pure (n :: ns))

namespace Width

variable {w : Width}

theorem lt_pow_size_fitting {n m : Nat} (hn : n ≤ m) (hm : m < Nat.pow 2 64) :
    n < 256 ^ (fitting m).size := by
  have h64 : Nat.pow 2 64 = 256 ^ 8 := by decide
  unfold fitting
  repeat' split
  · simp only [size]; omega
  · simp only [size]; omega
  · simp only [size]; omega
  · simp only [size]; omega

theorem ofRank?_even (w : Width) : ofRank? (((UInt8.ofNat (2 * w.rank)).toNat + 1) / 2) = some w ∧
    (UInt8.ofNat (2 * w.rank)).toNat % 2 = 0 := by
  cases w <;> decide

theorem ofRank?_odd (hw : 0 < w.rank) :
    ofRank? (((UInt8.ofNat (2 * w.rank - 1)).toNat + 1) / 2) = some w ∧
      (UInt8.ofNat (2 * w.rank - 1)).toNat % 2 = 1 := by
  cases w <;> revert hw <;> decide

theorem reads_writeWidth {ns : List Nat} (h : ∀ n ∈ ns, n < 256 ^ w.size) :
    Reads (readWidth w ns.length) (writeWidth w ns) ns := by
  cases w with
  | bits8 =>
      have hback : (ns.map UInt8.ofNat).map UInt8.toNat = ns := by
        rw [List.map_map]
        refine (List.map_congr_left fun n hn => ?_).trans (List.map_id ns)
        exact UInt8.toNat_ofNat_of_lt' (by simpa [size] using h n hn)
      have hbytes := reads_writeBytes (ns.map UInt8.ofNat)
      rw [List.length_map] at hbytes
      refine hbytes.bindPure ?_
      rw [hback]
      exact .pure ns
  | bits16 | bits32 | bits64 => exact reads_readFixed h

end Width

theorem reads_plainNumbers {w : Width} {ns : List Nat} (hne : ns ≠ []) (h : ∀ n ∈ ns, n < 256 ^ w.size) :
    Reads (readNumbers ns.length) (UInt8.ofNat (2 * w.rank) :: writeWidth w ns) ns := by
  obtain ⟨hrank, hparity⟩ := w.ofRank?_even
  rw [readNumbers, if_neg (by simpa using hne)]
  refine (reads_byte _).bind ?_
  simp only [hrank, hparity, Nat.zero_ne_one, if_false]
  exact Width.reads_writeWidth h

theorem reads_shiftedNumbers {w : Width} {ns : List Nat} {low : Nat} (hne : ns ≠ [])
    (hw : 0 < w.rank) (h64 : ∀ n ∈ ns, low ≤ n ∧ n < Nat.pow 2 64)
    (h : ∀ n ∈ ns, n - low < 256 ^ w.size) :
    Reads (readNumbers ns.length)
      (UInt8.ofNat (2 * w.rank - 1) :: (littleEndian 8 low ++ writeWidth w (ns.map (· - low)))) ns := by
  obtain ⟨hrank, hparity⟩ := Width.ofRank?_odd hw
  obtain ⟨n, hn⟩ := List.exists_mem_of_ne_nil ns hne
  have hlow : low < 256 ^ 8 := Nat.lt_of_le_of_lt (h64 n hn).1 (h64 n hn).2
  have hback : (ns.map (· - low)).map (fun n => (n + low) % Nat.pow 2 64) = ns := by
    rw [List.map_map]
    refine (List.map_congr_left fun n hn => ?_).trans (List.map_id ns)
    obtain ⟨hle, hlt⟩ := h64 n hn
    rw [Function.comp_apply, Nat.sub_add_cancel hle, Nat.mod_eq_of_lt hlt]
    rfl
  have hwidth : Reads (readWidth w ns.length) (writeWidth w (ns.map (· - low))) (ns.map (· - low)) := by
    rw [← List.length_map (· - low)]
    refine Width.reads_writeWidth fun m hm => ?_
    obtain ⟨n, hn, rfl⟩ := List.mem_map.1 hm
    exact h n hn
  rw [readNumbers, if_neg (by simpa using hne)]
  refine (reads_byte _).bind ?_
  simp only [hrank, hparity, if_true]
  refine reads_littleEndian.bind (hwidth.bindPure ?_)
  rw [ofLittleEndian_littleEndian hlow, hback]
  exact .pure ns

theorem reads_writeNumbers {ns : List Nat} (h : ∀ n ∈ ns, n < Nat.pow 2 64) :
    Reads (readNumbers ns.length) (writeNumbers ns) ns := by
  have hlargest : ∀ n ∈ ns, n ≤ largestOf ns := (le_foldl_max id ns 0).2
  have hsmallest : ∀ n ∈ ns, smallestOf ns ≤ n := (foldl_min_le id ns _).2
  have hlt : largestOf ns < Nat.pow 2 64 := foldl_max_lt (g := id) (by decide) h
  unfold writeNumbers
  split
  · rename_i hnil
    rw [hnil]
    exact .pure []
  · rename_i hne
    split
    · exact reads_plainNumbers (w := .bits64) hne h
    · dsimp only
      split
      · rename_i hs
        refine reads_shiftedNumbers hne (Nat.zero_lt_of_lt hs.1) (fun n hn => ⟨hsmallest n hn, h n hn⟩)
          fun n hn => Width.lt_pow_size_fitting (Nat.sub_le_sub_right (hlargest n hn) _) ?_
        exact Nat.lt_of_le_of_lt (Nat.sub_le _ _) hlt
      · exact reads_plainNumbers hne fun n hn => Width.lt_pow_size_fitting (hlargest n hn) hlt

/-! ## Columns of lengths -/

theorem total_cons (n : Nat) (ns : List Nat) : total (n :: ns) = n + total ns := by
  rw [total, List.foldl_cons, Nat.add_comm, List.foldl_assoc, total]

theorem total_perm {ms ns : List Nat} (h : ms.Perm ns) : total ms = total ns := by
  induction h with
  | nil => rfl
  | cons n _ ih => rw [total_cons, total_cons, ih]
  | swap m n ns =>
      rw [total_cons, total_cons, total_cons, total_cons]
      omega
  | trans _ _ ih ih' => exact ih.trans ih'

theorem le_total {ns : List Nat} {n : Nat} (h : n ∈ ns) : n ≤ total ns := by
  induction ns with
  | nil => cases h
  | cons m ns ih =>
      rw [total_cons]
      rcases List.mem_cons.1 h with rfl | h
      · exact Nat.le_add_right ..
      · exact Nat.le_add_left_of_le (ih h)

def shortLength (n : Nat) : UInt8 := UInt8.ofNat (min n longMark)

theorem toNat_shortLength (n : Nat) : (shortLength n).toNat = min n longMark :=
  UInt8.toNat_ofNat_of_lt' (Nat.lt_of_le_of_lt (Nat.min_le_right ..) (by decide))

theorem toNat_shortLength_eq_iff {n : Nat} : (shortLength n).toNat = longMark ↔ longMark ≤ n := by
  rw [toNat_shortLength]
  omega

theorem countP_shortLength (ns : List Nat) :
    (ns.map shortLength).countP (·.toNat = longMark) = (ns.filter (longMark ≤ ·)).length := by
  rw [List.countP_map, List.countP_eq_length_filter]
  congr 2
  funext n
  simp [toNat_shortLength_eq_iff]

theorem fillLengths_shortLength (ns : List Nat) :
    fillLengths (ns.map shortLength) (ns.filter (longMark ≤ ·)) = ns := by
  induction ns with
  | nil => rfl
  | cons n ns ih =>
      by_cases hn : longMark ≤ n
      · have hmark : (shortLength n).toNat = longMark := toNat_shortLength_eq_iff.2 hn
        rw [List.map_cons, List.filter_cons_of_pos (by simpa using hn), fillLengths, if_pos hmark, ih]
      · have hmark : (shortLength n).toNat = n := by rw [toNat_shortLength]; omega
        have hne : ¬ (shortLength n).toNat = longMark := fun he => hn (toNat_shortLength_eq_iff.1 he)
        rw [List.map_cons, List.filter_cons_of_neg (by simpa using hn)]
        cases hlong : ns.filter (longMark ≤ ·) with
        | nil => rw [fillLengths, hmark, ← hlong, ih]
        | cons m ms => rw [fillLengths, if_neg hne, hmark, ← hlong, ih]

/-- The check on the sum of the lengths. -/
def sumCheck (ns : List Nat) : Except BlobError Unit := checkTotal (ns.map shortLength) ns

theorem sumCheck_of_lt {ns : List Nat} (h : total ns < hugeLength) : sumCheck ns = .ok () := by
  have hhuge : hugeLength < Nat.pow 2 64 := by decide
  unfold sumCheck checkTotal
  split
  · rfl
  · rw [if_neg (by omega), if_neg (by omega)]

theorem reads_shortLengths (ns : List Nat) :
    Reads (readBytes ns.length) (writeBytes (ns.map shortLength)) (ns.map shortLength) := by
  have hshort := reads_writeBytes (ns.map shortLength)
  rwa [List.length_map] at hshort

theorem reads_longLengths {ns : List Nat} (h : ∀ n ∈ ns, n < Nat.pow 2 64) :
    Reads (readNumbers ((ns.map shortLength).countP (·.toNat = longMark)))
      (writeNumbers (ns.filter (longMark ≤ ·))) (ns.filter (longMark ≤ ·)) := by
  rw [countP_shortLength]
  exact reads_writeNumbers fun n hn => h n (List.mem_filter.1 hn).1

theorem readsIf_writeLengths {ns : List Nat} (h : ∀ n ∈ ns, n < Nat.pow 2 64) :
    ReadsIf (sumCheck ns) (readLengths ns.length) (writeLengths ns) ns := by
  have hcheck : ReadsIf (sumCheck ns) (liftM (sumCheck ns) >>= fun _ => return ns) [] ns :=
    (ReadsIf.lift (sumCheck ns)).bindPure (.pure ns)
  refine (reads_shortLengths ns).bindIf ?_
  rw [← List.append_nil (writeNumbers _)]
  refine (reads_longLengths h).bindIf ?_
  simp only [fillLengths_shortLength]
  exact hcheck

theorem readsIf_writeLength {n : Nat} (h : n < Nat.pow 2 64) :
    ReadsIf (sumCheck [n]) readLength (writeLengths [n]) n := by
  have hone : ReadsIf (sumCheck [n]) (readLengths [n].length) (writeLengths [n]) [n] :=
    readsIf_writeLengths (by simpa using h)
  exact hone.bindPure (.pure n)

/-! ## Columns of texts -/

theorem ofUtf8?_utf8 (s : String) : ofUtf8? (utf8 s) = some s := by
  have harray : (⟨(utf8 s).toArray⟩ : ByteArray) = s.toByteArray := by
    rw [utf8, Array.toArray_toList]
    rfl
  rw [ofUtf8?, harray, String.fromUTF8?, dif_pos s.isValidUTF8]
  rfl

theorem cutTexts_utf8 (ss : List String) :
    cutTexts (ss.map fun s => (utf8 s).length) (ss.flatMap utf8) = some ss := by
  induction ss with
  | nil => rfl
  | cons s ss ih =>
      rw [List.map_cons, List.flatMap_cons, cutTexts, List.take_left, List.drop_left, ofUtf8?_utf8, ih]
      rfl

theorem length_flatMap_utf8 (ss : List String) :
    (ss.flatMap utf8).length = total (ss.map fun s => (utf8 s).length) := by
  induction ss with
  | nil => rfl
  | cons s ss ih => rw [List.flatMap_cons, List.length_append, List.map_cons, total_cons, ih]

theorem readsIf_writeTexts {ss : List String} (h : ∀ s ∈ ss, (utf8 s).length < Nat.pow 2 64) :
    ReadsIf (sumCheck (ss.map fun s => (utf8 s).length)) (readTexts ss.length) (writeTexts ss) ss := by
  have hlengths : ReadsIf (sumCheck (ss.map fun s => (utf8 s).length)) (readLengths _) _ _ :=
    readsIf_writeLengths (by simpa using h)
  have hbytes : Reads (take (total (ss.map fun s => (utf8 s).length))) (ss.flatMap utf8)
      (ss.flatMap utf8) := reads_take (length_flatMap_utf8 ss)
  rw [List.length_map] at hlengths
  refine hlengths.bindReads (hbytes.bindPure ?_)
  rw [cutTexts_utf8]
  exact .pure ss

theorem readsIf_writeText {s : String} (h : (utf8 s).length < Nat.pow 2 64) :
    ReadsIf (sumCheck [(utf8 s).length]) readText (writeTexts [s]) s := by
  have hone : ReadsIf (sumCheck [(utf8 s).length]) (readTexts [s].length) (writeTexts [s]) [s] :=
    readsIf_writeTexts (by simpa using h)
  exact hone.bindPure (.pure s)

end Outbox.Blob

import Outbox.Message.Blob
import Outbox.Proofs.Blob.Columns

/-!
# The binary form of a message is read back

Whatever order the headers are written in, reading the binary form gives the message that was written.
-/

namespace Outbox

/-! ## Headers in any order -/

namespace Keyed

variable {α κ : Type} [LT κ] {key : α → κ}

theorem insert_perm [DecidableLT κ] [Std.Trichotomous (α := κ) (· < ·)] {x : α} {l : List α}
    (h : ∀ y ∈ l, key x ≠ key y) : (insert key x l).Perm (x :: l) := by
  induction l with
  | nil => exact .refl _
  | cons y ys ih =>
      unfold insert
      split
      · exact .refl _
      · split
        · exact ((ih fun z hz => h z (List.mem_cons_of_mem _ hz)).cons y).trans (.swap x y ys)
        · rename_i hxy hyx
          exact absurd (Std.Trichotomous.trichotomous _ _ hxy hyx) (h y List.mem_cons_self)

/-- The order of a list that is in ascending order is determined by its members. -/
theorem Ordered.eq_of_perm [Std.Irrefl (α := κ) (· < ·)]
    [Trans (α := κ) (β := κ) (γ := κ) (· < ·) (· < ·) (· < ·)] {l l' : List α} (h : Ordered key l)
    (h' : Ordered key l') (hp : l.Perm l') : l = l' := by
  refine hp.eq_of_pairwise (fun a b _ _ hab hba => ?_) h h'
  exact absurd (Trans.trans hab hba) (Std.Irrefl.irrefl _)

end Keyed

namespace Headers

theorem foldl_insert_perm {l : List (String × String)} {h : Headers}
    (hn : ((l ++ h.entries).map Prod.fst).Nodup) :
    (l.foldl (fun h e => h.insert e.1 e.2) h).entries.Perm (l ++ h.entries) := by
  induction l generalizing h with
  | nil => exact .refl _
  | cons e es ih =>
      rw [List.cons_append, List.map_cons, List.nodup_cons] at hn
      have hinsert : (h.insert e.1 e.2).entries.Perm (e :: h.entries) := by
        refine Keyed.insert_perm fun y hy he => hn.1 ?_
        exact he ▸ List.mem_map_of_mem (List.mem_append_right _ hy)
      have hperm : (es ++ (h.insert e.1 e.2).entries).Perm (e :: (es ++ h.entries)) :=
        (hinsert.append_left es).trans List.perm_middle
      have hnodup : ((es ++ (h.insert e.1 e.2).entries).map Prod.fst).Nodup := by
        rw [(hperm.map Prod.fst).nodup_iff, List.map_cons, List.nodup_cons]
        exact hn
      exact (ih hnodup).trans hperm

theorem nodup_names (h : Headers) : (h.entries.map Prod.fst).Nodup := by
  refine List.pairwise_map.2 (h.ordered.imp fun hlt he => ?_)
  exact absurd (he ▸ hlt) (Std.Irrefl.irrefl _)

theorem ofList_of_perm {h : Headers} {l : List (String × String)} (hp : l.Perm h.entries) :
    ofList l = h := by
  have hn : ((l ++ empty.entries).map Prod.fst).Nodup := by
    rw [empty, List.append_nil, (hp.map Prod.fst).nodup_iff]
    exact h.nodup_names
  have hl := foldl_insert_perm hn
  rw [empty, List.append_nil] at hl
  exact ext (Keyed.Ordered.eq_of_perm (ofList l).ordered h.ordered (hl.trans hp))

end Headers

/-! ## Messages -/

namespace Message

open Blob

def textSize (s : String) : Nat := (utf8 s).length

/-- The bytes of all texts and of the body, and one for each header. -/
def size (m : Message) : Nat :=
  textSize m.key + total (m.headers.entries.map fun e => 1 + textSize e.1 + textSize e.2) +
    m.body.length + textSize m.topic

variable {m : Message} {headers : List (String × String)}

theorem headers_le_size (hp : headers.Perm m.headers.entries) :
    headers.length ≤ m.size ∧ total ((headers.map Prod.fst).map textSize) ≤ m.size ∧
      total ((headers.map Prod.snd).map textSize) ≤ m.size := by
  have htotal : total (headers.map fun e => 1 + textSize e.1 + textSize e.2) ≤ m.size := by
    rw [total_perm (hp.map _), size]
    omega
  have hsplit : total (headers.map fun e => 1 + textSize e.1 + textSize e.2) =
      headers.length + total ((headers.map Prod.fst).map textSize) +
        total ((headers.map Prod.snd).map textSize) := by
    clear htotal hp
    induction headers with
    | nil => rfl
    | cons e es ih =>
        simp only [List.map_cons, total_cons, List.length_cons, ih]
        omega
  omega

/-- The checks on sums of lengths, in the order in which the columns are read. -/
def sumsCheck (m : Message) (headers : List (String × String)) : Except BlobError Unit := do
  sumCheck [textSize m.key]
  sumCheck [headers.length]
  sumCheck ((headers.map Prod.fst).map textSize)
  sumCheck ((headers.map Prod.snd).map textSize)
  sumCheck [m.body.length]
  sumCheck [textSize m.topic]

theorem sumsCheck_of_lt (hp : headers.Perm m.headers.entries) (hm : m.size < hugeLength) :
    m.sumsCheck headers = .ok () := by
  obtain ⟨hcount, hnames, hvalues⟩ := headers_le_size hp
  have hone {n : Nat} (h : n ≤ m.size) : sumCheck [n] = .ok () :=
    sumCheck_of_lt (by simpa [total] using Nat.lt_of_le_of_lt h hm)
  rw [sumsCheck, hone (n := textSize m.key) (by rw [size]; omega), hone hcount,
    sumCheck_of_lt (Nat.lt_of_le_of_lt hnames hm), sumCheck_of_lt (Nat.lt_of_le_of_lt hvalues hm),
    hone (n := m.body.length) (by rw [size]; omega), hone (n := textSize m.topic) (by rw [size]; omega)]
  rfl

/-- All lengths are numbers of 64 bits. -/
structure LengthsFit (m : Message) (headers : List (String × String)) : Prop where
  key : (utf8 m.key).length < Nat.pow 2 64
  count : headers.length < Nat.pow 2 64
  names : ∀ s ∈ headers.map Prod.fst, (utf8 s).length < Nat.pow 2 64
  values : ∀ s ∈ headers.map Prod.snd, (utf8 s).length < Nat.pow 2 64
  body : m.body.length < Nat.pow 2 64
  topic : (utf8 m.topic).length < Nat.pow 2 64

theorem lengthsFit (hp : headers.Perm m.headers.entries) (hm : m.size < Nat.pow 2 64) :
    m.LengthsFit headers := by
  obtain ⟨hcount, hnames, hvalues⟩ := headers_le_size hp
  have hone {n : Nat} (h : n ≤ m.size) : n < Nat.pow 2 64 := Nat.lt_of_le_of_lt h hm
  exact {
    key := hone (by rw [size, textSize]; omega)
    count := hone hcount
    names := fun s hs => hone (Nat.le_trans (le_total (List.mem_map_of_mem (f := textSize) hs)) hnames)
    values := fun s hs => hone (Nat.le_trans (le_total (List.mem_map_of_mem (f := textSize) hs)) hvalues)
    body := hone (by rw [size]; omega)
    topic := hone (by rw [size, textSize, textSize]; omega) }

/-- The reader takes what was written, if it is content with the sums. -/
theorem readsIf_blobWith (hp : headers.Perm m.headers.entries) (hm : m.size < Nat.pow 2 64) :
    ReadsIf (m.sumsCheck headers) reader (m.blobWith headers) m := by
  have hfit := lengthsFit hp hm
  have readNames := readsIf_writeTexts hfit.names
  have readValues := readsIf_writeTexts hfit.values
  rw [List.length_map] at readNames readValues
  have hzip : (headers.map Prod.fst).zip (headers.map Prod.snd) = headers := by
    rw [List.zip_map']
    exact List.map_id headers
  simp only [blobWith, List.append_assoc]
  refine (readsIf_writeText hfit.key).bind <|
    (readsIf_writeLength hfit.count).bind <| readNames.bind <| readValues.bind <|
    (readsIf_writeLength hfit.body).bind <| (reads_writeBytes m.body).bindIf <|
    (readsIf_writeText hfit.topic).bindPure ?_
  rw [hzip, Headers.ofList_of_perm hp]
  exact .pure m

theorem reads_blobWith (hp : headers.Perm m.headers.entries) (hm : m.size < hugeLength) :
    Reads reader (m.blobWith headers) m :=
  (readsIf_blobWith hp (Nat.lt_trans hm (by decide))).reads (sumsCheck_of_lt hp hm)

/-- Every binary form of a message reads back as the message. The decoder takes no more than the sizes
that `hugeLength` leaves, which are more than an address space has room for. -/
theorem ofBlob_of_isBlob {bytes : List UInt8} (h : m.IsBlob bytes) (hm : m.size < hugeLength) :
    ofBlob bytes = .ok m := by
  obtain ⟨headers, hp, rfl⟩ := h
  exact (reads_blobWith hp hm).readAll

/-- Headers against their order, one of them with an empty value, and a body of two length columns. -/
def mixed : Message where
  topic := "größe"
  key := ""
  body := List.replicate 300 7 ++ [255]
  headers := .ofList [("b", "β"), ("a", "")]

theorem ofBlob_mixed : mixed.IsBlob (mixed.blobWith [("b", "β"), ("a", "")]) ∧
    mixed.size < Blob.hugeLength ∧ ofBlob (mixed.blobWith [("b", "β"), ("a", "")]) = .ok mixed := by
  have hblob : mixed.IsBlob (mixed.blobWith [("b", "β"), ("a", "")]) :=
    ⟨_, by decide +kernel, rfl⟩
  have hsize : mixed.size < Blob.hugeLength := by decide +kernel
  exact ⟨hblob, hsize, ofBlob_of_isBlob hblob hsize⟩

end Message

end Outbox

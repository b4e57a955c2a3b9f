import Outbox.Proofs.Blob.Columns

/-!
# Where a column ends

Readers take their input strictly in order: short of its end, none behaves differently for what follows.
Columns end by themselves: of two inputs that begin with a column of each of two writers, the columns are the
same.
-/

namespace Outbox.Blob

/-! ## Readers -/

/-- On a longer input the reader does what it did, and leaves that much more, unless it had run out. -/
def Sequential {α : Type} (r : Reader α) : Prop :=
  ∀ input more, r input = .error .endOfInput ∨
    r (input ++ more) = (r input).map fun p => (p.1, p.2 ++ more)

namespace Sequential

variable {α β : Type} {r : Reader α} {k : α → Reader β} {c : Except BlobError Unit}
  {bytes part : List UInt8} {a : α}

theorem pure (a : α) : Sequential (Pure.pure a : Reader α) := fun _ _ => .inr rfl

theorem fail (e : BlobError) : Sequential (throw e : Reader α) := fun _ _ => .inr rfl

theorem lift (c : Except BlobError α) : Sequential (liftM c : Reader α) := by
  intro input more
  cases c <;> exact .inr rfl

theorem bind (hr : Sequential r) (hk : ∀ a, Sequential (k a)) : Sequential (r >>= k) := by
  have hbind : ∀ input, (r >>= k) input = (r input >>= fun p => k p.1 p.2) := fun _ => rfl
  intro input more
  rw [hbind, hbind]
  rcases hr input more with hend | hmore
  · rw [hend]
    exact .inl rfl
  · rw [hmore]
    cases hi : r input with
    | error e => exact .inr rfl
    | ok p => exact hk p.1 p.2 more

/-- A part of the bytes that the reader takes is not enough for it. -/
theorem error_of_isPrefix (hr : Sequential r) (h : ReadsIf c r bytes a) (hp : part <+: bytes)
    (hne : part ≠ bytes) : ∃ e, r part = .error e := by
  obtain ⟨cut, rfl⟩ := hp
  rcases hr part cut with hend | hmore
  · exact ⟨_, hend⟩
  · cases hi : r part with
    | error e => exact ⟨e, rfl⟩
    | ok p =>
        have hall := h []
        rw [List.append_nil, hmore, hi] at hall
        cases c with
        | error e => cases hall
        | ok =>
            have hrest : p.2 ++ cut = [] := congrArg Prod.snd (Except.ok.inj hall)
            exact absurd (by rw [(List.append_eq_nil_iff.1 hrest).2, List.append_nil]) hne

end Sequential

/-- What follows the bytes that the reader takes is too much. -/
theorem ReadsIf.error_of_append {α : Type} {c : Except BlobError Unit} {r : Reader α} {bytes more : List UInt8}
    {a : α} (h : ReadsIf c r bytes a) (hne : more ≠ []) : ∃ e, r.readAll (bytes ++ more) = .error e := by
  obtain ⟨b, bs, rfl⟩ := List.exists_cons_of_ne_nil hne
  unfold Reader.readAll
  rw [h]
  cases c with
  | error e => exact ⟨e, rfl⟩
  | ok => exact ⟨.trailingInput, rfl⟩

theorem sequential_take (n : Nat) : Sequential (take n) := by
  intro input more
  unfold take
  split
  · rename_i hn
    rw [if_pos (by rw [List.length_append]; omega)]
    refine .inr ?_
    simp [List.splitAt_eq, List.take_append_of_le_length hn, List.drop_append_of_le_length hn, Except.map]
  · exact .inl rfl

theorem sequential_byte : Sequential byte := by
  intro input more
  cases input with
  | nil => exact .inl rfl
  | cons b bs => exact .inr rfl

theorem sequential_readPacked (p : Packing) (n : Nat) : Sequential (readPacked p n) :=
  (sequential_take _).bind fun _ => .pure _

theorem sequential_readBytes (n : Nat) : Sequential (readBytes n) := by
  unfold readBytes
  split
  · exact sequential_take n
  · refine sequential_byte.bind fun tag => ?_
    split
    · exact .fail _
    · split
      · exact sequential_byte.bind fun low => (sequential_readPacked _ n).bind fun _ => .pure _
      · exact sequential_readPacked _ n

theorem sequential_readFixed (size n : Nat) : Sequential (readFixed size n) := by
  induction n with
  | zero => exact .pure []
  | succ n ih => exact (sequential_take size).bind fun _ => ih.bind fun _ => .pure _

theorem sequential_readWidth (w : Width) (n : Nat) : Sequential (readWidth w n) := by
  cases w with
  | bits8 => exact (sequential_readBytes n).bind fun _ => .pure _
  | bits16 | bits32 | bits64 => exact sequential_readFixed _ n

theorem sequential_readNumbers (n : Nat) : Sequential (readNumbers n) := by
  unfold readNumbers
  split
  · exact .pure []
  · refine sequential_byte.bind fun tag => ?_
    split
    · exact .fail _
    · split
      · exact (sequential_take 8).bind fun _ => (sequential_readWidth _ n).bind fun _ => .pure _
      · exact sequential_readWidth _ n

theorem sequential_readLengths (n : Nat) : Sequential (readLengths n) :=
  (sequential_readBytes n).bind fun _ => (sequential_readNumbers _).bind fun _ =>
    (Sequential.lift _).bind fun _ => .pure _

theorem sequential_readLength : Sequential readLength :=
  (sequential_readLengths 1).bind fun _ => .pure _

theorem sequential_readTexts (n : Nat) : Sequential (readTexts n) := by
  refine (sequential_readLengths n).bind fun lengths => (sequential_take _).bind fun bytes => ?_
  split
  · exact .pure _
  · exact .fail _

theorem sequential_readText : Sequential readText :=
  (sequential_readTexts 1).bind fun _ => .pure _

/-! ## Columns -/

variable {rest rest' : List UInt8}

theorem Reads.append_inj {α : Type} {r : Reader α} {bytes bytes' : List UInt8} {a a' : α}
    (h : Reads r bytes a) (h' : Reads r bytes' a') (he : bytes ++ rest = bytes' ++ rest') :
    a = a' ∧ rest = rest' := by
  have hr := h rest
  rw [he, h' rest'] at hr
  cases hr
  exact ⟨rfl, rfl⟩

theorem writeBytes_append_inj {vs vs' : List UInt8} (hl : vs.length = vs'.length)
    (he : writeBytes vs ++ rest = writeBytes vs' ++ rest') : vs = vs' ∧ rest = rest' := by
  have hvs := reads_writeBytes vs
  rw [hl] at hvs
  exact hvs.append_inj (reads_writeBytes vs') he

theorem writeLengths_append_inj {ns ns' : List Nat} (h : ∀ n ∈ ns, n < Nat.pow 2 64)
    (h' : ∀ n ∈ ns', n < Nat.pow 2 64) (hl : ns.length = ns'.length)
    (he : writeLengths ns ++ rest = writeLengths ns' ++ rest') : ns = ns' ∧ rest = rest' := by
  have hlong := reads_longLengths h
  unfold writeLengths at he
  rw [List.append_assoc, List.append_assoc] at he
  obtain ⟨hmap, he⟩ : ns.map shortLength = ns'.map shortLength ∧ _ :=
    writeBytes_append_inj (by rw [List.length_map, List.length_map, hl]) he
  rw [hmap] at hlong
  obtain ⟨hfilter, he⟩ := hlong.append_inj (reads_longLengths h') he
  refine ⟨?_, he⟩
  rw [← fillLengths_shortLength ns, hmap, hfilter, fillLengths_shortLength]

theorem writeLength_append_inj {n n' : Nat} (h : n < Nat.pow 2 64) (h' : n' < Nat.pow 2 64)
    (he : writeLengths [n] ++ rest = writeLengths [n'] ++ rest') : n = n' ∧ rest = rest' := by
  obtain ⟨hn, he⟩ := writeLengths_append_inj (List.forall_mem_singleton.2 h) (List.forall_mem_singleton.2 h') rfl he
  exact ⟨List.singleton_inj.1 hn, he⟩

theorem writeTexts_append_inj {ss ss' : List String} (h : ∀ s ∈ ss, (utf8 s).length < Nat.pow 2 64)
    (h' : ∀ s ∈ ss', (utf8 s).length < Nat.pow 2 64) (hl : ss.length = ss'.length)
    (he : writeTexts ss ++ rest = writeTexts ss' ++ rest') : ss = ss' ∧ rest = rest' := by
  unfold writeTexts at he
  rw [List.append_assoc, List.append_assoc] at he
  obtain ⟨hlengths, he⟩ := writeLengths_append_inj (by simpa using h) (by simpa using h')
    (by rw [List.length_map, List.length_map, hl]) he
  obtain ⟨hbytes, he⟩ := List.append_inj he <| by
    rw [length_flatMap_utf8, length_flatMap_utf8, hlengths]
  have hcut := cutTexts_utf8 ss
  rw [hlengths, hbytes, cutTexts_utf8] at hcut
  exact ⟨(Option.some.inj hcut).symm, he⟩

theorem writeText_append_inj {s s' : String} (h : (utf8 s).length < Nat.pow 2 64)
    (h' : (utf8 s').length < Nat.pow 2 64)
    (he : writeTexts [s] ++ rest = writeTexts [s'] ++ rest') : s = s' ∧ rest = rest' := by
  obtain ⟨hs, he⟩ := writeTexts_append_inj (List.forall_mem_singleton.2 h) (List.forall_mem_singleton.2 h') rfl he
  exact ⟨List.singleton_inj.1 hs, he⟩

end Outbox.Blob

import Outbox.Proofs.Blob.Boundaries
import Outbox.Proofs.Message.RoundTrip
import Outbox.Sql.Row

/-!
# Damaged binary forms are noticed

What is left of a binary form after a cut is not read as a message, nor is a binary form with more after it.
No message has a binary form that begins the binary form of another.
-/

namespace Outbox.Message

open Blob

variable {m m' : Message} {headers headers' : List (String × String)} {bytes rest rest' : List UInt8}

theorem sequential_reader : Sequential reader :=
  sequential_readText.bind fun _ => sequential_readLength.bind fun _ =>
    (sequential_readTexts _).bind fun _ => (sequential_readTexts _).bind fun _ =>
    sequential_readLength.bind fun _ => (sequential_readBytes _).bind fun _ =>
    sequential_readText.bind fun _ => .pure _

theorem LengthsFit.append_inj (h : m.LengthsFit headers) (h' : m'.LengthsFit headers')
    (he : m.blobWith headers ++ rest = m'.blobWith headers' ++ rest') :
    (m.key = m'.key ∧ headers = headers' ∧ m.body = m'.body ∧ m.topic = m'.topic) ∧ rest = rest' := by
  simp only [blobWith, List.append_assoc] at he
  obtain ⟨hkey, he⟩ := writeText_append_inj h.key h'.key he
  obtain ⟨hcount, he⟩ := writeLength_append_inj h.count h'.count he
  obtain ⟨hnames, he⟩ := writeTexts_append_inj h.names h'.names (by simpa using hcount) he
  obtain ⟨hvalues, he⟩ := writeTexts_append_inj h.values h'.values (by simpa using hcount) he
  obtain ⟨hsize, he⟩ := writeLength_append_inj h.body h'.body he
  obtain ⟨hbody, he⟩ := writeBytes_append_inj hsize he
  obtain ⟨htopic, he⟩ := writeText_append_inj h.topic h'.topic he
  have hheaders : headers = headers' := by
    rw [← List.zip_unzip headers, ← List.zip_unzip headers', List.unzip_eq_map, List.unzip_eq_map,
      hnames, hvalues]
  exact ⟨⟨hkey, hheaders, hbody, htopic⟩, he⟩

/-- Only a message itself has a binary form that begins with one of its own. -/
theorem eq_of_isPrefix {bytes' : List UInt8} (h : m.IsBlob bytes) (h' : m'.IsBlob bytes')
    (hm : m.size < Nat.pow 2 64) (hm' : m'.size < Nat.pow 2 64) (hpre : bytes <+: bytes') :
    m = m' ∧ bytes = bytes' := by
  obtain ⟨headers, hp, rfl⟩ := h
  obtain ⟨headers', hp', rfl⟩ := h'
  obtain ⟨more, hmore⟩ := hpre
  have hall := (List.append_nil (m'.blobWith headers')).symm
  obtain ⟨⟨hkey, rfl, hbody, htopic⟩, hnil⟩ := (lengthsFit hp hm).append_inj (lengthsFit hp' hm')
    (hmore.trans hall)
  have hheaders : m.headers = m'.headers := by
    rw [← Headers.ofList_of_perm hp, Headers.ofList_of_perm hp']
  refine ⟨?_, by rw [← hmore, hnil, List.append_nil]⟩
  cases m
  cases m'
  cases hkey; cases hheaders; cases hbody; cases htopic
  rfl

/-- The bytes are no message, and a row that holds them is no record. -/
def Unreadable (bytes : List UInt8) : Prop :=
  ∃ cause, decode bytes = .error (.codec "outbox.message.decode" cause) ∧
    ∀ row : Sql.Row, row.data = bytes → (State.ofNumber? row.state).isSome = true → 0 ≤ row.attempts →
      row.record = .error (.codec "outbox.message.decode" cause)

theorem unreadable_of_error {cause : BlobError} (h : ofBlob bytes = .error cause) : Unreadable bytes := by
  have hdecode : decode bytes = .error (.codec "outbox.message.decode" cause) := by
    rw [decode, h]
    rfl
  refine ⟨cause, hdecode, fun row hrow hstate hattempts => ?_⟩
  obtain ⟨state, hstate⟩ := Option.isSome_iff_exists.1 hstate
  simp only [Sql.Row.record, hstate, hrow, hdecode, Int.not_lt.2 hattempts, if_false]
  rfl

/-- Damage to a binary form is noticed, whether it was cut short or something was put behind it, and no
binary form can pass for another one that was cut short. The lengths in it are numbers of 64 bits, which
those of anything in memory are. -/
theorem damage_noticed (h : m.IsBlob bytes) (hm : m.size < Nat.pow 2 64) :
    (∀ part, part <+: bytes → part ≠ bytes → Unreadable part) ∧
      (∀ more, more ≠ [] → Unreadable (bytes ++ more)) ∧
      ∀ m' bytes', m'.IsBlob bytes' → m'.size < Nat.pow 2 64 → bytes <+: bytes' → m = m' ∧ bytes = bytes' := by
  obtain ⟨headers, hp, rfl⟩ := h
  have hread := readsIf_blobWith hp hm
  refine ⟨fun part hpre hne => ?_, fun more hne => ?_,
    fun m' bytes' h' hm' => eq_of_isPrefix ⟨headers, hp, rfl⟩ h' hm hm'⟩
  · obtain ⟨e, he⟩ := sequential_reader.error_of_isPrefix hread hpre hne
    exact unreadable_of_error (by rw [ofBlob, Reader.readAll, he])
  · obtain ⟨e, he⟩ := hread.error_of_append hne
    exact unreadable_of_error he

theorem damage_noticed_mixed :
    (mixed.IsBlob (mixed.blobWith [("b", "β"), ("a", "")]) ∧ mixed.size < Nat.pow 2 64) ∧
      (∀ part, part <+: mixed.blobWith [("b", "β"), ("a", "")] →
        part ≠ mixed.blobWith [("b", "β"), ("a", "")] → Unreadable part) ∧
      (∀ more, more ≠ [] → Unreadable (mixed.blobWith [("b", "β"), ("a", "")] ++ more)) ∧
      ∀ m' bytes', m'.IsBlob bytes' → m'.size < Nat.pow 2 64 →
        mixed.blobWith [("b", "β"), ("a", "")] <+: bytes' →
        mixed = m' ∧ mixed.blobWith [("b", "β"), ("a", "")] = bytes' := by
  have hblob : mixed.IsBlob (mixed.blobWith [("b", "β"), ("a", "")]) := ⟨_, by decide +kernel, rfl⟩
  have hsize : mixed.size < Nat.pow 2 64 := by decide +kernel
  exact ⟨⟨hblob, hsize⟩, damage_noticed hblob hsize⟩

end Outbox.Message

import Mathlib.Algebra.Group.Int.Defs
import Mathlib.Data.List.GetD
import Mathlib.Data.String.Basic
import Outbox.Proofs.RecordId.Bytes

/-!
# Ids as text

The letters of the alphabet are in the order of the digits that they stand for, so that ids are in the
order of their texts, and reading gives back what was written, in either case. Ids that are made one after
another are in that order, too.
-/

namespace Outbox.RecordId

/-! ## Letters -/

theorem sorted_alphabet : alphabet.Pairwise (· < ·) := by decide

theorem idxOf?_digitChar : ∀ d < 32, alphabet.idxOf? (digitChar d) = some d := by decide

theorem toUpper_digitChar : ∀ d < 32, (digitChar d).toUpper = digitChar d := by decide

theorem toUpper_toLower_digitChar : ∀ d < 32, (digitChar d).toLower.toUpper = digitChar d := by decide

theorem digitChar_lt_digitChar_of_lt {d e : Nat} (he : e < 32) (h : d < e) : digitChar d < digitChar e := by
  have hd : d < alphabet.length := Nat.lt_trans h he
  have he : e < alphabet.length := he
  rw [digitChar, digitChar, List.getD_eq_getElem _ _ hd, List.getD_eq_getElem _ _ he]
  exact List.pairwise_iff_getElem.1 sorted_alphabet d e hd he h

theorem digitChar_lt_digitChar_iff {d e : Nat} (hd : d < 32) (he : e < 32) :
    digitChar d < digitChar e ↔ d < e := by
  refine ⟨fun h => Nat.lt_of_not_le fun hle => ?_, digitChar_lt_digitChar_of_lt he⟩
  rcases Nat.lt_or_eq_of_le hle with hlt | rfl
  · exact Char.lt_asymm h (digitChar_lt_digitChar_of_lt hd hlt)
  · exact Char.lt_irrefl _ h

theorem digitChar_inj {d e : Nat} (hd : d < 32) (he : e < 32) : digitChar d = digitChar e ↔ d = e := by
  refine ⟨fun h => ?_, congrArg digitChar⟩
  have := idxOf?_digitChar d hd
  rw [h, idxOf?_digitChar e he] at this
  exact (Option.some.inj this).symm

theorem digit?_of_toUpper {c : Char} {d : Nat} (hd : d < 32) (h : c.toUpper = digitChar d) :
    digit? c = some d := by
  rw [digit?, h, idxOf?_digitChar d hd]

/-! ## Texts -/

theorem toList_text (id : RecordId) : id.text.toList = (Digits.ofNat 32 26 id.number).map digitChar :=
  String.toList_ofList

theorem length_text (id : RecordId) : id.text.length = 26 := by
  rw [← String.length_toList, toList_text, List.length_map, Digits.length_ofNat]

theorem text_lt_text_iff {a b : RecordId} : a.text < b.text ↔ a < b := by
  have hwide (id : RecordId) : id.number < 32 ^ 26 := Nat.lt_of_lt_of_le id.number_lt (by decide)
  rw [String.lt_iff_toList_lt, toList_text, toList_text]
  exact Digits.map_ofNat_lt_map_ofNat_iff (fun _ hd _ he => digitChar_lt_digitChar_iff hd he)
    (fun _ hd _ he => digitChar_inj hd he) (by decide) (hwide a) (hwide b)

theorem mapM_digit? {cs : List Char} {ds : List Nat} (hds : ∀ d ∈ ds, d < 32)
    (h : cs.map Char.toUpper = ds.map digitChar) : cs.mapM digit? = some ds := by
  induction ds generalizing cs with
  | nil => rw [List.map_eq_nil_iff.1 h]; rfl
  | cons d ds ih =>
      obtain ⟨c, cs, rfl, hc, hcs⟩ := List.map_eq_cons_iff.1 h
      have hdigit := digit?_of_toUpper (hds d List.mem_cons_self) hc
      have hrest := ih (fun e he => hds e (List.mem_cons_of_mem _ he)) hcs
      rw [List.mapM_cons, hdigit, hrest]
      rfl

/-- Each letter may stand in either case. -/
theorem ofText?_of_toUpper {id : RecordId} {s : String} (h : s.toUpper = id.text) : ofText? s = some id := by
  have hcs : s.toList.map Char.toUpper = (Digits.ofNat 32 26 id.number).map digitChar := by
    rw [← toList_text, ← h, String.toUpper, String.toList_map]
  have hlen : s.toList.length = 26 := by
    rw [← List.length_map, hcs, List.length_map, Digits.length_ofNat]
  have hdigits := mapM_digit? (fun _ hd => Digits.lt_of_mem_ofNat (by decide) hd) hcs
  rw [ofText?, ofChars?, if_pos hlen, hdigits, Option.map_some, ofNat_toNat_ofNat (by decide)]

theorem map_text (id : RecordId) {f : Char → Char} (h : ∀ d < 32, f (digitChar d) = digitChar d) :
    id.text.toList.map f = id.text.toList := by
  rw [toList_text, List.map_map]
  exact List.map_congr_left fun d hd => h d (Digits.lt_of_mem_ofNat (by decide) hd)

theorem toUpper_text (id : RecordId) : id.text.toUpper = id.text := by
  refine String.toList_injective ?_
  rw [String.toUpper, String.toList_map, map_text id toUpper_digitChar]

theorem toUpper_toLower_text (id : RecordId) : id.text.toLower.toUpper = id.text := by
  have hmap : id.text.toLower.toUpper = (id.text.map Char.toLower).map Char.toUpper := rfl
  refine String.toList_injective ?_
  rw [hmap, String.toList_map, String.toList_map, List.map_map, map_text id toUpper_toLower_digitChar]

/-! ## Times -/

theorem lt_of_timestamp_lt {a b : RecordId} (h : a.timestamp < b.timestamp) : a < b :=
  Nat.lt_of_not_le fun hle => Nat.not_le_of_lt h (Nat.div_le_div_right hle)

theorem timestamp_ofParts (t r : Nat) : (ofParts t r).timestamp = t % 2 ^ 48 := by
  have ht : t % 2 ^ 48 < 2 ^ 48 := Nat.mod_lt _ (by decide)
  have hr : r % 2 ^ 80 < 2 ^ 80 := Nat.mod_lt _ (by decide)
  simp only [ofParts, ofNat, timestamp, Nat.pow_eq]
  omega

theorem stamped_lt_stamped {now later : Instant} (h : 0 ≤ now.millis) (hlt : now.millis < later.millis)
    (hlater : later.millis < 2 ^ 48) (r q : Nat) : stamped now r < stamped later q := by
  refine lt_of_timestamp_lt ?_
  rw [stamped, stamped, timestamp_ofParts, timestamp_ofParts, Nat.mod_eq_of_lt (by omega),
    Nat.mod_eq_of_lt (by omega)]
  omega

/-! ## Agreement -/

/-- Ids, their bytes and their texts are all in one order. Bytes and text give the id back, and so does the
text with any of its letters in lower case. Of two ids, the one that was made a millisecond or more after the
other is greater, whatever their random parts. -/
theorem representations_agree :
    (∀ a b : RecordId, (a.bytes < b.bytes ↔ a < b) ∧ (a.text < b.text ↔ a < b)) ∧
      (∀ id : RecordId, id.bytes.length = 16 ∧ ofBytes id.bytes = id ∧ id.text.length = 26 ∧
        ofText? id.text = some id ∧ ofText? id.text.toLower = some id ∧
        ∀ s : String, s.toUpper = id.text → ofText? s = some id) ∧
      ∀ (now later : Instant) (r q : Nat), 0 ≤ now.millis → now.millis < later.millis →
        later.millis < 2 ^ 48 → stamped now r < stamped later q := by
  refine ⟨fun a b => ⟨bytes_lt_bytes_iff, text_lt_text_iff⟩, fun id => ?_, fun now later r q => ?_⟩
  · exact ⟨length_bytes id, ofBytes_bytes id, length_text id, ofText?_of_toUpper (toUpper_text id),
      ofText?_of_toUpper (toUpper_toLower_text id), fun s => ofText?_of_toUpper⟩
  · exact fun h hlt hlater => stamped_lt_stamped h hlt hlater r q

/-- The start of the last millisecond that ids can tell. -/
def lastMilli : Instant := ⟨281474976710655000000, by decide, by decide⟩

/-- The nanosecond before it. -/
def eveOfLastMilli : Instant := ⟨281474976710654999999, by decide, by decide⟩

/-- All random bits are set in the earlier id, none in the later one. -/
theorem representations_agree_lastMilli :
    0 ≤ eveOfLastMilli.millis ∧ eveOfLastMilli.millis < lastMilli.millis ∧ lastMilli.millis < 2 ^ 48 ∧
      (stamped eveOfLastMilli (2 ^ 80 - 1)).bytes < (stamped lastMilli 0).bytes ∧
      (stamped eveOfLastMilli (2 ^ 80 - 1)).text < (stamped lastMilli 0).text ∧
      "7ZzZzZzZzZ0000000000000000".toUpper = (stamped lastMilli 0).text ∧
      ofText? "7ZzZzZzZzZ0000000000000000" = some (stamped lastMilli 0) := by
  obtain ⟨horder, hread, htime⟩ := representations_agree
  have hnow : 0 ≤ eveOfLastMilli.millis := by decide
  have hlt : eveOfLastMilli.millis < lastMilli.millis := by decide
  have hlater : lastMilli.millis < 2 ^ 48 := by decide
  have htext : "7ZzZzZzZzZ0000000000000000".toUpper = (stamped lastMilli 0).text := by decide +kernel
  have hstamped := htime _ _ (2 ^ 80 - 1) 0 hnow hlt hlater
  have hid := horder (stamped eveOfLastMilli (2 ^ 80 - 1)) (stamped lastMilli 0)
  exact ⟨hnow, hlt, hlater, hid.1.2 hstamped, hid.2.2 hstamped, htext,
    (hread (stamped lastMilli 0)).2.2.2.2.2 _ htext⟩

end Outbox.RecordId

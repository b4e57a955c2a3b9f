import Outbox.Store.Transaction

/-!
# Records under their ids

What each operation of the store in memory does to the record under an id. Two stores with the same
record under every id are the same.
-/

namespace Outbox

namespace Keyed

variable {α κ : Type} [LT κ] [DecidableLT κ] {key : α → κ}

theorem mem_insert_of_mem [Std.Trichotomous (α := κ) (· < ·)] {x y : α} {l : List α} (h : y ∈ l)
    (hk : key y ≠ key x) : y ∈ insert key x l := by
  induction l with
  | nil => simp at h
  | cons z zs ih =>
      unfold insert
      rcases List.mem_cons.1 h with rfl | h
      · split
        · simp
        · split
          · simp
          · rename_i hxy hyx
            exact absurd (Std.Trichotomous.trichotomous _ _ hyx hxy) hk
      · split
        · simp [h]
        · split <;> simp [h, ih h]

end Keyed

namespace Store

variable {s t : Store} {r v : Record} {id : RecordId}

/-! ## Look-up -/

theorem get?_of_mem (h : r ∈ s.records) : s.get? r.id = some r := get?_eq_some_iff.2 ⟨h, rfl⟩

theorem id_of_get? (h : s.get? id = some r) : r.id = id := (get?_eq_some_iff.1 h).2

theorem mem_of_get? (h : s.get? id = some r) : r ∈ s.records := (get?_eq_some_iff.1 h).1

theorem eq_of_id_eq (hr : r ∈ s.records) (hv : v ∈ s.records) (h : r.id = v.id) : r = v := by
  have := get?_of_mem hr
  rw [h, get?_of_mem hv] at this
  exact (Option.some.inj this).symm

theorem nodup_ids (s : Store) : (s.records.map Record.id).Nodup := by
  refine List.pairwise_map.2 (s.ordered.imp ?_)
  intro a b h he
  rw [he] at h
  exact Std.Irrefl.irrefl _ h

@[simp] theorem get?_empty : empty.get? id = none := rfl

/-! ## Operations -/

@[simp] theorem get?_modify {p : Record → Bool} {f : Record → Record} {hf : ∀ r, (f r).id = r.id} :
    (s.modify p f hf).get? id = (s.get? id).map fun r => if p r then f r else r := by
  have key : ∀ r : Record, (if p r then f r else r).id = r.id := by
    intro r; split <;> simp [hf]
  ext v
  simp only [get?_eq_some_iff, Option.map_eq_some_iff, modify, List.mem_map]
  constructor
  · rintro ⟨⟨r, hr, rfl⟩, he⟩
    exact ⟨r, ⟨hr, (key r).symm.trans he⟩, rfl⟩
  · rintro ⟨r, ⟨hr, he⟩, rfl⟩
    exact ⟨⟨r, hr, rfl⟩, (key r).trans he⟩

@[simp] theorem get?_claim {owner : MachineId} {now : Instant} {state : State} :
    (s.claim owner now state).get? id =
      (s.get? id).map fun r => if Claimable state r then r.locked owner now else r := get?_modify

@[simp] theorem get?_unlock {p : Record → Bool} :
    (s.unlock p).get? id = (s.get? id).map fun r => if p r then r.unlocked else r := get?_modify

@[simp] theorem get?_remove {p : Record → Bool} :
    (s.remove p).get? id = (s.get? id).filter fun r => !p r := by
  ext v
  simp only [get?_eq_some_iff, Option.filter_eq_some_iff, remove, List.mem_filter]
  constructor
  · rintro ⟨⟨hv, hp⟩, he⟩; exact ⟨⟨hv, he⟩, hp⟩
  · rintro ⟨⟨hv, he⟩, hp⟩; exact ⟨⟨hv, hp⟩, he⟩

theorem get?_save : (s.save r).get? id = if r.id = id then (s.get? id).map fun _ => r else s.get? id := by
  ext v
  simp only [get?_eq_some_iff, save, List.mem_map]
  split
  · rename_i hid
    simp only [Option.map_eq_some_iff, get?_eq_some_iff]
    constructor
    · rintro ⟨⟨u, hu, rfl⟩, he⟩
      split at he
      · rename_i hu'
        exact ⟨u, ⟨hu, hu'.trans hid⟩, (if_pos hu').symm⟩
      · rename_i hu'
        exact absurd (he.trans hid.symm) hu'
    · rintro ⟨u, ⟨hu, he⟩, rfl⟩
      exact ⟨⟨u, hu, if_pos (he.trans hid.symm)⟩, hid⟩
  · rename_i hid
    rw [get?_eq_some_iff]
    constructor
    · rintro ⟨⟨u, hu, rfl⟩, he⟩
      split at he
      · exact absurd he hid
      · rename_i hu'
        rw [if_neg hu']
        exact ⟨hu, he⟩
    · rintro ⟨hv, rfl⟩
      exact ⟨⟨v, hv, if_neg (Ne.symm hid)⟩, rfl⟩

theorem save_of_new (h : s.get? r.id = none) : s.save r = s := by
  have hother : ∀ v ∈ s.records, (if v.id = r.id then r else v) = v := by
    intro v hv
    refine if_neg fun he => ?_
    rw [← he, get?_of_mem hv] at h
    cases h
  exact ext ((List.map_congr_left hother).trans (List.map_id _))

/-- The store after a save, also where the record is not found. -/
theorem perform_save_snd : (s.perform (.save r)).2 = s.save r := by
  cases hg : s.get? r.id with
  | some v => simp [perform, hg]
  | none => simp [perform, hg, save_of_new hg]

theorem get?_put : (s.put r).get? id = if r.id = id then some r else s.get? id := by
  split
  · rename_i h
    exact get?_eq_some_iff.2 ⟨Keyed.mem_insert_self .., h⟩
  · rename_i h
    ext v
    simp only [get?_eq_some_iff, put]
    constructor
    · rintro ⟨hv, he⟩
      rcases Keyed.mem_of_mem_insert hv with rfl | hv
      · exact absurd he h
      · exact ⟨hv, he⟩
    · rintro ⟨hv, rfl⟩
      exact ⟨Keyed.mem_insert_of_mem hv (Ne.symm h), rfl⟩

theorem get?_putAll_of_not_mem {rs : List Record} (h : ∀ r ∈ rs, r.id ≠ id) :
    (s.putAll rs).get? id = s.get? id := by
  induction rs generalizing s with
  | nil => rfl
  | cons r rs ih =>
      have hr : r.id ≠ id := h r (by simp)
      exact (ih fun v hv => h v (by simp [hv])).trans (by rw [get?_put, if_neg hr])

theorem get?_putAll_of_mem {rs : List Record} (h : (rs.map Record.id).Nodup) (hr : r ∈ rs) :
    (s.putAll rs).get? r.id = some r := by
  induction rs generalizing s with
  | nil => simp at hr
  | cons v rs ih =>
      simp only [List.map_cons, List.nodup_cons] at h
      rcases List.mem_cons.1 hr with rfl | hr
      · have hv : ∀ u ∈ rs, u.id ≠ r.id := fun u hu he => h.1 (he ▸ List.mem_map_of_mem hu)
        exact (get?_putAll_of_not_mem hv).trans (by rw [get?_put, if_pos rfl])
      · exact ih h.2 hr

theorem get?_putAll_cases {rs : List Record} (h : (s.putAll rs).get? id = some v) :
    v ∈ rs ∨ s.get? id = some v := by
  induction rs generalizing s with
  | nil => exact Or.inr h
  | cons r rs ih =>
      rcases ih h with hv | hv
      · exact Or.inl (List.mem_cons_of_mem _ hv)
      · rw [get?_put] at hv
        split at hv
        · cases hv; exact Or.inl (by simp)
        · exact Or.inr hv

/-- A refused transaction changes nothing; an accepted one has only new ids. -/
theorem commit_cases (s : Store) (tx : Transaction) :
    (∃ e, s.commit tx = (.error e, s)) ∨
      (s.commit tx = (.ok (), s.putAll tx.staged) ∧ ∀ r ∈ tx.staged, s.get? r.id = none) := by
  unfold commit
  split
  · exact Or.inl ⟨_, rfl⟩
  · rename_i h
    refine Or.inr ⟨rfl, fun r hr => ?_⟩
    simpa using List.find?_eq_none.1 h r hr

theorem mem_fetch {owner : MachineId} :
    r ∈ s.fetch owner ↔ r ∈ s.records ∧ r.owner? = some owner := by
  simp [fetch, OwnedBy]

/-! ## Age order -/

theorem olderOrSame_iff {a b : Record} :
    olderOrSame a b = true ↔
      a.createdOn < b.createdOn ∨ (a.createdOn = b.createdOn ∧ a.id ≤ b.id) := by
  simp [olderOrSame]

theorem olderOrSame_trans (a b c : Record) (hab : olderOrSame a b = true) (hbc : olderOrSame b c = true) :
    olderOrSame a c = true := by
  rw [olderOrSame_iff, Instant.lt_def] at *
  rcases hab with hab | ⟨hab, hid⟩
  · rcases hbc with hbc | ⟨hbc, -⟩
    · exact Or.inl (Int.lt_trans hab hbc)
    · exact Or.inl (hbc ▸ hab)
  · rcases hbc with hbc | ⟨hbc, hid'⟩
    · exact Or.inl (hab ▸ hbc)
    · exact Or.inr ⟨hab.trans hbc, Nat.le_trans hid hid'⟩

theorem olderOrSame_total (a b : Record) : (olderOrSame a b || olderOrSame b a) = true := by
  rw [Bool.or_eq_true, olderOrSame_iff, olderOrSame_iff, Instant.lt_def, Instant.lt_def]
  rcases Int.lt_trichotomy a.createdOn.nanos b.createdOn.nanos with h | h | h
  · exact Or.inl (Or.inl h)
  · rcases Nat.le_total a.id.number b.id.number with hid | hid
    · exact Or.inl (Or.inr ⟨Instant.ext h, hid⟩)
    · exact Or.inr (Or.inr ⟨Instant.ext h.symm, hid⟩)
  · exact Or.inr (Or.inl h)

theorem id_eq_of_olderOrSame {a b : Record} (hab : olderOrSame a b = true)
    (hba : olderOrSame b a = true) : a.id = b.id := by
  rw [olderOrSame_iff, Instant.lt_def] at hab hba
  rcases hab with hab | ⟨hab, hid⟩
  · rcases hba with hba | ⟨hba, -⟩
    · omega
    · rw [hba] at hab
      omega
  · rcases hba with hba | ⟨-, hid'⟩
    · rw [hab] at hba
      omega
    · exact RecordId.ext (Nat.le_antisymm hid hid')

theorem mergeSort_eq_of_perm {rs rs' : List Record} (hp : rs'.Perm rs)
    (hrs : ∀ a ∈ rs, ∀ b ∈ rs, a.id = b.id → a = b) :
    rs'.mergeSort olderOrSame = rs.mergeSort olderOrSame := by
  refine List.Perm.eq_of_pairwise (fun a b ha hb hab hba => ?_)
    (List.pairwise_mergeSort olderOrSame_trans olderOrSame_total rs')
    (List.pairwise_mergeSort olderOrSame_trans olderOrSame_total rs)
    ((List.mergeSort_perm rs' _).trans (hp.trans (List.mergeSort_perm rs _).symm))
  have ha : a ∈ rs := hp.mem_iff.1 (List.mem_mergeSort.1 ha)
  exact hrs a ha b (List.mem_mergeSort.1 hb) (id_eq_of_olderOrSame hab hba)

theorem nodup_sorted (s : Store) (p : Record → Bool) :
    (((s.records.filter p).mergeSort olderOrSame).map Record.id).Nodup :=
  ((List.mergeSort_perm ..).map Record.id).nodup_iff.2
    (s.nodup_ids.sublist (List.filter_sublist.map Record.id))

end Store

end Outbox

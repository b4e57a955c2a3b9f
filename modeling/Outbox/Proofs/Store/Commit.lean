import Outbox.Proofs.Store.Lookup

/-!
# Commits

A commit stores the whole transaction or refuses it whole, as long as no id is staged twice. Of several
records under one id only the last is kept.
-/

namespace Outbox

namespace Keyed

variable {α κ : Type} [LT κ] [DecidableLT κ] {key : α → κ} {x : α} {l : List α}

theorem length_insert_of_new [Std.Trichotomous (α := κ) (· < ·)] (h : ∀ y ∈ l, key y ≠ key x) :
    (insert key x l).length = l.length + 1 := by
  induction l with
  | nil => rfl
  | cons y ys ih =>
      unfold insert
      split
      · rfl
      · split
        · rw [List.length_cons, ih fun z hz => h z (List.mem_cons_of_mem _ hz), List.length_cons]
        · rename_i hxy hyx
          exact absurd (Std.Trichotomous.trichotomous _ _ hyx hxy) (h y List.mem_cons_self)

theorem length_insert_of_mem [Std.Irrefl (α := κ) (· < ·)]
    [Trans (α := κ) (β := κ) (γ := κ) (· < ·) (· < ·) (· < ·)] {y : α} (hl : Ordered key l) (hy : y ∈ l)
    (hk : key y = key x) : (insert key x l).length = l.length := by
  induction l with
  | nil => cases hy
  | cons z zs ih =>
      obtain ⟨hz, hzs⟩ := List.pairwise_cons.1 hl
      unfold insert
      rcases List.mem_cons.1 hy with rfl | hy
      · rw [hk, if_neg (Std.Irrefl.irrefl _), if_neg (Std.Irrefl.irrefl _)]
        rfl
      · have hlt : key z < key x := hk ▸ hz y hy
        have hnot : ¬ key x < key z := fun h => Std.Irrefl.irrefl _ (Trans.trans hlt h)
        rw [if_neg hnot, if_pos hlt, List.length_cons, ih hzs hy, List.length_cons]

end Keyed

namespace Store

variable {s : Store} {r v : Record} {rs : List Record} {id : RecordId}

/-! ## Storing one record after the other -/

theorem size_put_of_new (h : s.get? r.id = none) : (s.put r).size = s.size + 1 := by
  refine Keyed.length_insert_of_new fun v hv he => ?_
  rw [← he, get?_of_mem hv] at h
  cases h

theorem size_put_of_stored (h : s.get? r.id = some v) : (s.put r).size = s.size :=
  Keyed.length_insert_of_mem s.ordered (mem_of_get? h) (id_of_get? h)

theorem putAll_cons : s.putAll (r :: rs) = (s.put r).putAll rs := rfl

/-- The last record under an id stays. -/
theorem get?_putAll :
    (s.putAll rs).get? id = (rs.reverse.find? fun r => r.id = id).or (s.get? id) := by
  induction rs generalizing s with
  | nil => rfl
  | cons r rs ih =>
      rw [putAll_cons, ih, List.reverse_cons, List.find?_append, Option.or_assoc, get?_put]
      congr 1
      by_cases h : r.id = id <;> simp [h]

theorem size_putAll_le : (s.putAll rs).size ≤ s.size + rs.length := by
  induction rs generalizing s with
  | nil => exact Nat.le_refl _
  | cons r rs ih =>
      have hput : (s.put r).size ≤ s.size + 1 := by
        cases h : s.get? r.id with
        | none => exact Nat.le_of_eq (size_put_of_new h)
        | some v => exact Nat.le_succ_of_le (Nat.le_of_eq (size_put_of_stored h))
      have hrs : ((s.put r).putAll rs).size ≤ (s.put r).size + rs.length := ih
      rw [putAll_cons, List.length_cons]
      omega

/-- The store grows by one for each record only if none of them takes the place of another. -/
theorem size_putAll_eq_iff :
    (s.putAll rs).size = s.size + rs.length ↔
      (∀ r ∈ rs, s.get? r.id = none) ∧ (rs.map Record.id).Nodup := by
  induction rs generalizing s with
  | nil => simp [putAll]
  | cons r rs ih =>
      rw [putAll_cons, List.length_cons, List.forall_mem_cons, List.map_cons, List.nodup_cons]
      have hle : ((s.put r).putAll rs).size ≤ (s.put r).size + rs.length := size_putAll_le
      cases h : s.get? r.id with
      | some v =>
          have hput := size_put_of_stored h
          constructor
          · intro he; omega
          · rintro ⟨⟨hn, -⟩, -⟩; cases hn
      | none =>
          have hput := size_put_of_new h
          have hnew : ∀ {v : Record}, (s.put r).get? v.id = none ↔ s.get? v.id = none ∧ v.id ≠ r.id := by
            intro v
            rw [get?_put]
            by_cases he : r.id = v.id
            · simp [he]
            · simp [he, Ne.symm he]
          rw [show s.size + (rs.length + 1) = (s.put r).size + rs.length by omega, ih]
          simp only [hnew, List.mem_map, not_exists, not_and]
          constructor
          · rintro ⟨hrs, hnd⟩
            exact ⟨⟨trivial, fun v hv => (hrs v hv).1⟩, fun v hv => (hrs v hv).2, hnd⟩
          · rintro ⟨⟨-, hrs⟩, hne, hnd⟩
            exact ⟨fun v hv => ⟨hrs v hv, hne v hv⟩, hnd⟩

/-- Records that take nobody's place are all added. -/
theorem mem_putAll (hsame : ∀ u ∈ rs, ∀ v ∈ rs, u.id = v.id → u = v)
    (hnew : ∀ u ∈ rs, s.get? u.id = none) : r ∈ (s.putAll rs).records ↔ r ∈ rs ∨ r ∈ s.records := by
  constructor
  · intro hr
    exact (get?_putAll_cases (get?_of_mem hr)).imp_right mem_of_get?
  · rintro (hr | hr)
    · cases hv : rs.reverse.find? fun u => u.id = r.id with
      | none => exact absurd (decide_eq_true rfl) (List.find?_eq_none.1 hv r (List.mem_reverse.2 hr))
      | some v =>
          have hm : v ∈ rs := List.mem_reverse.1 (List.mem_of_find?_eq_some hv)
          have he : v = r := hsame v hm r hr (by simpa using List.find?_some hv)
          have hget : (s.putAll rs).get? r.id = some r := by rw [get?_putAll, hv, he, Option.some_or]
          exact mem_of_get? hget
    · have hapart : ∀ u ∈ rs, u.id ≠ r.id := by
        intro u hu he
        have hnone := hnew u hu
        rw [he, get?_of_mem hr] at hnone
        cases hnone
      have hget : (s.putAll rs).get? r.id = some r := by
        rw [get?_putAll_of_not_mem hapart, get?_of_mem hr]
      exact mem_of_get? hget

/-! ## All or nothing -/

/-- What a commit is for: all is stored as it was staged and nothing else changes, or one of the ids is
taken and nothing changes at all. -/
inductive AllOrNothing (s : Store) (tx : Transaction) : Except OutboxError Unit × Store → Prop
  | all {s'} (stored : ∀ r ∈ tx.staged, s'.get? r.id = some r)
      (kept : ∀ {id v}, s.get? id = some v → s'.get? id = some v)
      (grown : s'.size = s.size + tx.staged.length) : AllOrNothing s tx (.ok (), s')
  | nothing {op r} (staged : r ∈ tx.staged)
      (taken : (s.get? r.id).isSome ∨ 1 < (tx.staged.map Record.id).count r.id) :
      AllOrNothing s tx (.error (.store op (.duplicateRecord r.id)), s)

/-- One of the staged ids is in the store. -/
def Collides (s : Store) (tx : Transaction) : Prop := ∃ r ∈ tx.staged, (s.get? r.id).isSome

variable {tx : Transaction}

theorem commit_of_collides (h : s.Collides tx) : ∃ r ∈ tx.staged, (s.get? r.id).isSome ∧
    s.commit tx = (.error (.store "outbox.memory.commit" (.duplicateRecord r.id)), s) := by
  unfold commit
  split
  · rename_i r hr
    exact ⟨r, List.mem_of_find?_eq_some hr, by simpa using List.find?_some hr, rfl⟩
  · rename_i hnone
    obtain ⟨r, hr, hs⟩ := h
    exact absurd hs (List.find?_eq_none.1 hnone r hr)

theorem commit_of_not_collides (h : ¬ s.Collides tx) : s.commit tx = (.ok (), s.putAll tx.staged) := by
  unfold commit
  split
  · rename_i r hr
    exact absurd ⟨r, List.mem_of_find?_eq_some hr, by simpa using List.find?_some hr⟩ h
  · rfl

/-- A commit does all or nothing exactly when the store has one of the ids or no id is staged twice.
When the store has none of them the last record staged under each id is stored, and no other record
changes. -/
theorem commit_allOrNothing_iff (s : Store) (tx : Transaction) :
    (AllOrNothing s tx (s.commit tx) ↔ s.Collides tx ∨ (tx.staged.map Record.id).Nodup) ∧
      (¬ s.Collides tx → ∃ s', s.commit tx = (.ok (), s') ∧
        ∀ id, s'.get? id = (tx.staged.reverse.find? fun r => r.id = id).or (s.get? id)) := by
  refine ⟨?_, fun h => ⟨_, commit_of_not_collides h, fun id => get?_putAll⟩⟩
  by_cases hc : s.Collides tx
  · obtain ⟨r, hr, hs, he⟩ := commit_of_collides hc
    rw [he]
    exact ⟨fun _ => Or.inl hc, fun _ => .nothing hr (Or.inl hs)⟩
  · have hnew : ∀ r ∈ tx.staged, s.get? r.id = none := by
      intro r hr
      rw [← Option.not_isSome_iff_eq_none]
      exact fun hs => hc ⟨r, hr, hs⟩
    rw [commit_of_not_collides hc]
    constructor
    · rintro (⟨-, -, grown⟩ | _)
      exact Or.inr (size_putAll_eq_iff.1 grown).2
    · rintro (h | hnd)
      · exact absurd h hc
      · refine .all (fun r hr => get?_putAll_of_mem hnd hr) (fun hv => ?_)
          (size_putAll_eq_iff.2 ⟨hnew, hnd⟩)
        rw [get?_putAll_of_not_mem fun r hr he => ?_, hv]
        rw [← he, hnew r hr] at hv
        cases hv

end Store

/-- Two orders under one id. -/
def Transaction.twice : Transaction :=
  ⟨[.new (.nth 1) { topic := "orders", key := "a", body := [] } default,
    .new (.nth 1) { topic := "orders", key := "b", body := [] } default]⟩

/-- The first of them is lost, though the commit succeeds. -/
theorem Store.commit_loses_first_of_twice :
    (empty.commit .twice).1 = .ok () ∧ (empty.commit .twice).2.size = 1 ∧
      ¬ AllOrNothing empty .twice (empty.commit .twice) := by
  have he : empty.commit .twice = (.ok (), empty.putAll Transaction.twice.staged) := rfl
  have hsize : (empty.putAll Transaction.twice.staged).size = 1 := by decide +kernel
  rw [he]
  refine ⟨rfl, hsize, ?_⟩
  rintro (⟨-, -, grown⟩ | _)
  rw [hsize] at grown
  cases grown

end Outbox

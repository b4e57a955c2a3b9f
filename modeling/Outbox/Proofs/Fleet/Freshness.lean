import Mathlib.Data.List.Nodup
import Outbox.Proofs.Fleet.Step

/-!
# Ids are used once

No id is given out twice, so that a staged record shares its id with nothing that is staged elsewhere
or was ever committed, and a commit stores all that was staged.
-/

namespace Outbox

open Function (update)

def World.Committed (w : World) (id : RecordId) : Prop := ∃ r, .committed r ∈ w.history ∧ r.id = id

/-- What the ids of staged and committed records keep to. -/
structure Fresh (w : World) : Prop where
  staged_issued : ∀ {tx t r}, w.staged tx = some t → r ∈ t.staged → r.id ∈ w.issued
  staged_nodup : ∀ {tx t}, w.staged tx = some t → (t.staged.map Record.id).Nodup
  staged_apart : ∀ {tx tx' t t' r r'}, w.staged tx = some t → w.staged tx' = some t' →
    r ∈ t.staged → r' ∈ t'.staged → r.id = r'.id → tx = tx'
  staged_new : ∀ {tx t r}, w.staged tx = some t → r ∈ t.staged → r = .new r.id r.message r.createdOn
  committed_issued : ∀ {r}, .committed r ∈ w.history → r.id ∈ w.issued
  committed_unique : ∀ {r r'}, .committed r ∈ w.history → .committed r' ∈ w.history →
    r.id = r'.id → r = r'
  uncommitted : ∀ {tx t r}, w.staged tx = some t → r ∈ t.staged → ¬ w.Committed r.id
  stored_committed : ∀ {id}, (w.store.get? id).isSome → w.Committed id

namespace Fresh

variable {f : Fleet} {w w' : World}

theorem start (s : Store) : Fresh (.start s) where
  staged_issued h := by simp [World.start] at h
  staged_nodup h := by simp [World.start] at h
  staged_apart h := by simp [World.start] at h
  staged_new h := by simp [World.start] at h
  committed_issued h := by
    obtain ⟨r, hr, he⟩ := List.mem_map.1 h
    cases he
    exact List.mem_map_of_mem hr
  committed_unique h h' he := by
    simp only [World.start, List.mem_map, Occurrence.committed.injEq, exists_eq_right] at h h'
    exact Store.eq_of_id_eq h h' he
  uncommitted h := by simp [World.start] at h
  stored_committed h := by
    obtain ⟨r, hr⟩ := Option.isSome_iff_exists.1 h
    exact ⟨r, List.mem_map_of_mem (Store.mem_of_get? hr), Store.id_of_get? hr⟩

/-- Steps that leave publishers alone and store nothing under a new id. -/
theorem frame (h : Fresh w) (hi : w'.issued = w.issued) (hs : w'.staged = w.staged)
    (hc : ∀ r, .committed r ∈ w'.history ↔ .committed r ∈ w.history)
    (hst : ∀ id, (w'.store.get? id).isSome → (w.store.get? id).isSome) : Fresh w' := by
  have hcom : ∀ id, w'.Committed id ↔ w.Committed id := by
    intro id; simp only [World.Committed, hc]
  constructor
  · rw [hi, hs]; exact h.staged_issued
  · rw [hs]; exact h.staged_nodup
  · rw [hs]; exact h.staged_apart
  · rw [hs]; exact h.staged_new
  · simp only [hc, hi]; exact h.committed_issued
  · simp only [hc]; exact h.committed_unique
  · simp only [hs, hcom]; exact h.uncommitted
  · intro id hid; exact (hcom id).2 (h.stored_committed (hst id hid))

theorem restage {staged : Nat → Option Transaction} (h : Fresh w)
    (hs : ∀ {tx t}, staged tx = some t → t.staged = [] ∨ w.staged tx = some t) :
    Fresh { w with staged } := by
  have hold : ∀ {tx t r}, staged tx = some t → r ∈ t.staged → w.staged tx = some t := by
    intro tx t r ht hr
    rcases hs ht with he | ht
    · simp [he] at hr
    · exact ht
  constructor
  · intro tx t r ht hr; exact h.staged_issued (hold ht hr) hr
  · intro tx t ht
    rcases hs ht with he | ht
    · simp [he]
    · exact h.staged_nodup ht
  · intro tx tx' t t' r r' ht ht' hr hr'
    exact h.staged_apart (hold ht hr) (hold ht' hr') hr hr'
  · intro tx t r ht hr; exact h.staged_new (hold ht hr) hr
  · exact h.committed_issued
  · exact h.committed_unique
  · intro tx t r ht hr; exact h.uncommitted (hold ht hr) hr
  · exact h.stored_committed

theorem issue (h : Fresh w) (id : RecordId) : Fresh { w with issued := id :: w.issued } := by
  constructor
  · intro tx t r ht hr; exact List.mem_cons_of_mem _ (h.staged_issued ht hr)
  · exact h.staged_nodup
  · exact h.staged_apart
  · exact h.staged_new
  · intro r hr; exact List.mem_cons_of_mem _ (h.committed_issued hr)
  · exact h.committed_unique
  · exact h.uncommitted
  · exact h.stored_committed

theorem staged_add {tx tx' : Nat} {t t' : Transaction} {r v : Record} (ht : w.staged tx = some t)
    (ht' : update w.staged tx (some (t.add r)) tx' = some t') (hv : v ∈ t'.staged) :
    (tx' = tx ∧ v = r) ∨ ∃ u, w.staged tx' = some u ∧ v ∈ u.staged := by
  by_cases he : tx' = tx
  · subst he
    rw [Function.update_self] at ht'
    cases ht'
    rcases List.mem_append.1 hv with hv | hv
    · exact Or.inr ⟨t, ht, hv⟩
    · exact Or.inl ⟨rfl, by simpa using hv⟩
  · rw [Function.update_of_ne he] at ht'
    exact Or.inr ⟨t', ht', hv⟩

theorem add {tx : Nat} {t : Transaction} {id : RecordId} {m : Message} {now : Instant} (h : Fresh w)
    (ht : w.staged tx = some t) (new : id ∉ w.issued) :
    Fresh { w with
      issued := id :: w.issued
      staged := update w.staged tx (some (t.add (.new id m now))) } := by
  have unused : ∀ {tx u r}, w.staged tx = some u → r ∈ u.staged → r.id ≠ id := by
    rintro tx u r hu hr rfl
    exact new (h.staged_issued hu hr)
  constructor
  · intro tx' t' r ht' hr
    rcases staged_add ht ht' hr with ⟨rfl, rfl⟩ | ⟨u, hu, hr⟩
    · exact List.mem_cons_self
    · exact List.mem_cons_of_mem _ (h.staged_issued hu hr)
  · intro tx' t' ht'
    dsimp only at ht'
    by_cases he : tx' = tx
    · subst he
      rw [Function.update_self] at ht'
      cases ht'
      simp only [Transaction.add, List.map_append, List.map_cons, List.map_nil]
      refine List.nodup_append.2 ⟨h.staged_nodup ht, by simp, ?_⟩
      intro a ha b hb
      obtain ⟨r, hr, rfl⟩ := List.mem_map.1 ha
      simp only [List.mem_singleton] at hb
      rw [hb]
      exact unused ht hr
    · rw [Function.update_of_ne he] at ht'
      exact h.staged_nodup ht'
  · intro tx₁ tx₂ t₁ t₂ r₁ r₂ ht₁ ht₂ hr₁ hr₂ he
    rcases staged_add ht ht₁ hr₁ with ⟨rfl, rfl⟩ | ⟨u₁, hu₁, hr₁⟩ <;>
      rcases staged_add ht ht₂ hr₂ with ⟨rfl, rfl⟩ | ⟨u₂, hu₂, hr₂⟩
    · rfl
    · exact absurd he.symm (unused hu₂ hr₂)
    · exact absurd he (unused hu₁ hr₁)
    · exact h.staged_apart hu₁ hu₂ hr₁ hr₂ he
  · intro tx' t' r ht' hr
    rcases staged_add ht ht' hr with ⟨rfl, rfl⟩ | ⟨u, hu, hr⟩
    · rfl
    · exact h.staged_new hu hr
  · intro r hr; exact List.mem_cons_of_mem _ (h.committed_issued hr)
  · exact h.committed_unique
  · intro tx' t' r ht' hr
    rcases staged_add ht ht' hr with ⟨rfl, rfl⟩ | ⟨u, hu, hr⟩
    · rintro ⟨r, hr, rfl⟩
      exact new (h.committed_issued hr)
    · exact h.uncommitted hu hr
  · exact h.stored_committed

theorem commit {tx : Nat} {t : Transaction} (h : Fresh w) (ht : w.staged tx = some t) :
    Fresh { w with
      store := w.store.putAll t.staged
      staged := update w.staged tx none
      history := t.staged.map .committed ++ w.history } := by
  have hcom : ∀ {r}, .committed r ∈ t.staged.map Occurrence.committed ++ w.history →
      r ∈ t.staged ∨ .committed r ∈ w.history := by
    intro r hr
    simpa using hr
  have hother : ∀ {tx' t'}, update w.staged tx none tx' = some t' → tx' ≠ tx ∧ w.staged tx' = some t' := by
    intro tx' t' ht'
    by_cases he : tx' = tx
    · rw [he, Function.update_self] at ht'; cases ht'
    · rw [Function.update_of_ne he] at ht'; exact ⟨he, ht'⟩
  constructor
  · intro tx' t' r ht' hr; exact h.staged_issued (hother ht').2 hr
  · intro tx' t' ht'; exact h.staged_nodup (hother ht').2
  · intro tx₁ tx₂ t₁ t₂ r₁ r₂ ht₁ ht₂
    exact h.staged_apart (hother ht₁).2 (hother ht₂).2
  · intro tx' t' r ht' hr; exact h.staged_new (hother ht').2 hr
  · intro r hr
    rcases hcom hr with hr | hr
    · exact h.staged_issued ht hr
    · exact h.committed_issued hr
  · intro r r' hr hr' he
    rcases hcom hr with hr | hr <;> rcases hcom hr' with hr' | hr'
    · exact List.inj_on_of_nodup_map (h.staged_nodup ht) hr hr' he
    · exact absurd ⟨r', hr', he.symm⟩ (h.uncommitted ht hr)
    · exact absurd ⟨r, hr, he⟩ (h.uncommitted ht hr')
    · exact h.committed_unique hr hr' he
  · rintro tx' t' r ht' hr ⟨r', hr', he⟩
    obtain ⟨hne, ht'⟩ := hother ht'
    rcases hcom hr' with hr' | hr'
    · exact hne (h.staged_apart ht' ht hr hr' he.symm)
    · exact h.uncommitted ht' hr ⟨r', hr', he⟩
  · intro id hid
    obtain ⟨v, hv⟩ := Option.isSome_iff_exists.1 hid
    rcases Store.get?_putAll_cases hv with hm | hold
    · exact ⟨v, List.mem_append_left _ (List.mem_map_of_mem hm), Store.id_of_get? hv⟩
    · obtain ⟨r, hr, he⟩ : w.Committed id := h.stored_committed (by rw [hold]; rfl)
      exact ⟨r, List.mem_append_right _ hr, he⟩

theorem step {a : Action} (hs : Step f w a w') (h : Fresh w) : Fresh w' := by
  cases hs with
  | still => exact h
  | @begun tx =>
      refine h.restage fun {tx' t} ht => ?_
      by_cases he : tx' = tx
      · rw [he, Function.update_self] at ht; cases ht; exact Or.inl rfl
      · rw [Function.update_of_ne he] at ht; exact Or.inr ht
  | wasted => exact h.issue _
  | added ht new => exact h.add ht new
  | committed ht => exact h.commit ht
  | @dropped _ tx =>
      refine h.restage fun {tx' t} ht => ?_
      by_cases he : tx' = tx
      · rw [he, Function.update_self] at ht; cases ht
      · rw [Function.update_of_ne he] at ht; exact Or.inr ht
  | saved hp hv =>
      refine h.frame rfl rfl (by simp) fun id hid => ?_
      rw [Store.get?_save] at hid
      split at hid <;> simpa using hid
  | cleaned =>
      refine h.frame rfl rfl (by simp) fun id hid => ?_
      obtain ⟨v, hv⟩ := Option.isSome_iff_exists.1 hid
      rw [Store.get?_remove, Option.filter_eq_some_iff] at hv
      simp [hv.1]
  | _ => exact h.frame rfl rfl (by simp) fun id hid => by simpa using hid

theorem run (s : Store) (as : List Action) : Fresh ((World.start s).run f as) :=
  World.run_induction (fun hs _ h => h.step hs) (World.along_true ..) (start s)

end Fresh

end Outbox

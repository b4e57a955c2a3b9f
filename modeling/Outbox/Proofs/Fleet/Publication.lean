import Mathlib.Data.List.Induction
import Outbox.Proofs.Fleet.Freshness

/-!
# Publication

What is staged and what is committed in a run are the records of the publishes that succeeded, no more and no
less.
-/

namespace Outbox

open Function (update)

/-- Whether this is something that publishers do. -/
def Action.isPublisher : Action → Bool
  | .begin _ | .publish .. | .commit _ | .drop _ => true
  | _ => false

theorem Action.isPublisher_of_bounds? {a : Action} {tx : Nat} (h : a.bounds? = some tx) :
    a.isPublisher = true := by
  cases a <;> first | rfl | cases h

namespace World

variable (f : Fleet) (w : World)

/-- A publish that succeeds, with the record that it makes. -/
def Publishes (tx : Nat) (r : Record) (a : Action) : Prop :=
  ∃ fault t reply, a = .publish tx r.id r.message r.createdOn fault ∧ w.staged tx = some t ∧ r.id ∉ w.issued ∧
    publish (t.tryAdd fault) r.id r.message r.createdOn = .ok reply ∧ r = .new r.id r.message r.createdOn

/-- The record was published into the transaction that is open under this name. -/
def Open (tx : Nat) (r : Record) (as : List Action) : Prop :=
  ∃ before a after, as = before ++ a :: after ∧ (w.run f before).Publishes tx r a ∧
    ∀ b ∈ after, b.bounds? ≠ some tx

/-- The record was published into a transaction that was then committed. -/
def Published (r : Record) (as : List Action) : Prop :=
  ∃ tx before after, as = before ++ .commit tx :: after ∧ w.Open f tx r before

def Stages (tx : Nat) (r : Record) : Prop := ∃ t, w.staged tx = some t ∧ r ∈ t.staged

end World

/-- What is found in a longer list is its last, or was there before. -/
theorem split_concat {α : Type} {as before after : List α} {a b : α} (h : as ++ [a] = before ++ b :: after) :
    (before = as ∧ b = a ∧ after = []) ∨ ∃ rest, after = rest ++ [a] ∧ as = before ++ b :: rest := by
  obtain rfl | ⟨rest, c, rfl⟩ := after.eq_nil_or_concat
  · obtain ⟨rfl, hb⟩ := List.append_inj' h rfl
    exact Or.inl ⟨rfl, (List.singleton_inj.1 hb).symm, rfl⟩
  · rw [List.concat_eq_append, ← List.cons_append, ← List.append_assoc] at h
    obtain ⟨rfl, hc⟩ := List.append_inj' h rfl
    obtain rfl := List.singleton_inj.1 hc
    exact Or.inr ⟨rest, List.concat_eq_append, rfl⟩

namespace World

variable {f : Fleet} {w : World} {tx : Nat} {r : Record} {as : List Action} {a : Action}

theorem open_concat :
    w.Open f tx r (as ++ [a]) ↔ (w.run f as).Publishes tx r a ∨ (a.bounds? ≠ some tx ∧ w.Open f tx r as) := by
  constructor
  · rintro ⟨before, b, after, he, hp, hafter⟩
    rcases split_concat he with ⟨rfl, rfl, -⟩ | ⟨rest, rfl, rfl⟩
    · exact Or.inl hp
    · obtain ⟨hrest, ha⟩ := List.forall_mem_append.1 hafter
      exact Or.inr ⟨ha a (List.mem_singleton_self a), before, b, rest, rfl, hp, hrest⟩
  · rintro (hp | ⟨ha, before, b, rest, rfl, hp, hrest⟩)
    · exact ⟨as, a, [], rfl, hp, List.forall_mem_nil _⟩
    · refine ⟨before, b, rest ++ [a], by simp, hp, ?_⟩
      exact List.forall_mem_append.2 ⟨hrest, List.forall_mem_singleton.2 ha⟩

theorem published_concat :
    w.Published f r (as ++ [a]) ↔ (∃ tx, a = .commit tx ∧ w.Open f tx r as) ∨ w.Published f r as := by
  constructor
  · rintro ⟨tx, before, after, he, ho⟩
    rcases split_concat he with ⟨rfl, rfl, -⟩ | ⟨rest, rfl, rfl⟩
    · exact Or.inl ⟨tx, rfl, ho⟩
    · exact Or.inr ⟨tx, before, rest, rfl, ho⟩
  · rintro (⟨tx, rfl, ho⟩ | ⟨tx, before, rest, rfl, ho⟩)
    · exact ⟨tx, as, [], rfl, ho⟩
    · exact ⟨tx, before, rest ++ [a], by simp, ho⟩

/-! ## One action -/

theorem publishes_publish {tx' : Nat} {id : RecordId} {m : Message} {now : Instant} {fault : Option OutboxError} :
    w.Publishes tx r (.publish tx' id m now fault) ↔
      tx = tx' ∧ fault = none ∧ (w.staged tx').isSome ∧ id ∉ w.issued ∧ r = .new id m now := by
  constructor
  · rintro ⟨fault', t, reply, he, ht, hnew, hok, hr⟩
    obtain ⟨rfl, rfl, rfl, rfl, rfl⟩ := Action.publish.inj he
    cases fault with
    | none => exact ⟨rfl, rfl, Option.isSome_of_eq_some ht, hnew, hr⟩
    | some e => cases hok
  · rintro ⟨rfl, rfl, ht, hnew, rfl⟩
    obtain ⟨t, ht⟩ := Option.isSome_iff_exists.1 ht
    exact ⟨none, t, _, rfl, ht, hnew, rfl, rfl⟩

theorem not_publishes (ha : ∀ tx id m now fault, a ≠ .publish tx id m now fault) : ¬ w.Publishes tx r a := by
  rintro ⟨fault, -, -, he, -⟩
  exact ha _ _ _ _ _ he

theorem stages_setStaged {tx' : Nat} {t : Option Transaction} :
    (w.setStaged tx' t).Stages tx r ↔ if tx = tx' then ∃ u, t = some u ∧ r ∈ u.staged else w.Stages tx r := by
  unfold Stages setStaged
  dsimp only
  split
  · rename_i he
    rw [he, Function.update_self]
  · rename_i hne
    rw [Function.update_of_ne hne]

theorem stages_setStaged_add {tx' : Nat} {t : Transaction} {v : Record} (ht : w.staged tx' = some t) :
    (w.setStaged tx' (some (t.add v))).Stages tx r ↔ (tx = tx' ∧ r = v) ∨ w.Stages tx r := by
  rw [stages_setStaged]
  split
  · rename_i he
    subst he
    simp [Transaction.add, Stages, ht, or_comm]
  · rename_i hne
    simp [hne]

theorem stages_setStaged_empty {tx' : Nat} {t : Option Transaction} (ht : ∀ u ∈ t, u.staged = []) :
    (w.setStaged tx' t).Stages tx r ↔ tx ≠ tx' ∧ w.Stages tx r := by
  rw [stages_setStaged]
  split
  · rename_i he
    refine iff_of_false ?_ fun h => h.1 he
    rintro ⟨u, rfl, hr⟩
    rw [ht u rfl] at hr
    exact List.not_mem_nil hr
  · rename_i hne
    exact (and_iff_right hne).symm

/-- Publishers alone change what is staged. -/
theorem staged_step (ha : a.isPublisher = false) : (w.step f a).staged = w.staged := by
  have hs := step_spec (f := f) w a
  revert hs
  generalize w.step f a = w'
  intro hs
  cases hs with
  | begun | wasted | added | committed => cases ha
  | dropped hb =>
      rw [Action.isPublisher_of_bounds? hb] at ha
      cases ha
  | _ => rfl

theorem stages_publish {tx' : Nat} {id : RecordId} {m : Message} {now : Instant} {fault : Option OutboxError} :
    (w.step f (.publish tx' id m now fault)).Stages tx r ↔
      w.Publishes tx r (.publish tx' id m now fault) ∨ w.Stages tx r := by
  rw [publishes_publish]
  simp only [step]
  split
  · rename_i ht
    simp [ht]
  · rename_i t ht
    split
    · rename_i hold
      simp [hold]
    · rename_i hnew
      cases fault with
      | some e => simp [Transaction.tryAdd, publish, bind, Except.bind, Stages]
      | none =>
          refine (stages_setStaged_add (w := { w with issued := id :: w.issued }) ht).trans (or_congr ?_ .rfl)
          simp [ht, hnew]

/-- Nothing is staged in a transaction that has just begun or ended. -/
theorem stages_of_bounds? {tx' : Nat} (h : a.bounds? = some tx') :
    (w.step f a).Stages tx r ↔ tx ≠ tx' ∧ w.Stages tx r := by
  have hnone : (w.setStaged tx' none).Stages tx r ↔ tx ≠ tx' ∧ w.Stages tx r :=
    stages_setStaged_empty fun u hu => nomatch hu
  cases a with
  | begin tx'' =>
      cases h
      refine stages_setStaged_empty fun u hu => ?_
      cases hu
      rfl
  | drop tx'' =>
      cases h
      exact hnone
  | commit tx'' =>
      cases h
      simp only [step]
      split
      · rename_i ht
        refine (and_iff_right_of_imp ?_).symm
        rintro ⟨t, ht', -⟩ rfl
        rw [ht] at ht'
        cases ht'
      · split <;> exact hnone
  | _ => cases h

/-- What is staged after an action was published by it, or was staged before it. -/
theorem stages_step :
    (w.step f a).Stages tx r ↔ w.Publishes tx r a ∨ (a.bounds? ≠ some tx ∧ w.Stages tx r) := by
  cases hb : a.bounds? with
  | some tx' =>
      have hnot : ¬ w.Publishes tx r a := not_publishes fun _ _ _ _ _ he => by rw [he] at hb; cases hb
      rw [stages_of_bounds? hb, or_iff_right hnot, ne_comm, ne_eq, ne_eq, Option.some.injEq]
  | none =>
      rw [and_iff_right (by simp)]
      cases a with
      | begin | commit | drop => cases hb
      | publish => exact stages_publish
      | _ =>
          rw [Stages, staged_step rfl]
          exact (or_iff_right (not_publishes (by simp))).symm

/-- Ids are not used twice, so that no commit is refused. -/
theorem commit_eq {t : Transaction} (h : Fresh w) (ht : w.staged tx = some t) :
    w.store.commit t = (.ok (), w.store.putAll t.staged) := by
  have hnone : t.staged.find? (fun r => (w.store.get? r.id).isSome) = none :=
    List.find?_eq_none.2 fun r hr hs => h.uncommitted ht hr (h.stored_committed hs)
  rw [Store.commit, hnone]

/-- What is committed is just what was staged. -/
theorem committed_step (h : Fresh w) :
    .committed r ∈ (w.step f a).history ↔
      (∃ tx, a = .commit tx ∧ w.Stages tx r) ∨ .committed r ∈ w.history := by
  by_cases hc : ∃ tx, a = .commit tx
  · obtain ⟨tx, rfl⟩ := hc
    simp only [step, Action.commit.injEq, exists_eq_left']
    split
    · rename_i ht
      simp [Stages, ht]
    · rename_i t ht
      rw [commit_eq h ht]
      simp [Stages, ht, note, setStaged]
  · have hnot : ¬ ∃ tx, a = .commit tx ∧ w.Stages tx r := by
      rintro ⟨tx, ha, -⟩
      exact hc ⟨tx, ha⟩
    rw [or_iff_right hnot]
    have hs := step_spec (f := f) w a
    revert hs
    generalize w.step f a = w'
    intro hs
    cases hs with
    | committed => exact absurd ⟨_, rfl⟩ hc
    | _ => simp

/-! ## Runs -/

/-- What a run has staged and committed. -/
theorem published_run (f : Fleet) (as : List Action) :
    (∀ {tx r}, ((start .empty).run f as).Stages tx r ↔ (start .empty).Open f tx r as) ∧
      ∀ {r}, .committed r ∈ ((start .empty).run f as).history ↔ (start .empty).Published f r as := by
  induction as using List.reverseRecOn with
  | nil =>
      constructor
      · intro tx r
        refine iff_of_false ?_ ?_
        · rintro ⟨t, ht, -⟩
          cases ht
        · rintro ⟨before, a, after, he, -⟩
          exact absurd he.symm (List.append_ne_nil_of_right_ne_nil _ (List.cons_ne_nil _ _))
      · intro r
        refine iff_of_false List.not_mem_nil ?_
        rintro ⟨tx, before, after, he, -⟩
        exact absurd he.symm (List.append_ne_nil_of_right_ne_nil _ (List.cons_ne_nil _ _))
  | append_singleton as a ih =>
      obtain ⟨hstages, hcommitted⟩ := ih
      have hrun : (start .empty).run f (as ++ [a]) = ((start .empty).run f as).step f a := List.foldl_append ..
      rw [hrun]
      constructor
      · intro tx r
        rw [stages_step, open_concat, hstages]
      · intro r
        rw [committed_step (.run .empty as), published_concat, hcommitted]
        simp only [hstages]

end World

end Outbox

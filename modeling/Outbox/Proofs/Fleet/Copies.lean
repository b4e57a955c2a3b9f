import Outbox.Proofs.Fleet.Freshness
import Outbox.Proofs.Record.Transitions

/-!
# Copies of records

A pass works on copies that it fetched, and stores what has become of them. Where the record that is
stored after a step comes from, and where a copy that a pass holds after a step comes from.
-/

namespace Outbox

open Function (update)

namespace Pass

/-- The copies for which no attempt has started, as they were fetched. -/
def untried : Pass → List Record
  | starting _ r rest => r :: rest
  | sending _ _ rest | accepted _ _ rest | saving _ _ _ rest => rest
  | _ => []

def copies (p : Pass) : List Record := p.underWay?.toList ++ p.untried

variable {report : Report} {r : Record} {rest : List Record} {failure : Option BrokerError}

@[simp] theorem untried_proceed : (proceed report rest).untried = rest := by
  cases rest <;> rfl

@[simp] theorem underWay?_proceed : (proceed report rest).underWay? = none := by
  cases rest <;> rfl

@[simp] theorem copies_proceed : (proceed report rest).copies = rest := by
  simp [copies]

theorem untried_saved : (saved report r failure rest (.ok ())).1.untried ⊆ rest := by
  cases failure with
  | none => simp [saved]
  | some e => simp [saved, untried]

@[simp] theorem underWay?_saved : (saved report r failure rest (.ok ())).1.underWay? = none := by
  cases failure with
  | none => simp [saved]
  | some e => rfl

theorem copies_saved : (saved report r failure rest (.ok ())).1.copies ⊆ rest := by
  simpa [copies] using untried_saved

theorem underWay?_of_next {s : Settings} {p : Pass} (h : p.next s = none) : p.underWay? = none := by
  cases p with
  | sending | accepted | saving => cases h
  | _ => rfl

theorem mem_copies {p : Pass} : r ∈ p.copies ↔ p.underWay? = some r ∨ r ∈ p.untried := by
  simp [copies, Option.mem_toList]

theorem id_ne_of_untried {p : Pass} (h : (p.copies.map Record.id).Nodup) {u c : Record}
    (hu : p.underWay? = some u) (hc : c ∈ p.untried) : u.id ≠ c.id := by
  intro he
  rw [copies, hu] at h
  exact (List.nodup_cons.1 h).1 (he ▸ List.mem_map_of_mem hc)

end Pass

namespace Step

variable {f : Fleet} {w w' : World} {a : Action} {k : Nat}

theorem history_subset (h : Step f w a w') {o : Occurrence} (ho : o ∈ w.history) : o ∈ w'.history := by
  cases h <;> simp [ho]

theorem committed_mono (h : Step f w a w') {id : RecordId} (hc : w.Committed id) : w'.Committed id := by
  obtain ⟨r, hr, he⟩ := hc
  exact ⟨r, h.history_subset hr, he⟩

/-- A stored record is as before but for its lock, or a pass has just stored it over another, or it was
just committed. -/
theorem stored_cases (h : Step f w a w') {v' : Record} (hv : w'.store.get? v'.id = some v') :
    (∃ v lock, w.store.get? v'.id = some v ∧ v' = { v with lock }) ∨
      (∃ k report failure rest, w.pass k = .saving report v' failure rest ∧ a = .call k none ∧
        w'.history = .saved k v' :: w.history) ∨
      (.committed v' ∈ w'.history ∧ ∃ tx t, w.staged tx = some t ∧ v' ∈ t.staged) := by
  have relock : ∀ {p : Record → Bool} {g : Record → Record} {s : Option Record},
      (∀ r, ∃ lock, g r = { r with lock }) → s.map (fun r => if p r then g r else r) = some v' →
      ∃ v lock, s = some v ∧ v' = { v with lock } := by
    intro p g s hg hs
    obtain ⟨v, rfl, rfl⟩ := Option.map_eq_some_iff.1 hs
    split
    · obtain ⟨lock, he⟩ := hg v
      exact ⟨v, lock, rfl, he⟩
    · exact ⟨v, v.lock, rfl, rfl⟩
  cases h with
  | committed ht new =>
      rcases Store.get?_putAll_cases hv with hm | hold
      · exact Or.inr (Or.inr ⟨by simp [hm], _, _, ht, hm⟩)
      · exact Or.inl ⟨v', v'.lock, hold, rfl⟩
  | expired | released =>
      rw [Store.get?_unlock] at hv
      exact Or.inl (relock (fun _ => ⟨none, rfl⟩) hv)
  | claimed =>
      rw [Store.get?_claim] at hv
      exact Or.inl (relock (fun _ => ⟨_, rfl⟩) hv)
  | cleaned =>
      rw [Store.get?_remove, Option.filter_eq_some_iff] at hv
      exact Or.inl ⟨v', v'.lock, hv.1, rfl⟩
  | @saved k report r failure rest v hp hr =>
      rw [Store.get?_save] at hv
      split at hv
      · obtain ⟨u, _, rfl⟩ := Option.map_eq_some_iff.1 hv
        exact Or.inr (Or.inl ⟨k, report, failure, rest, hp, rfl, rfl⟩)
      · exact Or.inl ⟨v', v'.lock, hv, rfl⟩
  | _ => exact Or.inl ⟨v', v'.lock, hv, rfl⟩

theorem of_update {P : Pass → Prop} {j : Nat} {p : Pass} (h : P (update w.pass j p k)) :
    P (w.pass k) ∨ (j = k ∧ P p) := by
  rw [Function.update_apply] at h
  split at h
  · rename_i he; exact Or.inr ⟨he.symm, h⟩
  · exact Or.inl h

theorem untried_cases (h : Step f w a w') {c : Record} (hc : c ∈ (w'.pass k).untried) :
    c ∈ (w.pass k).untried ∨ ∃ n, w.pass k = .fetching n ∧ c ∈ w.store.fetch (f.machine k) := by
  have moved : ∀ {j p}, c ∈ (update w.pass j p k).untried →
      c ∈ (w.pass k).untried ∨ (j = k ∧ c ∈ p.untried) := of_update (P := fun q => c ∈ q.untried)
  cases h with
  | still | begun | wasted | added | committed | dropped | expired | cleaned | handedOver => exact Or.inl hc
  | fetched hp =>
      rcases moved hc with hc | ⟨rfl, hm⟩
      · exact Or.inl hc
      · rw [Pass.untried_proceed] at hm
        exact Or.inr ⟨_, hp, hm⟩
  | attempted hp =>
      rcases moved hc with hc | ⟨rfl, hm⟩
      · exact Or.inl hc
      · rw [hp]; exact Or.inl (List.mem_cons_of_mem _ hm)
  | accepted hp | refused hp | delivered hp =>
      rcases moved hc with hc | ⟨rfl, hm⟩
      · exact Or.inl hc
      · rw [hp]; exact Or.inl hm
  | saved hp =>
      rcases moved hc with hc | ⟨rfl, hm⟩
      · exact Or.inl hc
      · rw [hp]; exact Or.inl (Pass.untried_saved hm)
  | _ =>
      rcases moved hc with hc | ⟨-, hm⟩
      · exact Or.inl hc
      · cases hm

/-- A copy comes under way when an attempt starts, and is changed when the outcome is put on it. -/
theorem underWay_cases (h : Step f w a w') {r' : Record} (hr : (w'.pass k).underWay? = some r') :
    (w.pass k).underWay? = some r' ∨
      (∃ report r rest now, w.pass k = .starting report r rest ∧ r.startAttempt now = some r') ∨
      (∃ report r rest now, w.pass k = .accepted report r rest ∧ r.markDelivered now = .ok r') ∨
      (∃ report r rest e, w.pass k = .sending report r rest ∧ r.markFailed e f.policy = .ok r') := by
  have moved : ∀ {j p}, (update w.pass j p k).underWay? = some r' →
      (w.pass k).underWay? = some r' ∨ (j = k ∧ p.underWay? = some r') :=
    of_update (P := fun q => q.underWay? = some r')
  cases h with
  | still | begun | wasted | added | committed | dropped | expired | cleaned | handedOver => exact Or.inl hr
  | attempted hp hs =>
      rcases moved hr with hr | ⟨rfl, he⟩
      · exact Or.inl hr
      · cases he; exact Or.inr (Or.inl ⟨_, _, _, _, hp, hs⟩)
  | accepted hp =>
      rcases moved hr with hr | ⟨rfl, he⟩
      · exact Or.inl hr
      · rw [hp]; exact Or.inl he
  | refused hp ha hs =>
      rcases moved hr with hr | ⟨rfl, he⟩
      · exact Or.inl hr
      · cases he; exact Or.inr (Or.inr (Or.inr ⟨_, _, _, _, hp, hs⟩))
  | delivered hp hs =>
      rcases moved hr with hr | ⟨rfl, he⟩
      · exact Or.inl hr
      · cases he; exact Or.inr (Or.inr (Or.inl ⟨_, _, _, _, hp, hs⟩))
  | fetched =>
      rcases moved hr with hr | ⟨-, he⟩
      · exact Or.inl hr
      · rw [Pass.underWay?_proceed] at he; cases he
  | saved =>
      rcases moved hr with hr | ⟨-, he⟩
      · exact Or.inl hr
      · rw [Pass.underWay?_saved] at he; cases he
  | _ =>
      rcases moved hr with hr | ⟨-, he⟩
      · exact Or.inl hr
      · cases he

/-- The attempts of a copy are counted when it comes under way. -/
theorem underWay_origin (h : Step f w a w') {r' : Record} (hr : (w'.pass k).underWay? = some r') :
    (∃ r ∈ (w.pass k).untried, r'.id = r.id ∧ r'.attempts = r.attempts + 1) ∨
      ∃ r, (w.pass k).underWay? = some r ∧ r'.id = r.id ∧ r'.attempts = r.attempts := by
  rcases h.underWay_cases hr with hr | ⟨report, r, rest, now, hp, hs⟩ | ⟨report, r, rest, now, hp, hs⟩ |
    ⟨report, r, rest, e, hp, hs⟩
  · exact Or.inr ⟨r', hr, rfl, rfl⟩
  · obtain ⟨-, rfl⟩ := Record.startAttempt_eq_some_iff.1 hs
    exact Or.inl ⟨r, by rw [hp]; exact List.mem_cons_self, rfl, rfl⟩
  · obtain ⟨-, rfl⟩ := Record.markDelivered_eq_ok_iff.1 hs
    exact Or.inr ⟨r, by rw [hp]; rfl, rfl, rfl⟩
  · obtain ⟨-, rfl⟩ := Record.markFailed_eq_ok_iff.1 hs
    exact Or.inr ⟨r, by rw [hp]; rfl, rfl, rfl⟩

/-- The id of a copy was in the batch before, or has just been fetched under the worker's own lock. -/
theorem id_of_copy (h : Step f w a w') {r : Record} (hr : r ∈ (w'.pass k).copies) :
    (∃ u ∈ (w.pass k).copies, u.id = r.id) ∨
      (∃ n, w.pass k = .fetching n ∧ r ∈ w.store.fetch (f.machine k)) := by
  rcases Pass.mem_copies.1 hr with hr | hr
  · rcases h.underWay_origin hr with ⟨u, hu, he, -⟩ | ⟨u, hu, he, -⟩
    · exact Or.inl ⟨u, Pass.mem_copies.2 (Or.inr hu), he.symm⟩
    · exact Or.inl ⟨u, Pass.mem_copies.2 (Or.inl hu), he.symm⟩
  · rcases h.untried_cases hr with hr | hf
    · exact Or.inl ⟨r, Pass.mem_copies.2 (Or.inr hr), rfl⟩
    · exact Or.inr hf

/-- The ids in a batch differ, from the moment it is fetched. -/
theorem nodup_copies (h : Step f w a w') (hnd : ((w.pass k).copies.map Record.id).Nodup) :
    ((w'.pass k).copies.map Record.id).Nodup := by
  have other : ∀ {j p}, (j = k → (p.copies.map Record.id).Nodup) →
      ((update w.pass j p k).copies.map Record.id).Nodup := by
    intro j p hp
    rw [Function.update_apply]
    split
    · rename_i he; exact hp he.symm
    · exact hnd
  cases h with
  | still | begun | wasted | added | committed | dropped | expired | cleaned | handedOver => exact hnd
  | fetched =>
      refine other fun _ => ?_
      rw [Pass.copies_proceed]
      exact w.store.nodup_sorted _
  | attempted hp hr =>
      obtain ⟨-, rfl⟩ := Record.startAttempt_eq_some_iff.1 hr
      refine other fun he => ?_
      rw [← he, hp] at hnd
      exact hnd
  | accepted hp =>
      refine other fun he => ?_
      rw [← he, hp] at hnd
      exact hnd
  | refused hp _ hr =>
      obtain ⟨-, rfl⟩ := Record.markFailed_eq_ok_iff.1 hr
      refine other fun he => ?_
      rw [← he, hp] at hnd
      exact hnd
  | delivered hp hr =>
      obtain ⟨-, rfl⟩ := Record.markDelivered_eq_ok_iff.1 hr
      refine other fun he => ?_
      rw [← he, hp] at hnd
      exact hnd
  | @saved _ report r failure rest _ hp =>
      refine other fun he => ?_
      rw [← he, hp] at hnd
      have hrest : (rest.map Record.id).Nodup := (List.nodup_cons.1 hnd).2
      cases failure with
      | none => rwa [Pass.saved, Pass.copies_proceed]
      | some e => exact List.nodup_nil
  | _ => exact other fun _ => List.nodup_nil

/-- An attempt ends when its outcome is stored, or when the record turns out to be gone. -/
theorem end_of_attempt (h : Step f w a w') {r : Record} (hr : (w.pass k).underWay? = some r)
    (hpending : ∀ {report u rest}, w.pass k = .sending report u rest ∨ w.pass k = .accepted report u rest →
      u.state = .pending)
    (hcall : ∀ e, a ≠ .call k (some e)) (hcrash : a ≠ .crash k) :
    (∃ r', (w'.pass k).underWay? = some r' ∧ r'.id = r.id) ∨ w'.store.get? r.id = none ∨
      ∃ report failure rest, w.pass k = .saving report r failure rest ∧
        w'.store.get? r.id = some r ∧ w'.history = .saved k r :: w.history := by
  have other : ∀ {j p}, (j = k → ∃ r', p.underWay? = some r' ∧ r'.id = r.id) →
      ∃ r', (update w.pass j p k).underWay? = some r' ∧ r'.id = r.id := by
    intro j p hp
    rw [Function.update_apply]
    split
    · rename_i he; exact hp he.symm
    · exact ⟨r, hr, rfl⟩
  -- A worker without an attempt does not end one.
  have idle : ∀ {j p}, (w.pass j).underWay? = none →
      ∃ r', (update w.pass j p k).underWay? = some r' ∧ r'.id = r.id := by
    intro j p hno
    refine other fun he => ?_
    rw [he, hr] at hno
    cases hno
  cases h with
  | still | begun | wasted | added | committed | dropped | expired | cleaned | handedOver =>
      exact Or.inl ⟨r, hr, rfl⟩
  | started hp => exact Or.inl (idle (Pass.underWay?_of_next hp))
  | clocked hp | claimed hp | fetched hp | attempted hp | jammed hp | released hp | stuck hp =>
      exact Or.inl (idle (by rw [hp]; rfl))
  | accepted hp =>
      refine Or.inl (other fun he => ?_)
      rw [← he, hp] at hr
      exact ⟨r, hr, rfl⟩
  | refused hp _ hm =>
      obtain ⟨-, rfl⟩ := Record.markFailed_eq_ok_iff.1 hm
      refine Or.inl (other fun he => ?_)
      rw [← he, hp] at hr
      cases hr
      exact ⟨_, rfl, rfl⟩
  | delivered hp hm =>
      obtain ⟨-, rfl⟩ := Record.markDelivered_eq_ok_iff.1 hm
      refine Or.inl (other fun he => ?_)
      rw [← he, hp] at hr
      cases hr
      exact ⟨_, rfl, rfl⟩
  | barredFailure hp _ hm =>
      refine Or.inl (other fun he => ?_)
      rw [he] at hp
      rw [Record.markFailed, Record.ensurePending_of_pending (hpending (.inl hp))] at hm
      cases hm
  | barredDelivery hp hm =>
      refine Or.inl (other fun he => ?_)
      rw [he] at hp
      rw [Record.markDelivered, Record.ensurePending_of_pending (hpending (.inr hp))] at hm
      cases hm
  | @saved j report u failure rest v hp hv =>
      by_cases hk : k = j
      · rw [← hk] at hp ⊢
        rw [hp] at hr
        cases hr
        refine Or.inr (Or.inr ⟨report, failure, rest, hp, ?_, rfl⟩)
        rw [Store.get?_save, if_pos rfl, hv]
        rfl
      · exact Or.inl (other fun he => absurd he.symm hk)
  | @missed j report u failure rest hp hv =>
      by_cases hk : k = j
      · rw [hk, hp] at hr
        cases hr
        exact Or.inr (Or.inl hv)
      · exact Or.inl (other fun he => absurd he.symm hk)
  | @failed j e => exact Or.inl (other fun he => absurd (he ▸ rfl) (hcall e))
  | @crashed j => exact Or.inl (other fun he => absurd (he ▸ rfl) hcrash)

/-- Whatever is locked is pending, as long as no copy is saved with a lock. -/
theorem locked_pending (h : Step f w a w') (hf : Fresh w)
    (hsaving : ∀ {k report r failure rest}, a = .call k none → w.pass k = .saving report r failure rest →
      r.lock = none)
    (hl : ∀ {v}, v ∈ w.store.records → v.lock ≠ none → v.state = .pending) {v : Record}
    (hv : v ∈ w'.store.records) (hlock : v.lock ≠ none) : v.state = .pending := by
  have hv := Store.get?_of_mem hv
  have old : w.store.get? v.id = some v → v.state = .pending :=
    fun hv => hl (Store.mem_of_get? hv) hlock
  cases h with
  | committed ht new =>
      rcases Store.get?_putAll_cases hv with hm | hold
      · rw [hf.staged_new ht hm]; rfl
      · exact old hold
  | expired | released =>
      rw [Store.get?_unlock] at hv
      obtain ⟨u, hu, he⟩ := Option.map_eq_some_iff.1 hv
      split at he
      · rw [← he] at hlock; exact absurd rfl hlock
      · exact old (he ▸ hu)
  | cleaned =>
      rw [Store.get?_remove, Option.filter_eq_some_iff] at hv
      exact old hv.1
  | claimed =>
      rw [Store.get?_claim] at hv
      obtain ⟨u, hu, he⟩ := Option.map_eq_some_iff.1 hv
      split at he
      · rename_i hc
        simp only [Store.Claimable, Bool.and_eq_true, decide_eq_true_eq] at hc
        rw [← he]; exact hc.1
      · exact old (he ▸ hu)
  | saved hp =>
      rw [Store.get?_save] at hv
      split at hv
      · obtain ⟨-, -, rfl⟩ := Option.map_eq_some_iff.1 hv
        exact absurd (hsaving rfl hp) hlock
      · exact old hv
  | _ => exact old hv

end Step

end Outbox

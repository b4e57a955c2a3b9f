import Outbox.Record

/-!
# Transitions of a record

When an attempt can start, when its outcome can be put on a record, and what comes of it.
-/

namespace Outbox.Record

variable {r r' : Record}

theorem startAttempt_eq_some_iff {now : Instant} :
    r.startAttempt now = some r' ↔
      r.attempts < maxAttempts ∧ r' = { r with lastAttemptOn := some now, attempts := r.attempts + 1 } := by
  simp [startAttempt, eq_comm]

theorem startAttempt_eq_none_iff {now : Instant} :
    r.startAttempt now = none ↔ maxAttempts ≤ r.attempts := by
  simp [startAttempt]

theorem ensurePending_of_pending {target : State} (h : r.state = .pending) :
    r.ensurePending target = .ok () := by
  simp [ensurePending, h, State.isTerminal]

theorem ensurePending_of_terminal {target : State} (h : r.state ≠ .pending) :
    r.ensurePending target = .error (.invalidTransition r.id r.state target) := by
  unfold ensurePending
  cases hs : r.state with
  | pending => exact absurd hs h
  | _ => rfl

theorem markDelivered_of_terminal {now : Instant} (h : r.state ≠ .pending) :
    r.markDelivered now = .error (.invalidTransition r.id r.state .delivered) := by
  rw [markDelivered, ensurePending_of_terminal h]
  rfl

theorem markDelivered_eq_ok_iff {now : Instant} :
    r.markDelivered now = .ok r' ↔
      r.state = .pending ∧ r' = { r with state := .delivered, processedOn := some now, lock := none } := by
  by_cases h : r.state = .pending
  · rw [markDelivered, ensurePending_of_pending h]
    exact ⟨fun he => ⟨h, (Except.ok.inj he).symm⟩, fun he => congrArg Except.ok he.2.symm⟩
  · rw [markDelivered_of_terminal h]
    exact ⟨fun he => (nomatch he), fun he => absurd he.1 h⟩

theorem markFailed_of_terminal {error : String} {policy : RetrialPolicy} (h : r.state ≠ .pending) :
    r.markFailed error policy =
      .error (.invalidTransition r.id r.state (r.stateAfterFailure policy)) := by
  rw [markFailed, ensurePending_of_terminal h]
  rfl

theorem markFailed_eq_ok_iff {error : String} {policy : RetrialPolicy} :
    r.markFailed error policy = .ok r' ↔
      r.state = .pending ∧
        r' = { r with lock := none, error := some error, state := r.stateAfterFailure policy } := by
  by_cases h : r.state = .pending
  · rw [markFailed, ensurePending_of_pending h]
    exact ⟨fun he => ⟨h, (Except.ok.inj he).symm⟩, fun he => congrArg Except.ok he.2.symm⟩
  · rw [markFailed_of_terminal h]
    exact ⟨fun he => (nomatch he), fun he => absurd he.1 h⟩

theorem enabled_of_stateAfterFailure {policy : RetrialPolicy}
    (h : r.stateAfterFailure policy = .exhausted) : policy.enabled = true ∧ policy.max ≤ r.attempts := by
  unfold stateAfterFailure RetrialPolicy.isExhausted at h
  split at h
  · rename_i he
    simpa using he
  · cases h

theorem stateAfterFailure_ne_delivered {policy : RetrialPolicy} :
    r.stateAfterFailure policy ≠ .delivered := by
  unfold stateAfterFailure
  split <;> simp

end Outbox.Record

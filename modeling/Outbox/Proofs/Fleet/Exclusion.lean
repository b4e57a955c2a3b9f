import Outbox.Proofs.Fleet.Custody
import Outbox.Proofs.Fleet.NoLoss

/-!
# Exclusion

As long as nobody takes locks from batches in progress, no two workers have one record in hand, each
record is accepted once, and the attempts of a record are the times that it was sent.
-/

namespace Outbox.World

/-- An attempt at the record is between its send and its save. -/
def InFlight (w : World) (id : RecordId) : Prop :=
  ∃ k r, (w.pass k).underWay? = some r ∧ r.id = id ∧
    ∀ report rest, w.pass k = .sending report r rest → w.awaiting k = true

variable {f : Fleet} {w : World}

theorem Custody.attempts_eq (h : w.Custody f) {id : RecordId} {v : Record}
    (hv : w.store.get? id = some v) (hno : ¬ w.InFlight id) : v.attempts = w.sends id := by
  by_cases hany : ∃ k r, (w.pass k).underWay? = some r ∧ r.id = id
  · obtain ⟨k, r, hr, rfl⟩ := hany
    -- The attempt has started, and its message is still with the worker.
    obtain ⟨report, rest, hp, ha⟩ : ∃ report rest, w.pass k = .sending report r rest ∧
        w.awaiting k = false := by
      by_contra hne
      refine hno ⟨k, r, hr, rfl, fun report rest hp => ?_⟩
      by_contra ha
      exact hne ⟨report, rest, hp, by simpa using ha⟩
    obtain ⟨-, -, hsends⟩ : w.Stage k (.sending report r rest) := hp ▸ (h.held k).stage
    have hat := ((h.held k).underWay hr hv).2
    rw [ha, ← hat] at hsends
    exact (Nat.succ.inj hsends).symm
  · exact (h.counted hv fun hr he => hany ⟨_, _, hr, he⟩).1.symm

/-- Two workers with a record each, of which one is refused, while both kinds of sweep run. -/
def sideBySide (t : Instant) : List Action :=
  [.begin 0, .publish 0 (.nth 1) default t none, .commit 0, .sweep (.unlocking 0) t none,
    .start 0, .read 0 t, .call 0 none,
    .begin 1, .publish 1 (.nth 2) default t none, .commit 1,
    .start 1, .read 1 t, .call 1 none, .call 0 none, .call 1 none,
    .read 1 t, .handOver 1, .read 0 t, .handOver 0, .sweep (.cleaning 0 true) t none,
    .answer 0 (.error { message := "nack" }), .answer 1 (.ok ()), .read 1 t, .call 0 none, .call 1 none]

end Outbox.World

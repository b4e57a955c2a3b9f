import Outbox.Proofs.Fleet.Step

/-!
# Housekeeping is exact

What a sweep releases or deletes is decided by ages in exact nanoseconds, at both ends of the calendar and
for any span, though the sweep goes by a cutoff on the calendar.
-/

namespace Outbox.Store

/-! ## Cleaning -/

/-- The record is older than `age`, and finished where only finished ones count. -/
def OlderThan (now : Instant) (age : Nat) (finishedOnly : Bool) (r : Record) : Bool :=
  (age : Int) < now.nanos - r.createdOn.nanos &&
    (!finishedOnly || r.state = .delivered || r.state = .exhausted)

theorem outdated_before (now : Instant) (age : Nat) (finishedOnly : Bool) :
    Outdated (now.before age) finishedOnly = OlderThan now age finishedOnly := by
  funext r
  have hcreated : CreatedBefore (now.before age) r = decide ((age : Int) < now.nanos - r.createdOn.nanos) := by
    rw [CreatedBefore, decide_eq_decide, Instant.lt_before]
    omega
  have hfinished : r.state.isTerminal = (decide (r.state = .delivered) || decide (r.state = .exhausted)) := by
    cases r.state <;> rfl
  rw [Outdated, OlderThan, hcreated, hfinished, Bool.or_assoc]

/-- A second removal finds nothing. -/
theorem count_remove (s : Store) (p : Record → Bool) : (s.remove p).count p = 0 := by
  rw [count, remove, List.countP_eq_zero]
  intro r hr
  simpa using (List.mem_filter.1 hr).2

theorem remove_remove (s : Store) (p : Record → Bool) : (s.remove p).remove p = s.remove p :=
  ext (by simp [remove])

/-- A cleaning sweep deletes what is older than its age, leaves all else alone, counts what it has deleted,
and finds nothing left to do when it is run again at the same time. -/
theorem cleaning_exact (s : Store) (now : Instant) (age : Nat) (finishedOnly : Bool) :
    ∃ n s', (Sweep.cleaning age finishedOnly).run (host now none) s = (some (.ok n), s') ∧
      n = s.records.countP (OlderThan now age finishedOnly) ∧
      s'.records = s.records.filter (fun r => !OlderThan now age finishedOnly r) ∧
      (Sweep.cleaning age finishedOnly).run (host now none) s' = (some (.ok 0), s') := by
  refine ⟨_, _, run_cleaning age finishedOnly now s, ?_⟩
  rw [outdated_before]
  refine ⟨rfl, rfl, ?_⟩
  rw [run_cleaning, outdated_before, count_remove, remove_remove]

/-! ## Unlocking -/

/-- The record has been locked for longer than `age`. -/
def HeldLongerThan (now : Instant) (age : Nat) (r : Record) : Bool :=
  match r.lock with
  | some lock => (age : Int) < now.nanos - lock.takenOn.nanos
  | none => false

theorem lockedBefore_before (now : Instant) (age : Nat) :
    LockedBefore (now.before age) = HeldLongerThan now age := by
  funext r
  unfold LockedBefore HeldLongerThan Record.lockedOn?
  cases r.lock with
  | none => rfl
  | some lock =>
      simp only [Option.map_some, decide_eq_decide, Instant.lt_before]
      omega

/-- The record after the sweep. -/
def released (now : Instant) (age : Nat) (r : Record) : Record :=
  if HeldLongerThan now age r then { r with lock := none } else r

/-- What the next claim takes: what it would have taken before, and what is pending of the released. -/
def TakenAfter (now : Instant) (age : Nat) (r : Record) : Bool :=
  Claimable .pending r || HeldLongerThan now age r && r.state = .pending

theorem claimable_released (now : Instant) (age : Nat) (r : Record) :
    Claimable .pending (released now age r) = TakenAfter now age r := by
  unfold released TakenAfter
  cases hheld : HeldLongerThan now age r with
  | false => simp
  | true => simp +contextual [Claimable, Record.isLocked]

theorem locked_released (now : Instant) (age : Nat) (r : Record) (owner : MachineId) (later : Instant) :
    (released now age r).locked owner later = r.locked owner later := by
  unfold released
  split <;> rfl

theorem records_unlock (s : Store) (now : Instant) (age : Nat) :
    (s.unlock (HeldLongerThan now age)).records = s.records.map (released now age) := rfl

theorem count_claimable_unlock (s : Store) (now : Instant) (age : Nat) :
    (s.unlock (HeldLongerThan now age)).count (Claimable .pending) =
      s.records.countP (TakenAfter now age) := by
  rw [count, records_unlock, List.countP_map]
  exact List.countP_congr fun r _ => by rw [Function.comp_apply, claimable_released]

theorem records_claim_unlock (s : Store) (now later : Instant) (age : Nat) (owner : MachineId) :
    ((s.unlock (HeldLongerThan now age)).claim owner later .pending).records =
      s.records.map fun r =>
        if TakenAfter now age r then r.locked owner later else released now age r := by
  show (s.unlock (HeldLongerThan now age)).records.map
    (fun r => if Claimable .pending r then r.locked owner later else r) = _
  rw [records_unlock, List.map_map]
  refine List.map_congr_left fun r _ => ?_
  rw [Function.comp_apply, claimable_released, locked_released]

/-- An unlocking sweep releases the locks that are older than its age, whoever owns them, and counts them.
Nothing else changes, and the next claim, whoever makes it, takes the pending records among the released
beside those that it would have taken anyway. -/
theorem unlocking_exact (s : Store) (now : Instant) (age : Nat) :
    ∃ n s', (Sweep.unlocking age).run (host now none) s = (some (.ok n), s') ∧
      n = s.records.countP (HeldLongerThan now age) ∧
      s'.records = s.records.map (released now age) ∧
      ∀ owner later, ∃ s'', s'.perform (.claim owner later .pending) =
          (.ok (s.records.countP (TakenAfter now age)), s'') ∧
        s''.records = s.records.map fun r =>
          if TakenAfter now age r then r.locked owner later else released now age r := by
  refine ⟨_, _, run_unlocking age now s, ?_⟩
  rw [lockedBefore_before]
  refine ⟨rfl, records_unlock s now age, fun owner later => ?_⟩
  rw [perform, count_claimable_unlock]
  exact ⟨_, rfl, records_claim_unlock s now later age owner⟩

end Outbox.Store

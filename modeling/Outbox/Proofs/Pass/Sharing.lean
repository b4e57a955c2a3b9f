import Outbox.Proofs.Pass.Solo

/-!
# A store shared with others

A pass on a store in memory on which others make calls while a message is with the broker. Each call of
theirs is noted with the store that it finds.
-/

namespace Outbox

/-- A call that others make during a send, which goes by its number in the pass. -/
structure Visit where
  during : Nat
  found : Store
  call : Call .count

def Visit.Deletes (v : Visit) (id : RecordId) : Prop :=
  (v.found.get? id).isSome ∧ (v.found.perform v.call).2.get? id = none

structure Shared extends Solo where
  /-- The latest first. -/
  visits : List Visit := []

namespace Shared

def visit (w : Shared) (c : Call .count) : Shared :=
  { w with store := (w.store.perform c).2, visits := ⟨w.sent.length, w.store, c⟩ :: w.visits }

/-- Times and answers are those of the sequences, and `calls n` is what others ask of the store while the
broker has message `n`. -/
def host (clock : Nat → Instant) (answers : Nat → Except BrokerError Unit)
    (calls : Nat → List (Call .count)) : Host Shared where
  now w := some (clock w.asked)
  call c w := ((w.store.perform c).1, { w with store := (w.store.perform c).2, asked := w.asked + 1 })
  send m w :=
    (some (answers w.sent.length),
      { (calls w.sent.length).foldl visit w with sent := w.sent ++ [m], asked := w.asked + 1 })
  log w _ := w

/-- Others have deleted the record. -/
def Deleted (w : Shared) (id : RecordId) : Prop := ∃ v ∈ w.visits, v.Deletes id

variable {clock : Nat → Instant} {answers : Nat → Except BrokerError Unit} {calls : Nat → List (Call .count)}
  {w : Shared}

theorem logAll_host (w : Shared) (entries : List LogEntry) : (host clock answers calls).logAll w entries = w :=
  Host.logAll_of_silent (fun _ _ => rfl) w entries

end Shared

namespace Pass

variable {clock : Nat → Instant} {answers : Nat → Except BrokerError Unit} {calls : Nat → List (Call .count)}
  {s : Settings} {store : Store}

theorem advance_shared_opening :
    advance (Shared.host clock answers calls) s opening { store } =
      advance (Shared.host clock answers calls) s
        (proceed ⟨store.count (Store.Claimable .pending), 0⟩
          ((store.batch s.machine).map (Store.claimed s.machine (clock 0))))
        { store := store.claim s.machine (clock 0) .pending, asked := 2 } := by
  rw [advance_now rfl rfl, advance_call rfl, Shared.logAll_host]
  show advance (Shared.host clock answers calls) s (fetching (store.count (Store.Claimable .pending)))
    { store := store.claim s.machine (clock 0) .pending, asked := 1 } = _
  rw [advance_call rfl, Shared.logAll_host, ← Store.fetch_claim]
  rfl

variable {w : Shared} {report : Report} {r v : Record} {failure : Option BrokerError} {rest : List Record}

theorem advance_shared_releasing {result : Except OutboxError Report} :
    advance (Shared.host clock answers calls) s (releasing result) w =
      (finished result,
        { w with store := w.store.unlock (Store.OwnedBy s.machine), asked := w.asked + 1 }) := by
  rw [advance_release, Shared.logAll_host]
  rfl

theorem advance_shared_saving (hv : w.store.get? r.id = some v) :
    advance (Shared.host clock answers calls) s (saving report r failure rest) w =
      advance (Shared.host clock answers calls) s (saved report r failure rest (.ok ())).1
        { w with store := w.store.save r, asked := w.asked + 1 } := by
  rw [advance_call rfl, Shared.logAll_host]
  simp only [Shared.host, Store.perform, hv]

/-- Others have deleted the record: the pass ends, whatever the broker has answered. -/
theorem advance_shared_missing (hv : w.store.get? r.id = none) :
    advance (Shared.host clock answers calls) s (saving report r failure rest) w =
      (finished (.error (.store "outbox.memory.update_record_by_id" (.recordNotFound r.id))),
        { w with store := w.store.unlock (Store.OwnedBy s.machine), asked := w.asked + 2 }) := by
  rw [advance_call rfl, Shared.logAll_host]
  simp only [Shared.host, Store.perform, hv]
  exact advance_shared_releasing (w := { w with asked := w.asked + 1 })

end Pass

end Outbox

import Mathlib.Tactic.Push
import Outbox.Proofs.Fleet
import Outbox.Proofs.Pass.Solo

/-!
# Recovery

Once every lock has expired, one sweep and one pass of any machine deliver all that is pending, whatever
crashes have left behind in the store.
-/

namespace Outbox

namespace Store

variable {s : Store} {machine : MachineId}

theorem count_unlock {p q : Record → Bool} (hq : ∀ r : Record, q r.unlocked = q r) :
    (s.unlock p).count q = s.count q := by
  show (s.records.map fun r => if p r then r.unlocked else r).countP q = _
  rw [List.countP_map]
  refine List.countP_congr fun r _ => ?_
  rw [Function.comp_apply]
  split
  · rw [hq]
  · rfl

/-- What waits, the oldest first. -/
def queue (s : Store) : List Record := (s.records.filter (·.state = .pending)).mergeSort olderOrSame

/-- What waits, and in what order, does not depend on the locks. -/
theorem map_message_queue {t : Store} {f : Record → Record} (ht : t.records = s.records.map f)
    (hf : ∀ r, ∃ lock, f r = { r with lock }) : t.queue.map Record.message = s.queue.map Record.message := by
  have horder : ∀ a b, olderOrSame a b = olderOrSame (f a) (f b) := by
    intro a b
    obtain ⟨la, ha⟩ := hf a
    obtain ⟨lb, hb⟩ := hf b
    rw [ha, hb]
    rfl
  have hstate : (fun r : Record => decide (r.state = .pending)) ∘ f = fun r => decide (r.state = .pending) := by
    funext r
    obtain ⟨lock, he⟩ := hf r
    rw [Function.comp_apply, he]
  have hmessage : Record.message ∘ f = Record.message := by
    funext r
    obtain ⟨lock, he⟩ := hf r
    rw [Function.comp_apply, he]
  rw [queue, ht, List.filter_map, hstate, ← List.map_mergeSort fun a _ b _ => horder a b, List.map_map, hmessage,
    queue]

theorem map_message_queue_unlock (p : Record → Bool) :
    (s.unlock p).queue.map Record.message = s.queue.map Record.message := by
  refine map_message_queue (f := fun r => if p r then r.unlocked else r) rfl fun r => ?_
  split
  · exact ⟨none, rfl⟩
  · exact ⟨r.lock, rfl⟩

theorem free_unlock {cutoff : Instant}
    (hlate : ∀ r ∈ s.records, ∀ lock ∈ r.lock, lock.takenOn < cutoff) :
    ∀ v ∈ (s.unlock (LockedBefore cutoff)).records, v.lock = none := by
  intro v hv
  obtain ⟨r, hr, rfl⟩ := List.mem_map.1 hv
  cases hl : r.lock with
  | none => split <;> simp [Record.unlocked, hl]
  | some lock =>
      have hp : LockedBefore cutoff r = true := by
        simpa [LockedBefore, Record.lockedOn?, hl] using hlate r hr lock hl
      rw [if_pos hp]
      rfl

/-! A store without locks. -/

variable (hfree : ∀ r ∈ s.records, r.lock = none)
include hfree

theorem mem_batch_of_free {r : Record} : r ∈ s.batch machine ↔ r ∈ s.records ∧ r.state = .pending := by
  refine mem_batch.trans (and_congr_right fun hr => ?_)
  rw [Record.owner?, hfree r hr]
  simp

theorem claimable_of_free {r : Record} (hr : r ∈ s.records) :
    Claimable .pending r = true ↔ decide (r.state = .pending) = true := by
  simp [Claimable, Record.isLocked, hfree r hr]

theorem batch_of_free : s.batch machine = s.queue := by
  refine congrArg (·.mergeSort olderOrSame) (List.filter_congr fun r hr => ?_)
  rw [Bool.eq_iff_iff, ← claimable_of_free hfree hr]
  simp [OwnedBy, Record.owner?, hfree r hr]

theorem length_batch_of_free : (s.batch machine).length = s.count (·.state = .pending) := by
  rw [batch_of_free hfree, queue, List.length_mergeSort, ← List.countP_eq_length_filter]
  rfl

end Store

/-- Nothing waits, and nothing is held. -/
def Store.Cleared (s : Store) : Prop := ∀ r ∈ s.records, r.state ≠ .pending ∧ r.lock = none

/-- A pass that meets no lock and no refusal delivers all that is pending. -/
theorem deliverBatch_of_free (clock : Nat → Instant) (s : Pass.Settings) {w : Solo}
    (hfree : ∀ r ∈ w.store.records, r.lock = none)
    (hroom : ∀ r ∈ w.store.records, r.state = .pending → r.attempts < Record.maxAttempts) :
    ∃ w', deliverBatch (Solo.host clock fun _ => .ok ()) s w =
        (some (.ok ⟨w.store.count (·.state = .pending), w.store.count (·.state = .pending)⟩), w') ∧
      w'.sent = w.sent ++ w.store.queue.map Record.message ∧ w'.store.Cleared := by
  have hclaimed : w.store.count (Store.Claimable .pending) = w.store.count (·.state = .pending) :=
    List.countP_congr fun r hr => Store.claimable_of_free hfree hr
  have hlength : ((w.store.batch s.machine).map (Store.claimed s.machine (clock w.asked))).length =
      w.store.count (·.state = .pending) := by
    rw [List.length_map, Store.length_batch_of_free hfree]
  have hids : (((w.store.batch s.machine).map (Store.claimed s.machine (clock w.asked))).map
      Record.id).Nodup := by
    have hid : Record.id ∘ Store.claimed s.machine (clock w.asked) = Record.id :=
      funext fun r => Store.claimed_id
    rw [List.map_map, hid]
    exact w.store.nodup_sorted _
  have hroom' : ∀ r ∈ w.store.batch s.machine, r.attempts < Record.maxAttempts := by
    intro r hr
    obtain ⟨hm, hp⟩ := (Store.mem_batch_of_free hfree).1 hr
    exact hroom r hm hp
  obtain ⟨n, p, w', hadv, hset⟩ : ∃ n p w', Pass.advance (Solo.host clock fun _ => .ok ()) s _ _ = (p, w') ∧
      Settled clock (fun _ => .ok ()) s _ _ _ n p w' :=
    Pass.settled _ ⟨w.store.count (Store.Claimable .pending), 0⟩ ⟨_, w.sent, w.asked + 2⟩
      (fun c hc => Pass.deliverable_claimed (fun r hr hl => absurd (hfree r hr) hl) hroom' hc) hids
  have hn : n = ((w.store.batch s.machine).map (Store.claimed s.machine (clock w.asked))).length := by
    refine Nat.le_antisymm hset.le_length (Nat.le_of_not_lt fun hlt => ?_)
    obtain ⟨e, he, -⟩ := hset.refused (List.getElem?_eq_getElem hlt)
    cases he
  refine ⟨w', ?_, ?_, fun v hv => ?_⟩
  · rw [deliverBatch, Pass.advance_opening, hadv, hset.complete hn, hn, hlength, hclaimed, Nat.zero_add]
    rfl
  · have hmessage : Record.message ∘ Store.claimed s.machine (clock w.asked) = Record.message :=
      funext fun r => Store.claimed_message
    rw [hset.sent, hn, List.take_of_length_le (Nat.le_succ _), List.map_map, hmessage, Store.batch_of_free hfree]
  · by_cases hno : ∀ r ∈ w.store.batch s.machine, r.id ≠ v.id
    · have hother : w'.store.get? v.id = w.store.get? v.id := by
        refine (hset.other fun c hc => ?_).trans (Pass.get?_untouched hno)
        obtain ⟨r, hr, rfl⟩ := List.mem_map.1 hc
        rw [Store.claimed_id]
        exact hno r hr
      rw [Store.get?_of_mem hv] at hother
      have hm := Store.mem_of_get? hother.symm
      exact ⟨fun hp => hno v ((Store.mem_batch_of_free hfree).2 ⟨hm, hp⟩) rfl, hfree v hm⟩
    · push Not at hno
      obtain ⟨r, hr, hid⟩ := hno
      have hc := List.mem_map_of_mem (f := Store.claimed s.machine (clock w.asked)) hr
      obtain ⟨i, hi⟩ := List.mem_iff_getElem?.1 hc
      have hacc := hset.accepted hi (hn ▸ (List.getElem?_eq_some_iff.1 hi).1)
      rw [Store.claimed_id, hid, Store.get?_of_mem hv] at hacc
      rw [Option.some.inj hacc]
      exact ⟨by simp [Record.accepted], rfl⟩

/-! ## Recovery -/

/-- One sweep and one pass deliver all that waits and clear the store, with nobody else at work and a broker that
accepts everything. -/
def Recovers (clock : Nat → Instant) (age : Nat) (s : Pass.Settings) (store : Store) : Prop :=
  ∃ unlocked w w',
    (Sweep.unlocking age).run (Solo.host clock fun _ => .ok ()) ⟨store, [], 0⟩ = (some (.ok unlocked), w) ∧
    deliverBatch (Solo.host clock fun _ => .ok ()) s w =
      (some (.ok ⟨store.count (·.state = .pending), store.count (·.state = .pending)⟩), w') ∧
    w'.sent = store.queue.map Record.message ∧ w'.store.Cleared

theorem run_unlocking_solo {clock : Nat → Instant} {answers : Nat → Except BrokerError Unit} (age : Nat)
    (store : Store) :
    (Sweep.unlocking age).run (Solo.host clock answers) ⟨store, [], 0⟩ =
      (some (.ok (store.count (Store.LockedBefore ((clock 0).before age)))),
        ⟨store.unlock (Store.LockedBefore ((clock 0).before age)), [], 1⟩) := by
  simp only [Sweep.run, Solo.host, Sweep.call, Store.perform]
  split <;> rfl

/-- It takes no more than expired locks and counters with room for one more attempt. Whether a lock has
expired is decided by the first reading of the clock. -/
theorem recovers (clock : Nat → Instant) (age : Nat) (s : Pass.Settings) (store : Store)
    (hlate : ∀ r ∈ store.records, ∀ lock ∈ r.lock, lock.takenOn.nanos + age < (clock 0).nanos)
    (hroom : ∀ r ∈ store.records, r.state = .pending → r.attempts < Record.maxAttempts) :
    Recovers clock age s store := by
  have hfree : ∀ v ∈ (store.unlock (Store.LockedBefore ((clock 0).before age))).records, v.lock = none := by
    refine Store.free_unlock fun r hr lock hl => Instant.lt_before.2 ?_
    have hlt := hlate r hr lock hl
    omega
  have hroom' : ∀ v ∈ (store.unlock (Store.LockedBefore ((clock 0).before age))).records,
      v.state = .pending → v.attempts < Record.maxAttempts := by
    intro v hv hp
    obtain ⟨r, hr, rfl⟩ := List.mem_map.1 hv
    split at hp <;> split <;> exact hroom r hr hp
  have hcount : (store.unlock (Store.LockedBefore ((clock 0).before age))).count (·.state = .pending) =
      store.count (·.state = .pending) := Store.count_unlock fun _ => rfl
  obtain ⟨w', hpass, hsent, hcleared⟩ := deliverBatch_of_free clock s
    (w := ⟨store.unlock (Store.LockedBefore ((clock 0).before age)), [], 1⟩) hfree hroom'
  rw [hcount] at hpass
  rw [Store.map_message_queue_unlock] at hsent
  exact ⟨_, _, w', run_unlocking_solo age store, hpass, hsent, hcleared⟩

/-- A worker claims two records, and crashes before it has fetched them. -/
def World.abandoned (now : Instant) : List Action :=
  [.begin 0, .publish 0 (.nth 1) default now none, .publish 0 (.nth 2) default now none, .commit 0,
    .start 0, .read 0 now, .call 0 none, .crash 0]

theorem recovers_abandoned :
    ((∀ r ∈ ((World.start .empty).run (.numbered .unlimited) (World.abandoned default)).store.records,
          ∀ lock ∈ r.lock, lock.takenOn.nanos + (3 : Nat) < (⟨5, by decide, by decide⟩ : Instant).nanos) ∧
        ∀ r ∈ ((World.start .empty).run (.numbered .unlimited) (World.abandoned default)).store.records,
          r.state = .pending → r.attempts < Record.maxAttempts) ∧
      Recovers (fun _ => ⟨5, by decide, by decide⟩) 3 ⟨⟨"b"⟩, .limited 1⟩
        ((World.start .empty).run (.numbered .unlimited) (World.abandoned default)).store := by
  have hlate : ∀ r ∈ ((World.start .empty).run (.numbered .unlimited) (World.abandoned default)).store.records,
      ∀ lock ∈ r.lock, lock.takenOn.nanos + (3 : Nat) < (⟨5, by decide, by decide⟩ : Instant).nanos := by
    decide +kernel
  have hroom : ∀ r ∈ ((World.start .empty).run (.numbered .unlimited) (World.abandoned default)).store.records,
      r.state = .pending → r.attempts < Record.maxAttempts := by decide +kernel
  exact ⟨⟨hlate, hroom⟩,
    recovers (fun _ => ⟨5, by decide, by decide⟩) 3 ⟨⟨"b"⟩, .limited 1⟩ _ hlate hroom⟩

end Outbox

import Outbox.Proofs.Pass.Turns

/-!
# Attempts in the store

What the attempts of a pass leave in a store of its own, as far as the pass has come. An attempt is in the
store as a whole or not at all.
-/

namespace Outbox

/-- `v` is what one complete attempt with that outcome makes of `r`. -/
inductive Record.Attempted (policy : RetrialPolicy) (r : Record) :
    Except BrokerError Unit → Record → Prop where
  | delivered {tried done r' v} (hr : r.startAttempt tried = some r')
      (hv : r'.markDelivered done = .ok v) : Attempted policy r (.ok ()) v
  | failed {tried cause r' v} (hr : r.startAttempt tried = some r')
      (hv : r'.markFailed cause.message policy = .ok v) : Attempted policy r (.error cause) v

namespace Deed

def sent? : Deed → Option (Message × Except BrokerError Unit)
  | sent m answer => some (m, answer)
  | _ => none

def Failed : Deed → Prop
  | called _ _ (.error _) | sent _ (.error _) => True
  | _ => False

/-- The error of a failed call, other than the release. -/
def setback? : Deed → Option OutboxError
  | called _ c (.error x) => if c.operation ∈ [.claim, .fetch, .save] then some x else none
  | _ => none

theorem setback?_of_not_failed {d : Deed} (h : ¬ d.Failed) : d.setback? = none := by
  cases d with
  | @called found a c answer =>
      cases answer with
      | ok => rfl
      | error => exact absurd trivial h
  | _ => rfl

end Deed

namespace Scene

variable {w : Scene}

/-- The messages that were sent and the broker's answers, the earliest first. -/
def sends (w : Scene) : List (Message × Except BrokerError Unit) := w.deeds.reverse.filterMap Deed.sent?

/-- The error of the first call that failed, the release aside. -/
def setback? (w : Scene) : Option OutboxError := w.deeds.reverse.findSome? Deed.setback?

@[simp] theorem sends_logging {entries : List LogEntry} : (w.logging entries).sends = w.sends := by
  simp [sends, ← List.map_reverse, List.filterMap_map, Deed.sent?]

@[simp] theorem setback?_logging {entries : List LogEntry} : (w.logging entries).setback? = w.setback? := by
  have : entries.findSome? (Deed.setback? ∘ .logged) = none := List.findSome?_eq_none_iff.2 fun _ _ => rfl
  simp [setback?, ← List.map_reverse, List.findSome?_map, this]

@[simp] theorem sends_after {fault : Option OutboxError} {a : Answer} {c : Call a} :
    (w.after fault c).sends = w.sends := by
  simp [sends, after, Deed.sent?]

theorem sends_sent {store : Store} {m : Message} {answer : Except BrokerError Unit} :
    (Scene.mk store (.sent m answer :: w.deeds)).sends = w.sends ++ [(m, answer)] := by
  simp [sends, Deed.sent?]

theorem setback?_after {fault : Option OutboxError} {a : Answer} {c : Call a} :
    (w.after fault c).setback? =
      w.setback?.or (Deed.setback? (.called w.store c (w.store.call fault c).1)) := by
  simp [setback?, after, List.findSome?_append]

theorem setback?_sent {store : Store} {m : Message} {answer : Except BrokerError Unit} :
    (Scene.mk store (.sent m answer :: w.deeds)).setback? = w.setback? := by
  simp [setback?, List.findSome?_append, Deed.setback?]

/-- Nothing has failed so far. -/
def Unfailed (w : Scene) : Prop := ∀ d ∈ w.deeds, ¬ d.Failed

theorem Unfailed.logging (h : w.Unfailed) (entries : List LogEntry) : (w.logging entries).Unfailed := by
  intro d hd
  rcases List.mem_append.1 hd with hd | hd
  · obtain ⟨entry, -, rfl⟩ := List.mem_map.1 hd
    exact id
  · exact h d hd

theorem Unfailed.cons (h : w.Unfailed) {store : Store} {d : Deed} (hd : ¬ d.Failed) :
    (Scene.mk store (d :: w.deeds)).Unfailed := List.forall_mem_cons.2 ⟨hd, h⟩

theorem Unfailed.setback?_eq (h : w.Unfailed) : w.setback? = none :=
  List.findSome?_eq_none_iff.2 fun d hd => Deed.setback?_of_not_failed (h d (List.mem_reverse.1 hd))

end Scene

namespace Record.Attempted

variable {policy : RetrialPolicy} {r u v : Record} {a : Except BrokerError Unit}

theorem eq_of (h : r.Attempted policy a v) : v.id = r.id ∧ v.attempts = r.attempts + 1 ∧ v.lock = none := by
  cases h with
  | delivered hr hv =>
      obtain ⟨-, rfl⟩ := startAttempt_eq_some_iff.1 hr
      obtain ⟨-, rfl⟩ := markDelivered_eq_ok_iff.1 hv
      exact ⟨rfl, rfl, rfl⟩
  | failed hr hv =>
      obtain ⟨-, rfl⟩ := startAttempt_eq_some_iff.1 hr
      obtain ⟨-, rfl⟩ := markFailed_eq_ok_iff.1 hv
      exact ⟨rfl, rfl, rfl⟩

/-- An attempt takes the lock away, so that it does not matter which one it was. -/
theorem of_unlocked (h : r.Attempted policy a v) (hu : r.unlocked = u.unlocked) : u.Attempted policy a v := by
  obtain ⟨id, message, createdOn, state, lock, processedOn, attempts, lastAttemptOn, error⟩ := r
  obtain ⟨id', message', createdOn', state', lock', processedOn', attempts', lastAttemptOn', error'⟩ := u
  obtain ⟨rfl, rfl, rfl, rfl, -, rfl, rfl, rfl, rfl⟩ := Record.mk.inj hu
  cases h with
  | delivered hr hv =>
      obtain ⟨hlt, rfl⟩ := startAttempt_eq_some_iff.1 hr
      obtain ⟨hp, rfl⟩ := markDelivered_eq_ok_iff.1 hv
      exact .delivered (startAttempt_eq_some_iff.2 ⟨hlt, rfl⟩) (markDelivered_eq_ok_iff.2 ⟨hp, rfl⟩)
  | failed hr hv =>
      obtain ⟨hlt, rfl⟩ := startAttempt_eq_some_iff.1 hr
      obtain ⟨hp, rfl⟩ := markFailed_eq_ok_iff.1 hv
      exact .failed (startAttempt_eq_some_iff.2 ⟨hlt, rfl⟩) (markFailed_eq_ok_iff.2 ⟨hp, rfl⟩)

end Record.Attempted

theorem Record.eq_of_unlocked {u v : Record} (h : v.unlocked = u.unlocked) : v = { u with lock := v.lock } :=
  congrArg (fun r : Record => { r with lock := v.lock }) h

theorem Record.unlocked_of_lock {r : Record} (h : r.lock = none) : r.unlocked = r := by
  rw [unlocked, ← h]

theorem Store.perform_save {s : Store} {r : Record} (h : (s.get? r.id).isSome) :
    s.perform (.save r) = (.ok (), s.save r) := by
  obtain ⟨v, hv⟩ := Option.isSome_iff_exists.1 h
  simp [perform, hv]

theorem Store.get?_perform_save {s : Store} {r : Record} (h : (s.get? r.id).isSome) (id : RecordId) :
    (s.perform (.save r)).2.get? id = if r.id = id then some r else s.get? id := by
  rw [perform_save h, get?_save]
  split
  · rename_i he
    obtain ⟨v, hv⟩ := Option.isSome_iff_exists.1 h
    rw [← he, hv]
    rfl
  · rfl

/-- Ids come once in a batch. -/
theorem Store.id_ne_of_mem_take {s : Store} {machine : MachineId} {n : Nat} {r u : Record}
    (hr : r ∈ (s.batch machine).take n) (hu : (s.batch machine)[n]? = some u) : r.id ≠ u.id := by
  have hnodup : (((s.batch machine).take (n + 1)).map Record.id).Nodup :=
    (s.nodup_sorted _).sublist ((List.take_sublist ..).map _)
  rw [List.take_add_one, hu, Option.toList_some, List.map_append, List.nodup_append] at hnodup
  exact hnodup.2.2 _ (List.mem_map_of_mem hr) _ (List.mem_map_of_mem List.mem_cons_self)

theorem Store.get?_of_batch {s : Store} {machine : MachineId} {n : Nat} {u : Record}
    (hu : (s.batch machine)[n]? = some u) : s.get? u.id = some u :=
  get?_of_mem (mem_batch.1 (List.mem_of_getElem? hu)).1

/-! ## The books of a pass -/

/-- Every record in the store is as before, its lock aside, or has one attempt behind it whose message
was sent; and nothing is sent after a failure. -/
structure Books (s : Pass.Settings) (store : Store) (w : Scene) : Prop where
  sent : w.sends.map Prod.fst = ((store.batch s.machine).take w.sends.length).map Record.message
  kept : ∀ id, (w.store.get? id).isSome = (store.get? id).isSome
  stored : ∀ {id u v}, store.get? id = some u → w.store.get? id = some v →
    (∃ lock, v = { u with lock }) ∨
      ∃ (i : Nat) (a : Except BrokerError Unit), (store.batch s.machine)[i]? = some u ∧
        w.sends[i]? = some (u.message, a) ∧ u.Attempted s.policy a v
  quiet : w.deeds.Pairwise fun later earlier => earlier.Failed → later.sent? = none

/-- The first `n` records of the batch are delivered, and nothing has failed so far. -/
structure Ledger (s : Pass.Settings) (store : Store) (n : Nat) (w : Scene) : Prop where
  le : n ≤ (store.batch s.machine).length
  sends : w.sends = ((store.batch s.machine).take n).map fun u => (u.message, .ok ())
  accepted : ∀ u ∈ (store.batch s.machine).take n, ∃ v, w.store.get? u.id = some v ∧
    u.Attempted s.policy (.ok ()) v
  untouched : ∀ {id}, (∀ u ∈ (store.batch s.machine).take n, u.id ≠ id) →
    (w.store.get? id).map Record.unlocked = (store.get? id).map Record.unlocked
  unfailed : w.Unfailed

namespace Ledger

variable {s : Pass.Settings} {store : Store} {n : Nat} {w : Scene} {u v : Record}

theorem start : Ledger s store 0 ⟨store, []⟩ where
  le := Nat.zero_le _
  sends := rfl
  accepted _ hu := nomatch hu
  untouched _ := rfl
  unfailed _ hd := nomatch hd

theorem claim (h : Ledger s store 0 w) (now : Instant) :
    Ledger s store 0 (w.after none (.claim s.machine now .pending)) where
  le := Nat.zero_le _
  sends := by rw [Scene.sends_after]; exact h.sends
  accepted _ hu := nomatch hu
  untouched := by
    intro id hid
    rw [← h.untouched hid]
    show ((w.store.claim s.machine now .pending).get? id).map Record.unlocked = _
    rw [Store.get?_claim, Option.map_map]
    congr 1
    ext1 r
    simp only [Function.comp_apply]
    split <;> rfl
  unfailed := h.unfailed.cons id

theorem fetch (h : Ledger s store 0 w) (entries : List LogEntry) :
    Ledger s store 0 ((w.after none (.fetch s.machine)).logging entries) where
  le := Nat.zero_le _
  sends := by rw [Scene.sends_logging, Scene.sends_after]; exact h.sends
  accepted _ hu := nomatch hu
  untouched := h.untouched
  unfailed := Scene.Unfailed.logging (h.unfailed.cons id) entries

theorem length_sends (h : Ledger s store n w) : w.sends.length = n := by
  rw [h.sends, List.length_map, List.length_take_of_le h.le]

theorem getElem?_sends (h : Ledger s store n w) {store' : Store} {m : Message}
    {answer : Except BrokerError Unit} :
    (Scene.mk store' (.sent m answer :: w.deeds)).sends[n]? = some (m, answer) := by
  rw [Scene.sends_sent, ← h.length_sends, List.getElem?_concat_length]

theorem stored (h : Ledger s store n w) (id : RecordId) :
    (w.store.get? id).map Record.unlocked = (store.get? id).map Record.unlocked ∨
      ∃ u v, u ∈ (store.batch s.machine).take n ∧ store.get? id = some u ∧ w.store.get? id = some v ∧
        u.Attempted s.policy (.ok ()) v := by
  by_cases hid : ∀ u ∈ (store.batch s.machine).take n, u.id ≠ id
  · exact Or.inl (h.untouched hid)
  · push Not at hid
    obtain ⟨u, hu, rfl⟩ := hid
    obtain ⟨v, hv, ha⟩ := h.accepted u hu
    exact Or.inr ⟨u, v, hu, Store.get?_of_mem (Store.mem_batch.1 (List.mem_of_mem_take hu)).1, hv, ha⟩

theorem books (h : Ledger s store n w) : Books s store w where
  sent := by
    rw [h.length_sends, h.sends, List.map_map]
    rfl
  kept id := by
    rcases h.stored id with heq | ⟨u, v, -, hu, hv, -⟩
    · simpa using congrArg Option.isSome heq
    · rw [hu, hv]; rfl
  stored {id u v} hu hv := by
    rcases h.stored id with heq | ⟨u', v', hm, hu', hv', ha⟩
    · rw [hu, hv] at heq
      exact Or.inl ⟨v.lock, Record.eq_of_unlocked (Option.some.inj heq)⟩
    · obtain rfl : u = u' := Option.some.inj (hu.symm.trans hu')
      obtain rfl : v = v' := Option.some.inj (hv.symm.trans hv')
      obtain ⟨i, hi⟩ := List.mem_iff_getElem?.1 hm
      refine Or.inr ⟨i, .ok (), ?_, ?_, ha⟩
      · rw [List.getElem?_take] at hi
        split at hi
        · exact hi
        · cases hi
      · rw [h.sends, List.getElem?_map, hi]
        rfl
  quiet := List.pairwise_of_forall_mem_list fun _ _ d hd hf => absurd hf (h.unfailed d hd)

/-- The next record of the batch is sent, accepted and saved. -/
theorem next (h : Ledger s store n w) (hu : (store.batch s.machine)[n]? = some u)
    (hv : u.Attempted s.policy (.ok ()) v) (entries : List LogEntry) :
    Ledger s store (n + 1)
      ((Scene.after ⟨w.store, .sent u.message (.ok ()) :: w.deeds⟩ none (.save v)).logging entries) := by
  have htake : (store.batch s.machine).take (n + 1) = (store.batch s.machine).take n ++ [u] := by
    rw [List.take_add_one, hu, Option.toList_some]
  have hid : v.id = u.id := hv.eq_of.1
  have hstored : (w.store.get? v.id).isSome := by
    rw [hid, h.books.kept, Store.get?_of_batch hu]
    rfl
  constructor
  · exact (List.getElem?_eq_some_iff.1 hu).1
  · rw [Scene.sends_logging, Scene.sends_after, Scene.sends_sent, h.sends, htake, List.map_append]
    rfl
  · intro r hr
    rw [Scene.store_logging, Scene.store_after_none, Store.get?_perform_save hstored, hid]
    rw [htake] at hr
    rcases List.mem_append.1 hr with hm | hm
    · rw [if_neg (Store.id_ne_of_mem_take hm hu).symm]
      exact h.accepted r hm
    · obtain rfl := List.mem_singleton.1 hm
      exact ⟨v, if_pos rfl, hv⟩
  · intro id hne
    rw [htake] at hne
    rw [Scene.store_logging, Scene.store_after_none, Store.get?_perform_save hstored, hid,
      if_neg (hne u (List.mem_append_right _ List.mem_cons_self))]
    exact h.untouched fun r hr => hne r (List.mem_append_left _ hr)
  · refine Scene.Unfailed.logging (Scene.Unfailed.cons (h.unfailed.cons id) ?_) entries
    simp only [Store.call, Store.perform_save hstored]
    exact id

end Ledger

namespace Books

variable {s : Pass.Settings} {store : Store} {n i : Nat} {w : Scene} {u v : Record}
  {answer : Except BrokerError Unit}

theorem send (h : Ledger s store n w) (hu : (store.batch s.machine)[n]? = some u) :
    Books s store ⟨w.store, .sent u.message answer :: w.deeds⟩ where
  sent := by
    rw [Scene.sends_sent, List.map_append, h.books.sent, List.length_append, h.length_sends,
      List.length_singleton, List.take_add_one, hu, List.map_append]
    rfl
  kept := h.books.kept
  stored hu' hv := by
    rw [Scene.sends_sent]
    rcases h.books.stored hu' hv with hl | ⟨i, a, hi, hs, ha⟩
    · exact Or.inl hl
    · refine Or.inr ⟨i, a, hi, ?_, ha⟩
      rw [List.getElem?_append_left (List.getElem?_eq_some_iff.1 hs).1, hs]
  quiet := List.pairwise_cons.2 ⟨fun d hd hf => absurd hf (h.unfailed d hd), h.books.quiet⟩

theorem logging (h : Books s store w) (entries : List LogEntry) : Books s store (w.logging entries) where
  sent := by rw [Scene.sends_logging]; exact h.sent
  kept := h.kept
  stored hu hv := by rw [Scene.sends_logging]; exact h.stored hu hv
  quiet := by
    rw [Scene.deeds_logging, List.pairwise_append]
    refine ⟨?_, h.quiet, ?_⟩
    · exact List.pairwise_map.2 (List.pairwise_of_forall fun _ _ _ => rfl)
    · intro d hd _ _ _
      obtain ⟨entry, -, rfl⟩ := List.mem_map.1 hd
      rfl

/-- A call may change locks. -/
theorem call (h : Books s store w) {fault : Option OutboxError} {a : Answer} (c : Call a)
    (hc : ∀ id, (w.store.call fault c).2.get? id = w.store.get? id ∨
      (w.store.call fault c).2.get? id = (w.store.get? id).map Record.unlocked) :
    Books s store (w.after fault c) where
  sent := by rw [Scene.sends_after]; exact h.sent
  kept id := by
    rw [← h.kept id]
    rcases hc id with he | he
    · exact congrArg Option.isSome he
    · exact (congrArg Option.isSome he).trans Option.isSome_map
  stored {id u v} hu hv := by
    rw [Scene.sends_after]
    rcases hc id with he | he
    · exact h.stored hu (he.symm.trans hv)
    · obtain ⟨r, hr, rfl⟩ := Option.map_eq_some_iff.1 (he.symm.trans hv)
      rcases h.stored hu hr with ⟨lock, rfl⟩ | ⟨i, a, hi, hs, ha⟩
      · exact Or.inl ⟨none, rfl⟩
      · rw [Record.unlocked_of_lock ha.eq_of.2.2]
        exact Or.inr ⟨i, a, hi, hs, ha⟩
  quiet := List.pairwise_cons.2 ⟨fun _ _ _ => rfl, h.quiet⟩

theorem isSome_get? (h : Books s store w) (hu : (store.batch s.machine)[i]? = some u) :
    (w.store.get? u.id).isSome := by
  rw [h.kept, Store.get?_of_batch hu]
  rfl

/-- The outcome of a send is saved. -/
theorem save (h : Books s store w) (hu : (store.batch s.machine)[i]? = some u)
    (hs : w.sends[i]? = some (u.message, answer)) (ha : u.Attempted s.policy answer v) :
    Books s store (w.after none (.save v)) ∧ (w.after none (.save v)).store.get? u.id = some v := by
  have hid : v.id = u.id := ha.eq_of.1
  have hget : ∀ id, (w.after none (.save v)).store.get? id =
      if u.id = id then some v else w.store.get? id := by
    intro id
    rw [← hid]
    exact Store.get?_perform_save (hid ▸ h.isSome_get? hu) id
  refine ⟨⟨?_, ?_, ?_, ?_⟩, ?_⟩
  · rw [Scene.sends_after]
    exact h.sent
  · intro id
    rw [hget]
    split
    · rename_i he
      rw [← he, Store.get?_of_batch hu]
      rfl
    · exact h.kept id
  · intro id u' v' hu' hv'
    rw [Scene.sends_after]
    rw [hget] at hv'
    split at hv'
    · rename_i he
      rw [← he, Store.get?_of_batch hu] at hu'
      cases hu'
      cases hv'
      exact Or.inr ⟨i, answer, hu, hs, ha⟩
    · exact h.stored hu' hv'
  · exact List.pairwise_cons.2 ⟨fun _ _ _ => rfl, h.quiet⟩
  · rw [hget, if_pos rfl]

end Books

end Outbox

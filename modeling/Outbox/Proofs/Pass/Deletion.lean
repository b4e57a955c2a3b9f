import Outbox.Proofs.Fleet.Step
import Outbox.Proofs.Pass.Sharing

/-!
# Records deleted during a pass

Others may delete records while a pass waits for the broker. What they delete stays deleted, and the pass
ends at the first record that it does not find any more.
-/

namespace Outbox

/-- Deletes what was created before the cutoff, or what is finished of that. -/
structure Deletion where
  cutoff : Instant
  finishedOnly : Bool

namespace Deletion

def call (d : Deletion) : Call .count :=
  if d.finishedOnly then .removeFinishedBefore d.cutoff else .removeBefore d.cutoff

theorem perform_call (d : Deletion) (s : Store) :
    (s.perform d.call).2 = s.remove (Store.Outdated d.cutoff d.finishedOnly) := by
  obtain ⟨cutoff, finishedOnly⟩ := d
  cases finishedOnly with
  | false => rw [Store.outdated_false]; rfl
  | true => rw [Store.outdated_true]; rfl

/-- A record is deleted or left as it is. -/
theorem get?_perform_call (d : Deletion) (s : Store) (id : RecordId) :
    (s.perform d.call).2.get? id = s.get? id ∨ (s.perform d.call).2.get? id = none := by
  rw [perform_call, Store.get?_remove]
  cases s.get? id with
  | none => exact .inl rfl
  | some r =>
      rw [Option.filter_some]
      split
      · exact .inl rfl
      · exact .inr rfl

end Deletion

/-! ## The store of a pass that is left alone -/

namespace Store

/-- The first `n` records of the batch are delivered, the others of it are locked. -/
def delivering (clock : Nat → Instant) (s : Store) (machine : MachineId) : (n : Nat) → Store
  | 0 => s.claim machine (clock 0) .pending
  | n + 1 =>
    match (s.batch machine)[n]? with
    | some r => (delivering clock s machine n).save (r.accepted (clock (2 * n + 2)) (clock (2 * n + 3)))
    | none => delivering clock s machine n

variable {clock : Nat → Instant} {s : Store} {machine : MachineId} {i n : Nat} {r u : Record} {id : RecordId}

theorem delivering_succ (hr : (s.batch machine)[n]? = some r) : s.delivering clock machine (n + 1) =
    (s.delivering clock machine n).save (r.accepted (clock (2 * n + 2)) (clock (2 * n + 3))) := by
  rw [delivering, hr]

theorem delivering_of_end (hr : (s.batch machine)[n]? = none) :
    s.delivering clock machine (n + 1) = s.delivering clock machine n := by
  rw [delivering, hr]

theorem isSome_get?_delivering : ((s.delivering clock machine n).get? id).isSome = (s.get? id).isSome := by
  induction n with
  | zero => rw [delivering, get?_claim, Option.isSome_map]
  | succ n ih =>
      cases hu : (s.batch machine)[n]? with
      | none => rw [delivering_of_end hu, ih]
      | some u =>
          rw [delivering_succ hu, get?_save]
          split
          · rw [Option.isSome_map, ih]
          · exact ih

theorem get?_delivering_other (h : ∀ r ∈ s.batch machine, r.id ≠ id) :
    (s.delivering clock machine n).get? id = (s.claim machine (clock 0) .pending).get? id := by
  induction n with
  | zero => rfl
  | succ n ih =>
      cases hu : (s.batch machine)[n]? with
      | none => rw [delivering_of_end hu, ih]
      | some u =>
          rw [delivering_succ hu, get?_save]
          exact (if_neg (h u (List.mem_of_getElem? hu))).trans ih

theorem id_ne_of_getElem? (hr : (s.batch machine)[i]? = some r) (hu : (s.batch machine)[n]? = some u)
    (h : i ≠ n) : r.id ≠ u.id := by
  have hi : ((s.batch machine).map Record.id)[i]? = some r.id := by rw [List.getElem?_map, hr]; rfl
  have hn : ((s.batch machine).map Record.id)[n]? = some u.id := by rw [List.getElem?_map, hu]; rfl
  intro he
  refine h ((List.getElem?_inj (List.getElem?_eq_some_iff.1 hi).1 (s.nodup_sorted _)).1 ?_)
  rw [hi, hn, he]

theorem get?_delivering_succ_of_ne (hr : (s.batch machine)[i]? = some r) (h : i ≠ n) :
    (s.delivering clock machine (n + 1)).get? r.id = (s.delivering clock machine n).get? r.id := by
  cases hu : (s.batch machine)[n]? with
  | none => rw [delivering_of_end hu]
  | some u =>
      rw [delivering_succ hu, get?_save]
      exact if_neg (id_ne_of_getElem? hr hu h).symm

theorem get?_delivering (hr : (s.batch machine)[i]? = some r) : (s.delivering clock machine n).get? r.id =
    some (if i < n then r.accepted (clock (2 * i + 2)) (clock (2 * i + 3))
      else claimed machine (clock 0) r) := by
  induction n with
  | zero =>
      rw [delivering, get?_claim, get?_of_mem (mem_batch.1 (List.mem_of_getElem? hr)).1]
      rfl
  | succ n ih =>
      by_cases hi : i = n
      · subst hi
        rw [delivering_succ hr, get?_save, if_pos (Nat.lt_succ_self i)]
        exact (if_pos rfl).trans (by rw [ih]; rfl)
      · have hlt : i < n + 1 ↔ i < n := by omega
        rw [get?_delivering_succ_of_ne hr hi, ih]
        simp only [hlt]

end Store

/-! ## As far as others have left it -/

/-- `now` is the store of a pass that has delivered the first `n` records of its batch, and `visits` is what
others have done to it. -/
structure Spared (clock : Nat → Instant) (answers : Nat → Except BrokerError Unit) (s : Pass.Settings)
    (store : Store) (n : Nat) (now : Store) (visits : List Visit) : Prop where
  le : n ≤ (store.batch s.machine).length
  answered : ∀ i < n, answers i = .ok ()
  spared : ∀ {id}, (∀ v ∈ visits, ¬ v.Deletes id) →
    now.get? id = (store.delivering clock s.machine n).get? id
  gone : ∀ {id}, (∃ v ∈ visits, v.Deletes id) → now.get? id = none
  /-- Until it was deleted a record stood as it would have without the others. -/
  found : ∀ v ∈ visits, ∀ {id}, v.Deletes id →
    v.found.get? id = (store.delivering clock s.machine v.during).get? id
  /-- A delivered record was not deleted before it was saved. -/
  saved : ∀ v ∈ visits, ∀ {i r}, (store.batch s.machine)[i]? = some r → i < n → v.Deletes r.id → i < v.during

namespace Spared

variable {clock : Nat → Instant} {answers : Nat → Except BrokerError Unit} {s : Pass.Settings}
  {store now : Store} {vs : List Visit} {n : Nat} {u : Record}

theorem start : Spared clock answers s store 0 (store.claim s.machine (clock 0) .pending) [] where
  le := Nat.zero_le _
  answered _ hi := absurd hi (Nat.not_lt_zero _)
  spared _ := rfl
  gone h := by obtain ⟨v, hv, -⟩ := h; cases hv
  found _ hv := nomatch hv
  saved _ hv := nomatch hv

/-- Others delete records during send `n`. -/
theorem visit (h : Spared clock answers s store n now vs) (d : Deletion) :
    Spared clock answers s store n (now.perform d.call).2 (⟨n, now, d.call⟩ :: vs) where
  le := h.le
  answered := h.answered
  spared {id} hno := by
    obtain ⟨hnew, hold⟩ := List.forall_mem_cons.1 hno
    rw [← h.spared hold]
    rcases d.get?_perform_call now id with he | hnone
    · exact he
    · cases hv : now.get? id with
      | none => exact hnone
      | some r => exact absurd ⟨Option.isSome_of_mem hv, hnone⟩ hnew
  gone {id} hdel := by
    obtain ⟨v, hv, hd⟩ := hdel
    rcases List.mem_cons.1 hv with rfl | hv
    · exact hd.2
    · have hnone := h.gone ⟨v, hv, hd⟩
      exact (d.get?_perform_call now id).elim (·.trans hnone) fun he => he
  found v hv id hd := by
    rcases List.mem_cons.1 hv with rfl | hv
    · refine h.spared fun v hv hd' => ?_
      have hfound := hd.1
      rw [h.gone ⟨v, hv, hd'⟩] at hfound
      cases hfound
    · exact h.found v hv hd
  saved v hv i r hr hi hd := by
    rcases List.mem_cons.1 hv with rfl | hv
    · exact hi
    · exact h.saved v hv hr hi hd

theorem visits {w : Shared} (h : Spared clock answers s store n w.store w.visits) (hn : w.sent.length = n)
    (ds : List Deletion) : Spared clock answers s store n
      ((ds.map Deletion.call).foldl Shared.visit w).store ((ds.map Deletion.call).foldl Shared.visit w).visits := by
  induction ds generalizing w with
  | nil => exact h
  | cons d ds ih =>
      refine ih (w := w.visit d.call) ?_ hn
      rw [Shared.visit, hn]
      exact h.visit d

/-- The next record of the batch is there, and is delivered. -/
theorem next (h : Spared clock answers s store n now vs) (hu : (store.batch s.machine)[n]? = some u)
    (ha : answers n = .ok ()) (hno : ∀ v ∈ vs, ¬ v.Deletes u.id) :
    Spared clock answers s store (n + 1)
      (now.save (u.accepted (clock (2 * n + 2)) (clock (2 * n + 3)))) vs where
  le := (List.getElem?_eq_some_iff.1 hu).1
  answered i hi := by
    rcases Nat.lt_succ_iff_lt_or_eq.1 hi with hi | rfl
    · exact h.answered i hi
    · exact ha
  spared hid := by rw [Store.delivering_succ hu, Store.get?_save, Store.get?_save, h.spared hid]
  gone hdel := by
    rw [Store.get?_save, h.gone hdel]
    exact ite_self _
  found := h.found
  saved v hv i r hr hi hd := by
    rcases Nat.lt_succ_iff_lt_or_eq.1 hi with hi | rfl
    · exact h.saved v hv hr hi hd
    · obtain rfl : u = r := Option.some.inj (hu.symm.trans hr)
      exact absurd hd (hno v hv)

end Spared

/-! ## The whole pass -/

/-- How a pass ends that has delivered the first `n` records of its batch, and with which result. -/
inductive Ending (clock : Nat → Instant) (answers : Nat → Except BrokerError Unit) (s : Pass.Settings)
    (store : Store) (n : Nat) (w : Shared) : Option (Except OutboxError Report) → Prop where
  | complete (hn : n = (store.batch s.machine).length) :
      Ending clock answers s store n w (some (.ok ⟨store.count (Store.Claimable .pending), n⟩))
  /-- The next record was deleted before it was saved, whatever the broker has answered. -/
  | missed {r} (hr : (store.batch s.machine)[n]? = some r) (hd : w.Deleted r.id) :
      Ending clock answers s store n w
        (some (.error (.store "outbox.memory.update_record_by_id" (.recordNotFound r.id))))
  | refused {r e} (hr : (store.batch s.machine)[n]? = some r) (hno : ¬ w.Deleted r.id)
      (ha : answers n = .error e)
      (hv : w.store.get? r.id = some (r.refused s.policy (clock (2 * n + 2)) e.message)) :
      Ending clock answers s store n w (some (.error (.delivery r.id (r.attempts + 1) e)))

/-- What a pass comes to during which others delete records. -/
structure Curtailed (clock : Nat → Instant) (answers : Nat → Except BrokerError Unit) (s : Pass.Settings)
    (store : Store) (n : Nat) (w : Shared) : Prop where
  le_length : n ≤ (store.batch s.machine).length
  sent : w.sent = ((store.batch s.machine).take (n + 1)).map Record.message
  stored : ∀ id, (w.store.get? id).isSome ↔ (store.get? id).isSome ∧ ¬ w.Deleted id
  /-- Where a delivered record was deleted, that was in a later send, after it had been saved. -/
  delivered : ∀ {i r}, (store.batch s.machine)[i]? = some r → i < n → answers i = .ok () ∧
    (∀ v ∈ w.visits, v.Deletes r.id → i < v.during ∧
      v.found.get? r.id = some (r.accepted (clock (2 * i + 2)) (clock (2 * i + 3)))) ∧
    (¬ w.Deleted r.id → w.store.get? r.id = some (r.accepted (clock (2 * i + 2)) (clock (2 * i + 3))))
  waiting : ∀ {i r}, (store.batch s.machine)[i]? = some r → n < i → ¬ w.Deleted r.id →
    w.store.get? r.id = some { r with lock := none }
  other : ∀ {id}, (∀ r ∈ store.batch s.machine, r.id ≠ id) → ¬ w.Deleted id →
    w.store.get? id = store.get? id

namespace Spared

variable {clock : Nat → Instant} {answers : Nat → Except BrokerError Unit} {s : Pass.Settings}
  {store now : Store} {n : Nat} {u : Record} {w : Shared}

/-- At the end the locks are released, and at most the last record has changed besides. -/
theorem curtailed (h : Spared clock answers s store n now w.visits)
    (hsent : w.sent = ((store.batch s.machine).take (n + 1)).map Record.message)
    (hsame : ∀ {id}, (∀ r ∈ (store.batch s.machine)[n]?, r.id ≠ id) →
      w.store.get? id = (now.unlock (Store.OwnedBy s.machine)).get? id)
    (hkept : ∀ id, (w.store.get? id).isSome = (now.get? id).isSome) :
    Curtailed clock answers s store n w := by
  have spared : ∀ {id}, ¬ w.Deleted id →
      now.get? id = (store.delivering clock s.machine n).get? id :=
    fun hno => h.spared fun v hv hd => hno ⟨v, hv, hd⟩
  have member : ∀ {i r}, (store.batch s.machine)[i]? = some r → i ≠ n → ¬ w.Deleted r.id →
      w.store.get? r.id = ((store.delivering clock s.machine n).unlock (Store.OwnedBy s.machine)).get? r.id := by
    intro i r hr hi hno
    rw [hsame fun u hu => (Store.id_ne_of_getElem? hr hu hi).symm, Store.get?_unlock, Store.get?_unlock,
      spared hno]
  constructor
  · exact h.le
  · exact hsent
  · intro id
    rw [hkept]
    by_cases hd : w.Deleted id
    · simp [h.gone hd, hd]
    · simp [spared hd, Store.isSome_get?_delivering, hd]
  · intro i r hr hi
    refine ⟨h.answered i hi, fun v hv hd => ⟨h.saved v hv hr hi hd, ?_⟩, fun hno => ?_⟩
    · rw [h.found v hv hd, Store.get?_delivering hr, if_pos (h.saved v hv hr hi hd)]
    · rw [member hr (Nat.ne_of_lt hi) hno, Store.get?_unlock, Store.get?_delivering hr, if_pos hi]
      rfl
  · intro i r hr hi hno
    have howned := (List.mem_filter.1 (List.mem_mergeSort.1 (List.mem_of_getElem? hr))).2
    rw [member hr (Nat.ne_of_gt hi) hno, Store.get?_unlock, Store.get?_delivering hr,
      if_neg (Nat.not_lt_of_le (Nat.le_of_lt hi)), Option.map_some, Store.ownedBy_claimed, if_pos howned,
      Store.unlocked_claimed]
    rfl
  · intro id hid hno
    rw [hsame fun u hu => hid u (List.mem_of_getElem? hu), Store.get?_unlock, spared hno,
      Store.get?_delivering_other hid, ← Store.get?_unlock]
    exact Pass.get?_untouched hid

end Spared

namespace Pass

variable {clock : Nat → Instant} {answers : Nat → Except BrokerError Unit} {deletions : Nat → List Deletion}
  {s : Settings} {store : Store} {n m : Nat} {u : Record} {w : Shared}

/-- What a copy has under the lock of the pass does not matter once an attempt is on it. -/
theorem accepted_claimed {machine : MachineId} {now tried done : Instant} :
    (Store.claimed machine now u).accepted tried done = u.accepted tried done := by
  obtain ⟨lock, he⟩ := Store.claimed_eq machine now u
  rw [he]
  rfl

theorem refused_claimed {machine : MachineId} {now tried : Instant} {policy : RetrialPolicy} {text : String} :
    (Store.claimed machine now u).refused policy tried text = u.refused policy tried text := by
  obtain ⟨lock, he⟩ := Store.claimed_eq machine now u
  rw [he]
  rfl

/-- A pass that has delivered `n` records of its batch and sent the first `m`. -/
structure Stands (clock : Nat → Instant) (answers : Nat → Except BrokerError Unit) (s : Settings)
    (store : Store) (n m : Nat) (w : Shared) : Prop where
  spared : Spared clock answers s store n w.store w.visits
  sent : w.sent = ((store.batch s.machine).take m).map Record.message
  asked : w.asked = n + m + 2

/-- The pass has ended, and as it should. -/
def Over (clock : Nat → Instant) (answers : Nat → Except BrokerError Unit) (s : Settings) (store : Store)
    (out : Pass × Shared) : Prop :=
  ∃ n result, out.1 = finished result ∧ Curtailed clock answers s store n out.2 ∧
    Ending clock answers s store n out.2 (some result)

/-- What others ask of the store while the broker has message `n`. -/
def deleting (deletions : Nat → List Deletion) (n : Nat) : List (Call .count) :=
  (deletions n).map Deletion.call

namespace Stands

variable {report : Report} {rest : List Record} {v : Record} {failure : Option BrokerError}

/-- The next message is with the broker, and others delete records. -/
theorem send (deletions : Nat → List Deletion) (h : Stands clock answers s store n n w) (hu : (store.batch s.machine)[n]? = some u) :
    ∃ w', (Shared.host clock answers (deleting deletions)).send u.message w = (some (answers n), w') ∧
      Stands clock answers s store n (n + 1) w' := by
  have hn : w.sent.length = n := by rw [h.sent, List.length_map, List.length_take_of_le h.spared.le]
  refine ⟨((Shared.host clock answers (deleting deletions)).send u.message w).2, ?_, ?_⟩
  · rw [← hn]
    rfl
  · constructor
    · exact h.spared.visits hn (deletions w.sent.length)
    · rw [List.take_add_one, hu, List.map_append, ← h.sent]
      rfl
    · show w.asked + 1 = _
      rw [h.asked]
      omega

theorem there (h : Stands clock answers s store n m w) (hu : (store.batch s.machine)[n]? = some u)
    (hno : ¬ w.Deleted u.id) : (w.store.get? u.id).isSome := by
  rw [h.spared.spared fun v hv hd => hno ⟨v, hv, hd⟩, Store.isSome_get?_delivering,
    Store.get?_of_mem (Store.mem_batch.1 (List.mem_of_getElem? hu)).1]
  rfl

theorem unlock (h : Stands clock answers s store n m w)
    (hm : (store.batch s.machine).take m = (store.batch s.machine).take (n + 1)) (asked : Nat) :
    Curtailed clock answers s store n
      { w with store := w.store.unlock (Store.OwnedBy s.machine), asked } := by
  refine Spared.curtailed h.spared ?_ (fun _ => rfl) fun id => ?_
  · rw [← hm]
    exact h.sent
  · rw [Store.get?_unlock, Option.isSome_map]

theorem finish (h : Stands clock answers s store n n w) (hn : n = (store.batch s.machine).length) :
    Over clock answers s store (advance (Shared.host clock answers (deleting deletions)) s
      (proceed ⟨store.count (Store.Claimable .pending), n⟩ []) w) := by
  rw [proceed, advance_shared_releasing]
  refine ⟨n, _, rfl, h.unlock ?_ _, .complete hn⟩
  rw [List.take_of_length_le (Nat.le_of_eq hn.symm), List.take_of_length_le (by omega)]

theorem miss (h : Stands clock answers s store n (n + 1) w) (hu : (store.batch s.machine)[n]? = some u)
    (hd : w.Deleted u.id) (hv : v.id = u.id) :
    Over clock answers s store (advance (Shared.host clock answers (deleting deletions)) s
      (saving report v failure rest) w) := by
  rw [advance_shared_missing (hv ▸ h.spared.gone hd)]
  exact ⟨n, _, rfl, h.unlock rfl _, hv ▸ .missed hu hd⟩

/-- A failure is saved. -/
theorem refuse (h : Stands clock answers s store n (n + 1) w) (hu : (store.batch s.machine)[n]? = some u)
    {e : BrokerError} (ha : answers n = .error e) (hno : ¬ w.Deleted u.id) :
    Over clock answers s store (advance (Shared.host clock answers (deleting deletions)) s
      (saving report (u.refused s.policy (clock (2 * n + 2)) e.message) (some e) rest) w) := by
  obtain ⟨v, hv⟩ := Option.isSome_iff_exists.1 (h.there hu hno)
  rw [advance_shared_saving (r := u.refused s.policy (clock (2 * n + 2)) e.message) hv, saved,
    advance_shared_releasing]
  refine ⟨n, _, rfl, ?_, .refused hu hno ha (get?_released (h.there hu hno :) rfl)⟩
  refine Spared.curtailed h.spared h.sent (fun {id} hid => ?_) fun id => ?_
  · have hne : u.id ≠ id := hid u hu
    rw [Store.get?_unlock, Store.get?_save, Store.get?_unlock]
    exact congrArg _ (if_neg hne)
  · rw [Store.get?_unlock, Option.isSome_map, Store.get?_save]
    split
    · rw [Option.isSome_map]
    · rfl

theorem deliver (h : Stands clock answers s store n (n + 1) w) (hu : (store.batch s.machine)[n]? = some u)
    (ha : answers n = .ok ()) (hno : ¬ w.Deleted u.id) :
    ∃ w', advance (Shared.host clock answers (deleting deletions)) s
        (saving report (u.accepted (clock (2 * n + 2)) (clock (2 * n + 3))) none rest) w =
          advance (Shared.host clock answers (deleting deletions)) s
            (proceed ⟨report.claimed, report.delivered + 1⟩ rest) w' ∧
      Stands clock answers s store (n + 1) (n + 1) w' := by
  obtain ⟨v, hv⟩ := Option.isSome_iff_exists.1 (h.there hu hno)
  refine ⟨_, advance_shared_saving (r := u.accepted (clock (2 * n + 2)) (clock (2 * n + 3))) hv, ?_⟩
  refine ⟨h.spared.next hu ha fun v hv hd => hno ⟨v, hv, hd⟩, h.sent, ?_⟩
  show w.asked + 1 = _
  rw [h.asked]
  omega

theorem ends (deletions : Nat → List Deletion) (hl : ∀ r ∈ store.records, r.lock ≠ none → r.state = .pending)
    (hroom : ∀ r ∈ store.batch s.machine, r.attempts < Record.maxAttempts) (us : List Record)
    (h : Stands clock answers s store n n w) (hus : (store.batch s.machine).drop n = us) :
    Over clock answers s store (advance (Shared.host clock answers (deleting deletions)) s
      (proceed ⟨store.count (Store.Claimable .pending), n⟩ (us.map (Store.claimed s.machine (clock 0)))) w) := by
  induction us generalizing n w with
  | nil => exact h.finish (Nat.le_antisymm h.spared.le (List.drop_eq_nil_iff.1 hus))
  | cons u us ih =>
      have hu : (store.batch s.machine)[n]? = some u := by rw [← List.head?_drop, hus]; rfl
      have hrest : (store.batch s.machine).drop (n + 1) = us := by rw [← List.tail_drop, hus]; rfl
      have hmem : u ∈ store.batch s.machine := List.mem_of_getElem? hu
      obtain ⟨lock, hcopy⟩ := Store.claimed_eq s.machine (clock 0) u
      have hp : (Store.claimed s.machine (clock 0) u).state = .pending := by
        rw [hcopy]
        exact Store.pending_of_mem_batch (r := u) hl hmem
      have hlt : (Store.claimed s.machine (clock 0) u).attempts < Record.maxAttempts := by
        rw [hcopy]
        exact hroom u hmem
      obtain ⟨w₁, hsend, h₁⟩ := h.send deletions hu
      rw [show u.message = (Store.claimed s.machine (clock 0) u).message by rw [hcopy]] at hsend
      have htried : (Shared.host clock answers (deleting deletions)).now w = some (clock (2 * n + 2)) := by
        rw [Nat.two_mul, ← h.asked]
        rfl
      have hdone : (Shared.host clock answers (deleting deletions)).now w₁ = some (clock (2 * n + 3)) := by
        rw [show 2 * n + 3 = n + (n + 1) + 2 by omega, ← h₁.asked]
        rfl
      cases ha : answers n with
      | error e =>
          rw [List.map_cons, advance_refusing hp hlt htried (ha ▸ hsend), refused_claimed]
          by_cases hd : w₁.Deleted u.id
          · exact h₁.miss hu hd rfl
          · exact h₁.refuse hu ha hd
      | ok =>
          rw [List.map_cons, advance_accepting hp hlt htried (ha ▸ hsend) hdone, accepted_claimed]
          by_cases hd : w₁.Deleted u.id
          · exact h₁.miss hu hd rfl
          · obtain ⟨w₂, hadv, h₂⟩ := h₁.deliver hu ha hd
            rw [hadv]
            exact ih h₂ hrest

end Stands

end Pass

/-- A pass during which others delete records ends at the first record that was deleted before it could be
saved, or at the first refusal if that comes earlier, and brings nothing back. -/
theorem deliverBatch_curtailed (clock : Nat → Instant) (answers : Nat → Except BrokerError Unit)
    (deletions : Nat → List Deletion) (s : Pass.Settings) (store : Store)
    (hl : ∀ r ∈ store.records, r.lock ≠ none → r.state = .pending)
    (ha : ∀ r ∈ store.batch s.machine, r.attempts < Record.maxAttempts) :
    ∃ n result w, deliverBatch (Shared.host clock answers fun n => (deletions n).map Deletion.call) s
        { store } = (some result, w) ∧
      Curtailed clock answers s store n w ∧ Ending clock answers s store n w (some result) := by
  have hstart : Pass.Stands clock answers s store 0 0
      { store := store.claim s.machine (clock 0) .pending, asked := 2 } := ⟨.start, rfl, rfl⟩
  obtain ⟨n, result, hover, hcurtailed, hend⟩ := hstart.ends deletions hl ha _ rfl
  refine ⟨n, result, _, ?_, hcurtailed, hend⟩
  rw [deliverBatch, Pass.advance_shared_opening]
  exact Prod.ext (congrArg Pass.result? hover) rfl

/-- While the broker has the first message, everything is deleted. -/
theorem deliverBatch_curtailed_mixed :
    (∀ r ∈ Store.mixed.records, r.lock ≠ none → r.state = .pending) ∧
      (∀ r ∈ Store.mixed.batch ⟨"a"⟩, r.attempts < Record.maxAttempts) ∧
      ∃ n result w, deliverBatch (Shared.host (fun _ => default) (fun _ => .ok ())
          fun n => (if n = 0 then [⟨.latest, false⟩] else []).map Deletion.call)
          ⟨⟨"a"⟩, .limited 1⟩ { store := .mixed } = (some result, w) ∧
        Curtailed (fun _ => default) (fun _ => .ok ()) ⟨⟨"a"⟩, .limited 1⟩ .mixed n w ∧
        Ending (fun _ => default) (fun _ => .ok ()) ⟨⟨"a"⟩, .limited 1⟩ .mixed n w (some result) := by
  exact ⟨Store.mixed_pending, Store.mixed_room,
    deliverBatch_curtailed _ _ (fun n => if n = 0 then [⟨.latest, false⟩] else []) _ _ Store.mixed_pending
      Store.mixed_room⟩

end Outbox

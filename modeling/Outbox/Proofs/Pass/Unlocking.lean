import Outbox.Proofs.Pass.Sharing

/-!
# Locks cleared during a pass

Others may clear locks while a pass waits for the broker, its own locks and anybody's. It does not notice,
and they might as well have waited for its end.
-/

namespace Outbox

namespace Store

variable {s : Store} {p q : Record → Bool} {r : Record}

/-- The calls of others, one for each cutoff. -/
def expire (s : Store) (cutoffs : List Instant) : Store :=
  cutoffs.foldl (fun s cutoff => (s.perform (.unlockBefore cutoff)).2) s

theorem expire_append (cutoffs cutoffs' : List Instant) :
    s.expire (cutoffs ++ cutoffs') = (s.expire cutoffs).expire cutoffs' := List.foldl_append

theorem unlock_comm : (s.unlock p).unlock q = (s.unlock q).unlock p := by
  refine ext ?_
  show (s.records.map _).map _ = (s.records.map _).map _
  rw [List.map_map, List.map_map]
  refine List.map_congr_left fun r _ => ?_
  cases hp : p r <;> cases hq : q r <;> simp [hp, hq, Record.unlocked]

/-- What a pass saves has no lock to clear. -/
theorem unlock_save (hr : r.lock = none) : (s.save r).unlock p = (s.unlock p).save r := by
  have hunlocked : r.unlocked = r := by rw [Record.unlocked, ← hr]
  refine ext ?_
  show (s.records.map _).map _ = (s.records.map _).map _
  rw [List.map_map, List.map_map]
  refine List.map_congr_left fun v _ => ?_
  have hid : (if p v then v.unlocked else v).id = v.id := by split <;> rfl
  simp only [Function.comp_apply, hid]
  by_cases hv : v.id = r.id <;> simp [hv, hunlocked]

theorem expire_unlock (cutoffs : List Instant) : (s.unlock p).expire cutoffs = (s.expire cutoffs).unlock p := by
  induction cutoffs generalizing s with
  | nil => rfl
  | cons cutoff cutoffs ih =>
      show ((s.unlock p).unlock (LockedBefore cutoff)).expire cutoffs = _
      rw [unlock_comm, ih]
      rfl

theorem expire_save (hr : r.lock = none) (cutoffs : List Instant) :
    (s.save r).expire cutoffs = (s.expire cutoffs).save r := by
  induction cutoffs generalizing s with
  | nil => rfl
  | cons cutoff cutoffs ih =>
      show ((s.save r).unlock (LockedBefore cutoff)).expire cutoffs = _
      rw [unlock_save hr, ih]
      rfl

theorem isSome_get?_expire (cutoffs : List Instant) (id : RecordId) :
    ((s.expire cutoffs).get? id).isSome = (s.get? id).isSome := by
  induction cutoffs generalizing s with
  | nil => rfl
  | cons cutoff cutoffs ih =>
      refine (ih (s := s.unlock (LockedBefore cutoff))).trans ?_
      rw [get?_unlock, Option.isSome_map]

/-- Whether a save finds its record does not depend on locks. -/
theorem perform_save_expire (cutoffs : List Instant) :
    ((s.expire cutoffs).perform (.save r)).1 = (s.perform (.save r)).1 := by
  have hfound := s.isSome_get?_expire cutoffs r.id
  cases hv : s.get? r.id <;> cases hv' : (s.expire cutoffs).get? r.id <;> simp_all [perform]

end Store

namespace Pass

/-- A pass with its batch in hand. What it saves is not locked. -/
def HasBatch : Pass → Prop
  | opening | claiming _ | fetching _ => False
  | saving _ r _ _ => r.lock = none
  | _ => True

variable {s : Settings} {p : Pass}

theorem hasBatch_proceed (report : Report) (batch : List Record) : (proceed report batch).HasBatch := by
  cases batch <;> trivial

theorem hasBatch_saved {report : Report} {r : Record} {failure : Option BrokerError} {rest : List Record}
    (a : Except OutboxError Unit) : (saved report r failure rest a).1.HasBatch := by
  unfold saved
  split
  · exact hasBatch_proceed ..
  · trivial
  · trivial

theorem HasBatch.now (h : p.HasBatch) {resume : Instant → Pass} (hp : p.next s = some (.now resume))
    (t : Instant) : (resume t).HasBatch := by
  cases p <;> cases hp
  case opening => exact h.elim
  case starting => unfold started; split <;> trivial
  case accepted report r rest =>
    unfold delivered
    split
    · rename_i r' hr
      obtain ⟨-, rfl⟩ := Record.markDelivered_eq_ok_iff.1 hr
      rfl
    · trivial

theorem HasBatch.send (h : p.HasBatch) {m : Message} {resume : Except BrokerError Unit → Pass}
    (hp : p.next s = some (.send m resume)) (a : Except BrokerError Unit) : (resume a).HasBatch := by
  cases p <;> cases hp
  unfold sent
  split
  · trivial
  · split
    · rename_i r' hr
      obtain ⟨-, rfl⟩ := Record.markFailed_eq_ok_iff.1 hr
      rfl
    · trivial

end Pass

/-! ## Side by side -/

/-- Where the pass stands that is left alone, `v`, the other one stands but for the locks cleared so far. -/
structure Alongside (cutoffs : Nat → List Instant) (w : Shared) (v : Solo) : Prop where
  sent : w.sent = v.sent
  asked : w.asked = v.asked
  store : w.store = v.store.expire ((List.range v.sent.length).flatMap cutoffs)

namespace Alongside

variable (clock : Nat → Instant) (answers : Nat → Except BrokerError Unit) {cutoffs : Nat → List Instant}
  {s : Pass.Settings} {p : Pass} {w : Shared} {v : Solo}

/-- What others ask of the store while the broker has message `n`. -/
def calls (cutoffs : Nat → List Instant) (n : Nat) : List (Call .count) := (cutoffs n).map .unlockBefore

theorem store_foldl_visit (cs : List Instant) (w : Shared) :
    ((cs.map Call.unlockBefore).foldl Shared.visit w).store = w.store.expire cs := by
  induction cs generalizing w with
  | nil => rfl
  | cons c cs ih => exact ih (w.visit (.unlockBefore c))

theorem send (h : Alongside cutoffs w v) (m : Message) :
    ((Shared.host clock answers (calls cutoffs)).send m w).1 = ((Solo.host clock answers).send m v).1 ∧
      Alongside cutoffs ((Shared.host clock answers (calls cutoffs)).send m w).2
        ((Solo.host clock answers).send m v).2 := by
  refine ⟨congrArg (fun ms => some (answers (List.length ms))) h.sent, ?_⟩
  constructor
  · exact congrArg (· ++ [m]) h.sent
  · exact congrArg (· + 1) h.asked
  · show (((cutoffs w.sent.length).map Call.unlockBefore).foldl Shared.visit w).store = _
    rw [store_foldl_visit, h.store, h.sent, ← Store.expire_append]
    show _ = v.store.expire ((List.range (v.sent ++ [m]).length).flatMap cutoffs)
    rw [List.length_append, List.length_singleton, List.range_succ, List.flatMap_append, List.flatMap_singleton]

theorem call (h : Alongside cutoffs w v) (hp : p.HasBatch) {a : Answer} {c : Call a}
    {resume : Except OutboxError a.Val → Pass × List LogEntry} (hc : p.next s = some (.call c resume)) :
    (resume ((Shared.host clock answers (calls cutoffs)).call c w).1).1 =
        (resume ((Solo.host clock answers).call c v).1).1 ∧
      Alongside cutoffs ((Shared.host clock answers (calls cutoffs)).call c w).2
        ((Solo.host clock answers).call c v).2 ∧
      (resume ((Solo.host clock answers).call c v).1).1.HasBatch := by
  cases p <;> cases hc
  case claiming => exact hp.elim
  case fetching => exact hp.elim
  case saving report r failure rest =>
    refine ⟨?_, ⟨h.sent, congrArg (· + 1) h.asked, ?_⟩, Pass.hasBatch_saved _⟩
    · show (Pass.saved report r failure rest (w.store.perform (.save r)).1).1 = _
      rw [h.store, Store.perform_save_expire]
      rfl
    · show (w.store.perform (.save r)).2 =
        Store.expire (v.store.perform (.save r)).2 ((List.range v.sent.length).flatMap cutoffs)
      rw [Store.perform_save_snd, Store.perform_save_snd, Store.expire_save hp, h.store]
  case releasing result =>
    refine ⟨rfl, ⟨h.sent, congrArg (· + 1) h.asked, ?_⟩, trivial⟩
    show w.store.unlock _ = (v.store.unlock _).expire ((List.range v.sent.length).flatMap cutoffs)
    rw [Store.expire_unlock, h.store]

/-- The two passes stay side by side to their ends. -/
theorem advance (h : Alongside cutoffs w v) (hp : p.HasBatch) :
    (Pass.advance (Shared.host clock answers (calls cutoffs)) s p w).1 =
        (Pass.advance (Solo.host clock answers) s p v).1 ∧
      Alongside cutoffs (Pass.advance (Shared.host clock answers (calls cutoffs)) s p w).2
        (Pass.advance (Solo.host clock answers) s p v).2 := by
  fun_induction Pass.advance (Solo.host clock answers) s p v generalizing w with
  | case1 p v hn => rw [Pass.advance_over hn]; exact ⟨rfl, h⟩
  | case2 p v resume hn ht => cases ht
  | case3 p v resume hn t ht _ ih =>
      have ht' : (Shared.host clock answers (calls cutoffs)).now w = some t := by
        rw [← ht]
        exact congrArg (fun n => some (clock n)) h.asked
      rw [Pass.advance_now hn ht']
      exact ih h (hp.now hn t)
  | case4 p v a c resume hn answer v' he _ ih =>
      obtain ⟨hresume, hnext, hbatch⟩ := h.call clock answers hp hn
      rw [Pass.advance_call hn, Shared.logAll_host, hresume]
      rw [he] at hnext hbatch ⊢
      rw [Pass.logAll_host] at ih ⊢
      exact ih hnext hbatch
  | case5 p v m resume hn v' ha => cases ha
  | case6 p v m resume hn a v' ha _ ih =>
      obtain ⟨hanswer, hnext⟩ := h.send clock answers m
      rw [ha] at hanswer hnext
      rw [Pass.advance_send hn (Prod.ext hanswer rfl)]
      exact ih hnext (hp.send hn a)

end Alongside

/-! ## The whole pass -/

/-- A pass during which others clear locks sends the same messages in the same order and has the same
result as one that is left alone, and clearing the locks after that one gives the same store. -/
theorem unlocking_unnoticed (clock : Nat → Instant) (answers : Nat → Except BrokerError Unit)
    (cutoffs : Nat → List Instant) (s : Pass.Settings) (store : Store)
    (hl : ∀ r ∈ store.records, r.lock ≠ none → r.state = .pending)
    (ha : ∀ r ∈ store.batch s.machine, r.attempts < Record.maxAttempts) :
    ∃ result alone shared, deliverBatch (Solo.host clock answers) s { store } = (some result, alone) ∧
      deliverBatch (Shared.host clock answers fun n => (cutoffs n).map .unlockBefore) s { store } =
        (some result, shared) ∧
      shared.sent = alone.sent ∧
      shared.store = alone.store.expire ((List.range alone.sent.length).flatMap cutoffs) := by
  obtain ⟨n, p, alone, hadv, hset⟩ : ∃ n p alone, Pass.advance (Solo.host clock answers) s _ _ = (p, alone) ∧
      Settled clock answers s _ _ _ n p alone :=
    Pass.settled _ ⟨store.count (Store.Claimable .pending), 0⟩ ⟨_, [], 2⟩
      (fun c hc => Pass.deliverable_claimed hl ha hc) Store.nodup_claimed
  obtain ⟨result, rfl⟩ := hset.exists_result
  have hstart : Alongside cutoffs { store := store.claim s.machine (clock 0) .pending, asked := 2 }
      ⟨store.claim s.machine (clock 0) .pending, [], 2⟩ := ⟨rfl, rfl, rfl⟩
  obtain ⟨hend, hbeside⟩ := hstart.advance clock answers (s := s)
    (Pass.hasBatch_proceed ⟨store.count (Store.Claimable .pending), 0⟩
      ((store.batch s.machine).map (Store.claimed s.machine (clock 0))))
  rw [hadv] at hend hbeside
  refine ⟨result, alone, _, ?_, ?_, hbeside.sent, hbeside.store⟩
  · rw [deliverBatch, Pass.advance_opening, hadv]
    rfl
  · rw [deliverBatch, Pass.advance_shared_opening]
    exact Prod.ext (congrArg Pass.result? hend) rfl

/-- While the broker has the first message, all locks are cleared, those of the pass itself and of another
machine. -/
theorem unlocking_unnoticed_mixed :
    (∀ r ∈ Store.mixed.records, r.lock ≠ none → r.state = .pending) ∧
      (∀ r ∈ Store.mixed.batch ⟨"a"⟩, r.attempts < Record.maxAttempts) ∧
      ∃ result alone shared,
        deliverBatch (Solo.host (fun _ => default) fun _ => .ok ()) ⟨⟨"a"⟩, .limited 1⟩ { store := .mixed } =
          (some result, alone) ∧
        deliverBatch (Shared.host (fun _ => default) (fun _ => .ok ())
            fun n => (if n = 0 then [Instant.latest] else []).map .unlockBefore)
          ⟨⟨"a"⟩, .limited 1⟩ { store := .mixed } = (some result, shared) ∧
        shared.sent = alone.sent ∧
        shared.store = alone.store.expire
          ((List.range alone.sent.length).flatMap fun n => if n = 0 then [Instant.latest] else []) := by
  exact ⟨Store.mixed_pending, Store.mixed_room,
    unlocking_unnoticed _ _ (fun n => if n = 0 then [Instant.latest] else []) _ _ Store.mixed_pending
      Store.mixed_room⟩

end Outbox

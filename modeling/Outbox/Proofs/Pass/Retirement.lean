import Mathlib
import Outbox.Proofs.Pass.Rounds

/-!
# Retirement

Under a limit of `n` attempts every pass of a machine that has a store for itself takes at least one attempt
off what is left to do. So a bounded number of passes retires every record, each of them delivered or given up
after exactly the attempts that it had left.
-/

namespace Outbox

/-- The answers to the sendings of one record. -/
def answersTo (id : RecordId) (xs : List Sending) : List (Except BrokerError Unit) :=
  (xs.filter (·.record.id = id)).map Sending.answer

section answersTo

variable {id : RecordId} {xs ys : List Sending} {x : Sending}

@[simp] theorem answersTo_append : answersTo id (xs ++ ys) = answersTo id xs ++ answersTo id ys := by
  simp [answersTo]

theorem answersTo_eq_nil (h : ∀ x ∈ xs, x.record.id ≠ id) : answersTo id xs = [] := by
  simpa [answersTo] using h

theorem answersTo_of_mem (hn : (xs.map (·.record.id)).Nodup) (hx : x ∈ xs) :
    answersTo x.record.id xs = [x.answer] := by
  induction xs with
  | nil => cases hx
  | cons y ys ih =>
      obtain ⟨hy, hys⟩ := List.nodup_cons.1 hn
      have hne : ∀ z ∈ ys, z.record.id ≠ y.record.id := fun z hz he => hy (List.mem_map.2 ⟨z, hz, he⟩)
      rcases List.mem_cons.1 hx with rfl | hx
      · simpa [answersTo] using hne
      · have hno : ¬ y.record.id = x.record.id := (hne x hx).symm
        simpa [answersTo, hno] using ih hys hx

end answersTo

/-! ## One record -/

/-- What has become of the record `u`, which is stored as `v` after these answers. -/
inductive Fate (n : Nat) (u : Record) (as : List (Except BrokerError Unit)) (v : Record) : Prop where
  | waiting (pending : u.state = .pending) (state : v.state = .pending) (failed : ∀ a ∈ as, a ≠ .ok ())
      (counted : v.attempts = u.attempts + as.length) (left : v.attempts < n)
  | delivered (pending : u.state = .pending) (state : v.state = .delivered) (accepted : .ok () ∈ as)
      (counted : u.attempts + as.length ≤ n)
  | givenUp (pending : u.state = .pending) (state : v.state = .exhausted) (failed : ∀ a ∈ as, a ≠ .ok ())
      (counted : u.attempts + as.length = n)
  | settled (before : u.state ≠ .pending) (state : v.state ≠ .pending) (unsent : as = [])

/-- What is left to do for a record, at most. -/
def Record.owed (n : Nat) (r : Record) : Nat := if r.state = .pending then n - r.attempts else 0

namespace Record.Attempted

variable {n : Nat} {u v : Record} {a : Except BrokerError Unit}

theorem pending (h : u.Attempted policy a v) : u.state = .pending := by
  cases h with
  | delivered hr hv =>
      obtain ⟨-, rfl⟩ := startAttempt_eq_some_iff.1 hr
      exact (markDelivered_eq_ok_iff.1 hv).1
  | failed hr hv =>
      obtain ⟨-, rfl⟩ := startAttempt_eq_some_iff.1 hr
      exact (markFailed_eq_ok_iff.1 hv).1

theorem limited_error {e : BrokerError} (h : u.Attempted (.limited n) (.error e) v) :
    v.state = if n ≤ u.attempts + 1 then .exhausted else .pending := by
  have hx : (RetrialPolicy.limited n).isExhausted (u.attempts + 1) = true ↔ n ≤ u.attempts + 1 := by
    simp only [RetrialPolicy.isExhausted, RetrialPolicy.limited, Bool.true_and]
    exact decide_eq_true_iff
  exact h.state_of_error.trans (if_congr hx rfl rfl)

theorem owed_lt (h : u.Attempted (.limited n) a v) (hlt : u.attempts < n) : v.owed n < u.owed n := by
  have hu : u.owed n = n - u.attempts := if_pos h.pending
  have hv : v.owed n ≤ n - (u.attempts + 1) := by
    rw [← h.eq_of.2.1, Record.owed]
    split <;> omega
  omega

end Record.Attempted

namespace Fate

variable {n : Nat} {u v v' : Record} {as : List (Except BrokerError Unit)} {a : Except BrokerError Unit}

theorem start (hroom : u.state = .pending → u.attempts < n) : Fate n u [] u := by
  by_cases hp : u.state = .pending
  · exact .waiting hp hp (fun _ h => nomatch h) rfl (hroom hp)
  · exact .settled hp hp rfl

theorem relock (h : Fate n u as v) (lock : Option Lock) : Fate n u as { v with lock } := by
  cases h with
  | waiting hp hs hf hc hl => exact .waiting hp hs hf hc hl
  | delivered hp hs ha hc => exact .delivered hp hs ha hc
  | givenUp hp hs hf hc => exact .givenUp hp hs hf hc
  | settled hb hs hu => exact .settled hb hs hu

theorem room (h : Fate n u as v) (hp : v.state = .pending) : v.attempts < n := by
  cases h with
  | waiting _ _ _ _ hl => exact hl
  | delivered _ hs | givenUp _ hs => rw [hp] at hs; cases hs
  | settled _ hs => exact absurd hp hs

theorem attempt (h : Fate n u as v) (ha : v.Attempted (.limited n) a v') : Fate n u (as ++ [a]) v' := by
  cases h with
  | waiting hp hs hf hc hl =>
      have hlength : u.attempts + (as ++ [a]).length = v.attempts + 1 := by simp [hc, Nat.add_assoc]
      cases a with
      | ok =>
          refine .delivered hp ha.delivered_of_ok (by simp) ?_
          rw [hlength]
          exact hl
      | error e =>
          have hf' : ∀ a ∈ as ++ [Except.error e], a ≠ .ok () := by
            intro a hm
            rcases List.mem_append.1 hm with hm | hm
            · exact hf a hm
            · rw [List.mem_singleton.1 hm]
              exact (nomatch ·)
          have hs' := ha.limited_error
          split at hs'
          · exact .givenUp hp hs' hf' (hlength.trans (by omega))
          · exact .waiting hp hs' hf' (ha.eq_of.2.1.trans hlength.symm) (by rw [ha.eq_of.2.1]; omega)
  | delivered _ hs | givenUp _ hs => rw [ha.pending] at hs; cases hs
  | settled _ hs => exact absurd ha.pending hs

end Fate

/-! ## One pass -/

namespace Round

variable {answers : Nat → Except BrokerError Unit} {s : Pass.Settings} {w w' : Solo} {xs : List Sending}
  {v : Record} {n : Nat}

theorem nodup (h : Round answers s w xs w') : (xs.map (·.record.id)).Nodup := by
  have hids : xs.map (·.record.id) = ((w.store.batch s.machine).take xs.length).map Record.id := by
    simpa [Record.age, Function.comp_def] using congrArg (List.map Prod.snd) h.order
  rw [hids]
  exact (w.store.nodup_sorted _).sublist ((List.take_sublist ..).map _)

/-- A pass leaves a record alone, but for its lock, or makes one attempt at it. -/
theorem stored_cases (h : Round answers s w xs w') (hv : v ∈ w.store.records) :
    (answersTo v.id xs = [] ∧ ∃ lock, w'.store.get? v.id = some { v with lock }) ∨
      ∃ a v', answersTo v.id xs = [a] ∧ v.Attempted s.policy a v' ∧ w'.store.get? v.id = some v' := by
  by_cases hno : ∀ x ∈ xs, x.record.id ≠ v.id
  · have heq := h.others hno
    rw [Store.get?_of_mem hv, Option.map_some] at heq
    obtain ⟨v', hv', he⟩ := Option.map_eq_some_iff.1 heq
    exact Or.inl ⟨answersTo_eq_nil hno, v'.lock, hv'.trans (congrArg some (Record.eq_of_unlocked he))⟩
  · push Not at hno
    obtain ⟨x, hx, hid⟩ := hno
    obtain ⟨u, hu, v', hxu, ha, hv'⟩ := h.attempted hx
    obtain rfl : u = v := Store.eq_of_id_eq (Store.mem_batch.1 hu).1 hv (hxu.1.symm.trans hid)
    exact Or.inr ⟨x.answer, v', hid ▸ answersTo_of_mem h.nodup hx, ha, hv'⟩

end Round

/-! ## Pass after pass -/

/-- What is left to do for the records under these ids, at most. -/
def Store.owed (n : Nat) (ids : List RecordId) (s : Store) : Nat :=
  (ids.map fun id => (s.get? id).elim 0 (Record.owed n)).sum

theorem Store.owed_ids_le (n : Nat) (s : Store) :
    s.owed n (s.records.map Record.id) ≤ n * s.count (·.state = .pending) := by
  have hsum : ∀ rs : List Record, (rs.map (Record.owed n)).sum ≤ n * rs.countP (·.state = .pending) := by
    intro rs
    induction rs with
    | nil => exact Nat.zero_le _
    | cons r rs ih =>
        rw [List.map_cons, List.sum_cons, List.countP_cons, Nat.mul_add, Nat.add_comm]
        refine Nat.add_le_add ih ?_
        unfold Record.owed
        split <;> simp [*]
  refine Nat.le_trans (Nat.le_of_eq ?_) (hsum s.records)
  rw [owed, List.map_map]
  refine congrArg List.sum (List.map_congr_left fun r hr => ?_)
  rw [Function.comp_apply, get?_of_mem hr, Option.elim_some]

/-- Every record of the store `start` has come to its fate after the sendings `xs`. -/
structure Fated (n : Nat) (start : Store) (xs : List Sending) (store : Store) : Prop where
  fates : ∀ {u}, u ∈ start.records →
    ∃ v, store.get? u.id = some v ∧ Fate n u (answersTo u.id xs) v
  known : ∀ {v}, v ∈ store.records → ∃ u ∈ start.records, u.id = v.id

namespace Fated

variable {answers : Nat → Except BrokerError Unit} {s : Pass.Settings} {origin : Store} {w w' : Solo}
  {xs ys : List Sending} {n : Nat} {v : Record}

theorem start (hroom : ∀ r ∈ origin.records, r.state = .pending → r.attempts < n) :
    Fated n origin [] origin where
  fates hu := ⟨_, Store.get?_of_mem hu, .start (hroom _ hu)⟩
  known hv := ⟨_, hv, rfl⟩

theorem round (hp : s.policy = .limited n) (h : Fated n origin xs w.store) (hr : Round answers s w ys w') :
    Fated n origin (xs ++ ys) w'.store where
  fates {u} hu := by
    obtain ⟨v, hv, hf⟩ := h.fates hu
    rw [answersTo_append, ← Store.id_of_get? hv]
    rw [← Store.id_of_get? hv] at hf
    rcases hr.stored_cases (Store.mem_of_get? hv) with ⟨hnil, lock, hv'⟩ | ⟨a, v', hone, ha, hv'⟩
    · rw [hnil, List.append_nil]
      exact ⟨_, hv', hf.relock lock⟩
    · rw [hone]
      rw [hp] at ha
      exact ⟨v', hv', hf.attempt ha⟩
  known hv := by
    obtain ⟨v₀, hv₀, hid⟩ := hr.versions hv
    obtain ⟨u, hu, he⟩ := h.known hv₀
    exact ⟨u, hu, he.trans hid.1.symm⟩

theorem fate (h : Fated n origin xs w.store) (hv : v ∈ w.store.records) :
    ∃ u ∈ origin.records, u.id = v.id ∧ Fate n u (answersTo u.id xs) v := by
  obtain ⟨u, hu, hid⟩ := h.known hv
  obtain ⟨v', hv', hf⟩ := h.fates hu
  rw [hid, Store.get?_of_mem hv] at hv'
  cases hv'
  exact ⟨u, hu, hid, hf⟩

theorem room (h : Fated n origin xs w.store) (hv : v ∈ w.store.records) (hp : v.state = .pending) :
    v.attempts < n := by
  obtain ⟨u, -, -, hf⟩ := h.fate hv
  exact hf.room hp

/-- As long as something is pending, the pass makes an attempt. -/
theorem owed_round (hp : s.policy = .limited n) (hn : n ≤ Record.maxAttempts)
    (hl : w.store.HeldBy s.machine) (h : Fated n origin xs w.store) (hr : Round answers s w ys w') :
    w'.store.owed n (origin.records.map Record.id) ≤ w.store.owed n (origin.records.map Record.id) - 1 := by
  have hle : ∀ id ∈ origin.records.map Record.id,
      (w'.store.get? id).elim 0 (Record.owed n) ≤ (w.store.get? id).elim 0 (Record.owed n) ∧
        (answersTo id ys ≠ [] →
          (w'.store.get? id).elim 0 (Record.owed n) < (w.store.get? id).elim 0 (Record.owed n)) := by
    intro id hid
    obtain ⟨u, hu, rfl⟩ := List.mem_map.1 hid
    obtain ⟨v, hv, -⟩ := h.fates hu
    have hm := Store.mem_of_get? hv
    rw [← Store.id_of_get? hv, Store.get?_of_mem hm]
    rcases hr.stored_cases hm with ⟨hnil, lock, hv'⟩ | ⟨a, v', -, ha, hv'⟩
    · rw [hv']
      exact ⟨Nat.le_refl _, fun hno => absurd hnil hno⟩
    · rw [hp] at ha
      rw [hv']
      have hlt := ha.owed_lt (h.room hm ha.pending)
      exact ⟨Nat.le_of_lt hlt, fun _ => hlt⟩
  cases hb : w.store.batch s.machine with
  | nil =>
      have hzero : w.store.owed n (origin.records.map Record.id) = 0 := by
        refine List.sum_eq_zero fun m hm => ?_
        obtain ⟨id, -, rfl⟩ := List.mem_map.1 hm
        cases hv : w.store.get? id with
        | none => rfl
        | some v =>
            refine if_neg fun hpending => ?_
            have hmem := hl.mem_batch.2 ⟨Store.mem_of_get? hv, hpending⟩
            rw [hb] at hmem
            cases hmem
      have hsum := List.sum_le_sum fun id hid => (hle id hid).1
      exact Nat.le_trans hsum (by rw [hzero]; exact Nat.le_of_eq hzero)
  | cons r rest =>
      have hmem : r ∈ w.store.batch s.machine := by rw [hb]; exact List.mem_cons_self
      obtain ⟨hm, hpending⟩ := hl.mem_batch.1 hmem
      have hsome := hr.starts hb (Nat.lt_of_lt_of_le (h.room hm hpending) hn)
      obtain ⟨x, hx⟩ := List.exists_mem_of_ne_nil _ hsome
      obtain ⟨u, hu, -, hxu, -⟩ := hr.attempted hx
      obtain ⟨o, ho, hid⟩ := h.known (Store.mem_batch.1 hu).1
      have hone : answersTo o.id ys ≠ [] := by
        rw [hid, ← hxu.1, answersTo_of_mem hr.nodup hx]
        exact List.cons_ne_nil _ _
      have ho' : o.id ∈ origin.records.map Record.id := List.mem_map_of_mem ho
      have hlt := List.sum_lt_sum _ _ (fun id hid => (hle id hid).1) ⟨o.id, ho', (hle _ ho').2 hone⟩
      exact Nat.le_pred_of_lt hlt

end Fated

namespace Pass

variable {clock : Nat → Instant} {answers : Nat → Except BrokerError Unit} {s : Settings} {w : Solo}
  {n : Nat}

theorem fated_rounds (hp : s.policy = .limited n) (hl : w.store.HeldBy s.machine)
    (hroom : ∀ r ∈ w.store.records, r.state = .pending → r.attempts < n) (k : Nat) :
    Fated n w.store (rounds (Solo.host clock answers) s k w).1
      (rounds (Solo.host clock answers) s k w).2.store :=
  rounds_induction (P := fun xs w' => Fated n w.store xs w'.store) hl (.start hroom)
    (fun _ h hr => h.round hp hr) k

theorem owed_rounds (hp : s.policy = .limited n) (hn : n ≤ Record.maxAttempts)
    (hl : w.store.HeldBy s.machine)
    (hroom : ∀ r ∈ w.store.records, r.state = .pending → r.attempts < n) (k : Nat) :
    (rounds (Solo.host clock answers) s k w).2.store.owed n (w.store.records.map Record.id) ≤
      n * w.store.count (·.state = .pending) - k := by
  induction k with
  | zero => exact w.store.owed_ids_le n
  | succ k ih =>
      have hheld : (rounds (Solo.host clock answers) s k w).2.store.HeldBy s.machine := held_rounds hl k
      have hr : Round answers s (rounds (Solo.host clock answers) s k w).2 _
          (rounds (Solo.host clock answers) s (k + 1) w).2 := round hheld
      have hf : Fated n w.store (rounds (Solo.host clock answers) s k w).1
          (rounds (Solo.host clock answers) s k w).2.store := fated_rounds hp hl hroom k
      exact Nat.le_trans (hf.owed_round hp hn hheld hr) (by omega)

end Pass

/-- What has become of the record `u` in the end, after these answers. -/
structure Retired (n : Nat) (u : Record) (as : List (Except BrokerError Unit)) (v : Record) : Prop where
  bounded : as.length ≤ n - u.attempts
  givenUp : u.state = .pending →
    (v.state = .exhausted ↔ as.length = n - u.attempts ∧ ∀ a ∈ as, a ≠ .ok ())
  otherwise : u.state = .pending → v.state ≠ .exhausted → v.state = .delivered

theorem Fate.retired {n : Nat} {u v : Record} {as : List (Except BrokerError Unit)} (h : Fate n u as v)
    (hv : v.state ≠ .pending) : Retired n u as v := by
  cases h with
  | waiting _ hs => exact absurd hs hv
  | delivered hp hs ha hc =>
      have hno : v.state ≠ .exhausted := by
        rw [hs]
        exact (nomatch ·)
      exact ⟨by omega, fun _ => ⟨fun hx => absurd hx hno, fun hx => absurd rfl (hx.2 _ ha)⟩, fun _ _ => hs⟩
  | givenUp hp hs hf hc =>
      exact ⟨by omega, fun _ => ⟨fun _ => ⟨by omega, hf⟩, fun _ => hs⟩, fun _ hno => absurd hs hno⟩
  | settled hb hs hu =>
      subst hu
      exact ⟨Nat.zero_le _, fun hp => absurd hp hb, fun hp => absurd hp hb⟩

/-- All that the sendings `xs` have made of the records of `start`. -/
structure Retirement (n : Nat) (answers : Nat → Except BrokerError Unit) (start : Store)
    (xs : List Sending) (w : Solo) : Prop where
  sendings : Sendings answers ⟨start, [], 0⟩ xs w
  settled : ∀ v ∈ w.store.records, v.state ≠ .pending
  retired : ∀ u ∈ start.records, ∃ v, w.store.get? u.id = some v ∧ Retired n u (answersTo u.id xs) v

/-- A record that was still pending would be owed an attempt. -/
theorem rounds_retirement (clock : Nat → Instant) (answers : Nat → Except BrokerError Unit)
    (machine : MachineId) (n : Nat) (hn : n ≤ Record.maxAttempts) (store : Store)
    (hl : store.HeldBy machine) (hroom : ∀ r ∈ store.records, r.state = .pending → r.attempts < n)
    (k : Nat) (hk : n * store.count (·.state = .pending) ≤ k) :
    Retirement n answers store
      (Pass.rounds (Solo.host clock answers) ⟨machine, .limited n⟩ k ⟨store, [], 0⟩).1
      (Pass.rounds (Solo.host clock answers) ⟨machine, .limited n⟩ k ⟨store, [], 0⟩).2 := by
  generalize hrun : Pass.rounds (Solo.host clock answers) ⟨machine, .limited n⟩ k ⟨store, [], 0⟩ = run
  have hall : Sendings answers ⟨store, [], 0⟩ run.1 run.2 := hrun ▸ Pass.sendings_rounds hl k
  have hf : Fated n store run.1 run.2.store := hrun ▸ Pass.fated_rounds (w := ⟨store, [], 0⟩) rfl hl hroom k
  have howed : run.2.store.owed n (store.records.map Record.id) = 0 := by
    have h : run.2.store.owed n (store.records.map Record.id) ≤ n * store.count (·.state = .pending) - k :=
      hrun ▸ Pass.owed_rounds (w := ⟨store, [], 0⟩) rfl hn hl hroom k
    exact Nat.eq_zero_of_le_zero (Nat.le_trans h (Nat.le_of_eq (Nat.sub_eq_zero_of_le hk)))
  have hover : ∀ v ∈ run.2.store.records, v.state ≠ .pending := by
    intro v hv hp
    obtain ⟨u, hu, hid⟩ := hf.known hv
    have hle : v.owed n ≤ 0 := by
      rw [← howed]
      refine List.single_le_sum (fun _ _ => Nat.zero_le _) _ ?_
      refine List.mem_map.2 ⟨u.id, List.mem_map_of_mem hu, ?_⟩
      rw [hid, Store.get?_of_mem hv, Option.elim_some]
    have hlt := hf.room hv hp
    rw [Record.owed, if_pos hp] at hle
    omega
  refine ⟨hall, hover, fun u hu => ?_⟩
  obtain ⟨v, hv, hfate⟩ := hf.fates hu
  exact ⟨v, hv, hfate.retired (hover v (Store.mem_of_get? hv))⟩

theorem rounds_retirement_restarted :
    (2 ≤ Record.maxAttempts ∧ Store.restarted.HeldBy ⟨"a"⟩ ∧
        (∀ r ∈ Store.restarted.records, r.state = .pending → r.attempts < 2) ∧
        2 * Store.restarted.count (·.state = .pending) ≤ 4) ∧
      Retirement 2 (fun i => if i = 2 then .ok () else .error { message := "nack" }) .restarted
        (Pass.rounds (Solo.host (fun _ => default)
          fun i => if i = 2 then .ok () else .error { message := "nack" })
          ⟨⟨"a"⟩, .limited 2⟩ 4 ⟨.restarted, [], 0⟩).1
        (Pass.rounds (Solo.host (fun _ => default)
          fun i => if i = 2 then .ok () else .error { message := "nack" })
          ⟨⟨"a"⟩, .limited 2⟩ 4 ⟨.restarted, [], 0⟩).2 := by
  have hn : 2 ≤ Record.maxAttempts := by decide
  have hroom : ∀ r ∈ Store.restarted.records, r.state = .pending → r.attempts < 2 := by decide +kernel
  have hk : 2 * Store.restarted.count (·.state = .pending) ≤ 4 := by decide +kernel
  exact ⟨⟨hn, Store.heldBy_restarted, hroom, hk⟩,
    rounds_retirement _ _ ⟨"a"⟩ 2 hn .restarted Store.heldBy_restarted hroom 4 hk⟩

end Outbox

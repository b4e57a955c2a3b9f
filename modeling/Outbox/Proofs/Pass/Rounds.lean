import Outbox.Proofs.Fleet.NoLoss
import Outbox.Proofs.Pass.Attempts

/-!
# Rounds

Passes of one machine, one after the other, on a store that nobody else uses: which records each of them
hands to the broker, with which answers, and what that leaves in the store. A pass may also be broken off
at a record whose attempt counter is full.
-/

namespace Outbox

/-- What the age order goes by. -/
def Record.age (r : Record) : Instant × RecordId := (r.createdOn, r.id)

/-- The record as it goes to the broker. -/
def Record.tried (r : Record) (now : Instant) : Record :=
  { r with lastAttemptOn := some now, attempts := r.attempts + 1 }

/-- A record that went to the broker, as it stood then, and the answer. -/
structure Sending where
  record : Record
  answer : Except BrokerError Unit

namespace Pass

variable {ω : Type} (h : Host ω) (s : Settings)

/-- What goes to the broker between this point of a pass and its end. -/
def sendings (p : Pass) (w : ω) : List Sending :=
  match hp : p.next s with
  | none => []
  | some (.now resume) =>
    match h.now w with
    | none => []
    | some now =>
      have := now_before hp now
      sendings (resume now) w
  | some (.call c resume) =>
    let (a, w) := h.call c w
    have := call_before hp a
    sendings (resume a).1 (h.logAll w (resume a).2)
  | some (.send m resume) =>
    match h.send m w with
    | (none, _) => []
    | (some a, w) =>
      have := send_before hp a
      (p.underWay?.map (Sending.mk · a)).toList ++ sendings (resume a) w
termination_by p.rank
decreasing_by all_goals assumption

/-- `k` passes: what goes to the broker, and the surroundings after them. -/
def rounds : (k : Nat) → ω → List Sending × ω
  | 0, w => ([], w)
  | k + 1, w =>
    let (sent, w) := rounds k w
    (sent ++ sendings h s .opening w, (deliverBatch h s w).2)

variable {h s} {p : Pass} {w : ω}

theorem sendings_over (hp : p.next s = none) : sendings h s p w = [] := by
  rw [sendings]
  split <;> simp_all

theorem sendings_now {resume : Instant → Pass} {t : Instant} (hp : p.next s = some (.now resume))
    (ht : h.now w = some t) : sendings h s p w = sendings h s (resume t) w := by
  rw [sendings]
  split <;> simp_all

theorem sendings_call {a : Answer} {c : Call a}
    {resume : Except OutboxError a.Val → Pass × List LogEntry}
    (hp : p.next s = some (.call c resume)) :
    sendings h s p w =
      sendings h s (resume (h.call c w).1).1 (h.logAll (h.call c w).2 (resume (h.call c w).1).2) := by
  rw [sendings]
  split
  · simp_all
  · simp_all
  · rename_i hp'
    rw [hp] at hp'
    cases hp'
    rfl
  · simp_all

theorem sendings_send {m : Message} {resume : Except BrokerError Unit → Pass}
    {a : Except BrokerError Unit} {w' : ω} (hp : p.next s = some (.send m resume))
    (ha : h.send m w = (some a, w')) :
    sendings h s p w = (p.underWay?.map (Sending.mk · a)).toList ++ sendings h s (resume a) w' := by
  rw [sendings]
  split <;> simp_all

/-! ## On a store of one's own -/

variable {clock : Nat → Instant} {answers : Nat → Except BrokerError Unit} {w : Solo} {report : Report}
  {r : Record} {rest : List Record}

theorem sendings_proceed_nil : sendings (Solo.host clock answers) s (proceed report []) w = [] := by
  rw [proceed, sendings_call rfl, logAll_host, sendings_over]
  rfl

theorem sendings_attempt (hr : r.attempts < Record.maxAttempts) :
    sendings (Solo.host clock answers) s (proceed report (r :: rest)) w =
      ⟨r.tried (clock w.asked), answers w.sent.length⟩ ::
        sendings (Solo.host clock answers) s
          (sent s report (r.tried (clock w.asked)) rest (answers w.sent.length))
          { w with sent := w.sent ++ [r.message], asked := w.asked + 1 } := by
  have hstart : r.startAttempt (clock w.asked) = some (r.tried (clock w.asked)) :=
    Record.startAttempt_eq_some_iff.2 ⟨hr, rfl⟩
  rw [proceed, sendings_now rfl rfl, started, hstart]
  exact sendings_send rfl rfl

theorem sendings_saving {failure : Option BrokerError} (hr : (w.store.get? r.id).isSome) :
    sendings (Solo.host clock answers) s (saving report r failure rest) w =
      sendings (Solo.host clock answers) s (saved report r failure rest (.ok ())).1
        { w with store := w.store.save r, asked := w.asked + 1 } := by
  obtain ⟨v, hv⟩ := Option.isSome_iff_exists.1 hr
  rw [sendings_call rfl, logAll_host]
  simp only [Solo.host, Store.perform, hv]

theorem sendings_accepted (hpending : r.state = .pending) (hr : r.attempts < Record.maxAttempts)
    (hstored : (w.store.get? r.id).isSome) (ha : answers w.sent.length = .ok ()) :
    sendings (Solo.host clock answers) s (proceed report (r :: rest)) w =
      ⟨r.tried (clock w.asked), .ok ()⟩ ::
        sendings (Solo.host clock answers) s (proceed ⟨report.claimed, report.delivered + 1⟩ rest)
          { store := w.store.save (r.accepted (clock w.asked) (clock (w.asked + 1)))
            sent := w.sent ++ [r.message]
            asked := w.asked + 2 } := by
  have hmark : (r.tried (clock w.asked)).markDelivered (clock (w.asked + 1)) =
      .ok (r.accepted (clock w.asked) (clock (w.asked + 1))) :=
    Record.markDelivered_eq_ok_iff.2 ⟨hpending, rfl⟩
  rw [sendings_attempt hr, ha, sent, sendings_now rfl rfl, delivered]
  simp only [hmark]
  exact congrArg _ (sendings_saving hstored)

theorem sendings_refused (hpending : r.state = .pending) (hr : r.attempts < Record.maxAttempts)
    (hstored : (w.store.get? r.id).isSome) {e : BrokerError} (ha : answers w.sent.length = .error e) :
    sendings (Solo.host clock answers) s (proceed report (r :: rest)) w =
      [⟨r.tried (clock w.asked), .error e⟩] := by
  have hmark : (r.tried (clock w.asked)).markFailed e.message s.policy =
      .ok (r.refused s.policy (clock w.asked) e.message) :=
    Record.markFailed_eq_ok_iff.2 ⟨hpending, rfl⟩
  rw [sendings_attempt hr, ha, sent]
  simp only [hmark]
  rw [sendings_saving, saved, sendings_call rfl, logAll_host, sendings_over]
  · rfl
  · exact hstored

theorem sendings_full (hr : Record.maxAttempts ≤ r.attempts) :
    sendings (Solo.host clock answers) s (proceed report (r :: rest)) w = [] := by
  rw [proceed, sendings_now rfl rfl, started, Record.startAttempt_eq_none_iff.2 hr, sendings_over rfl]

theorem advance_full (hr : Record.maxAttempts ≤ r.attempts) :
    advance (Solo.host clock answers) s (proceed report (r :: rest)) w = (halted, w) := by
  rw [proceed, advance_now rfl rfl, started, Record.startAttempt_eq_none_iff.2 hr, advance_over rfl]

end Pass

namespace Record

variable {r : Record} {policy : RetrialPolicy}

theorem attempted_accepted (hp : r.state = .pending) (hr : r.attempts < maxAttempts) (tried done : Instant) :
    r.Attempted policy (.ok ()) (r.accepted tried done) :=
  .delivered (startAttempt_eq_some_iff.2 ⟨hr, rfl⟩) (markDelivered_eq_ok_iff.2 ⟨hp, rfl⟩)

theorem attempted_refused (hp : r.state = .pending) (hr : r.attempts < maxAttempts) (tried : Instant)
    (e : BrokerError) : r.Attempted policy (.error e) (r.refused policy tried e.message) :=
  .failed (startAttempt_eq_some_iff.2 ⟨hr, rfl⟩) (markFailed_eq_ok_iff.2 ⟨hp, rfl⟩)

theorem VersionOf.trans {u v w : Record} (h : u.VersionOf v) (h' : v.VersionOf w) : u.VersionOf w :=
  ⟨h.1.trans h'.1, h.2.1.trans h'.2.1, h.2.2.trans h'.2.2⟩

theorem Attempted.versionOf {u v : Record} {a : Except BrokerError Unit} (h : u.Attempted policy a v) :
    v.VersionOf u := by
  cases h with
  | delivered hr hv =>
      obtain ⟨-, rfl⟩ := startAttempt_eq_some_iff.1 hr
      obtain ⟨-, rfl⟩ := markDelivered_eq_ok_iff.1 hv
      exact ⟨rfl, rfl, rfl⟩
  | failed hr hv =>
      obtain ⟨-, rfl⟩ := startAttempt_eq_some_iff.1 hr
      obtain ⟨-, rfl⟩ := markFailed_eq_ok_iff.1 hv
      exact ⟨rfl, rfl, rfl⟩

theorem Attempted.delivered_of_ok {u v : Record} (h : u.Attempted policy (.ok ()) v) :
    v.state = .delivered := by
  cases h with
  | delivered _ hv =>
      obtain ⟨-, rfl⟩ := markDelivered_eq_ok_iff.1 hv
      rfl

theorem Attempted.state_of_error {u v : Record} {e : BrokerError} (h : u.Attempted policy (.error e) v) :
    v.state = if policy.isExhausted (u.attempts + 1) then .exhausted else .pending := by
  cases h with
  | failed hr hv =>
      obtain ⟨-, rfl⟩ := startAttempt_eq_some_iff.1 hr
      obtain ⟨-, rfl⟩ := markFailed_eq_ok_iff.1 hv
      rfl

end Record

/-! ## The batch -/

/-- What the sendings `xs` of a pass over a batch have made of its surroundings. -/
structure Handled (answers : Nat → Except BrokerError Unit) (s : Pass.Settings) (batch : List Record)
    (w : Solo) (xs : List Sending) (w' : Solo) : Prop where
  order : xs.map (·.record.age) = (batch.take xs.length).map Record.age
  sent : w'.sent = w.sent ++ xs.map (·.record.message)
  answered : ∀ {i x}, xs[i]? = some x → x.answer = answers (w.sent.length + i)
  /-- Nothing follows a failure. -/
  failedLast : xs.Pairwise fun x _ => x.answer = .ok ()
  attempted : ∀ {x}, x ∈ xs → ∃ u ∈ batch, ∃ v, x.record.VersionOf u ∧
    u.Attempted s.policy x.answer v ∧ w'.store.get? u.id = some v
  /-- The locks are released unless the pass is broken off. -/
  others : ∀ {id}, (∀ x ∈ xs, x.record.id ≠ id) → w'.store.get? id = w.store.get? id ∨
    w'.store.get? id = (w.store.unlock (Store.OwnedBy s.machine)).get? id
  starts : ∀ {r rest}, batch = r :: rest → r.attempts < Record.maxAttempts → xs ≠ []

namespace Handled

variable {clock : Nat → Instant} {answers : Nat → Except BrokerError Unit} {s : Pass.Settings}
  {batch rest : List Record} {w w' : Solo} {xs : List Sending} {r : Record}

theorem id_mem (h : Handled answers s batch w xs w') {x : Sending} (hx : x ∈ xs) :
    ∃ u ∈ batch, x.record.id = u.id := by
  obtain ⟨u, hu, -, hv, -⟩ := h.attempted hx
  exact ⟨u, hu, hv.1⟩

theorem nil (w : Solo) (asked : Nat) : Handled answers s [] w []
    { w with store := w.store.unlock (Store.OwnedBy s.machine), asked } where
  order := rfl
  sent := (List.append_nil _).symm
  answered h := nomatch h
  failedLast := .nil
  attempted h := nomatch h
  others _ := .inr rfl
  starts h := nomatch h

theorem full (hr : Record.maxAttempts ≤ r.attempts) : Handled answers s (r :: rest) w [] w where
  order := rfl
  sent := (List.append_nil _).symm
  answered h := nomatch h
  failedLast := .nil
  attempted h := nomatch h
  others _ := .inl rfl
  starts he hlt := by
    cases he
    exact absurd hlt (Nat.not_lt_of_le hr)

theorem refused (hp : r.state = .pending) (hr : r.attempts < Record.maxAttempts)
    (hstored : (w.store.get? r.id).isSome) {e : BrokerError} (ha : answers w.sent.length = .error e) :
    Handled answers s (r :: rest) w
      [⟨r.tried (clock w.asked), .error e⟩]
      { store := (w.store.save (r.refused s.policy (clock w.asked) e.message)).unlock
          (Store.OwnedBy s.machine)
        sent := w.sent ++ [r.message]
        asked := w.asked + 3 } where
  order := rfl
  sent := rfl
  answered {i x} hx := by
    obtain ⟨rfl, rfl⟩ : i = 0 ∧ _ = x := by
      simpa [List.getElem?_singleton] using hx
    exact ha.symm
  failedLast := List.pairwise_singleton ..
  attempted hx := by
    obtain rfl := List.mem_singleton.1 hx
    exact ⟨r, List.mem_cons_self, _, ⟨rfl, rfl, rfl⟩, Record.attempted_refused hp hr (clock w.asked) e,
      Pass.get?_released (v := r.refused s.policy (clock w.asked) e.message) hstored rfl⟩
  others {id} hid := by
    have hne : r.id ≠ id := hid _ List.mem_cons_self
    right
    rw [Store.get?_unlock, Store.get?_save, Store.get?_unlock]
    exact congrArg _ (if_neg hne)
  starts _ _ := List.cons_ne_nil _ _

/-- Nothing that follows an accepted record changes it again. -/
theorem accepted (hp : r.state = .pending) (hr : r.attempts < Record.maxAttempts)
    (hstored : (w.store.get? r.id).isSome) (hne : ∀ v ∈ rest, v.id ≠ r.id)
    (ha : answers w.sent.length = .ok ())
    (h : Handled answers s rest
      { store := w.store.save (r.accepted (clock w.asked) (clock (w.asked + 1)))
        sent := w.sent ++ [r.message]
        asked := w.asked + 2 } xs w') :
    Handled answers s (r :: rest) w
      (⟨r.tried (clock w.asked), .ok ()⟩ :: xs) w' where
  order := congrArg (r.age :: ·) h.order
  sent := by rw [h.sent, List.append_assoc]; rfl
  answered {i x} hx := by
    cases i with
    | zero =>
        cases hx
        exact ha.symm
    | succ i =>
        rw [h.answered hx, List.length_append, List.length_singleton, Nat.add_assoc, Nat.add_comm 1]
  failedLast := List.pairwise_cons.2 ⟨fun _ _ => rfl, h.failedLast⟩
  attempted hx := by
    rcases List.mem_cons.1 hx with rfl | hx
    · have hno : ∀ x ∈ xs, x.record.id ≠ r.id := by
        intro x hx he
        obtain ⟨u, hu, hxu⟩ := h.id_mem hx
        exact hne u hu (hxu.symm.trans he)
      have hacc : ((w.store.save (r.accepted (clock w.asked) (clock (w.asked + 1)))).unlock
          (Store.OwnedBy s.machine)).get? r.id = some (r.accepted (clock w.asked) (clock (w.asked + 1))) :=
        Pass.get?_released (v := r.accepted (clock w.asked) (clock (w.asked + 1))) hstored rfl
      refine ⟨r, List.mem_cons_self, _, ⟨rfl, rfl, rfl⟩,
        Record.attempted_accepted hp hr (clock w.asked) (clock (w.asked + 1)), ?_⟩
      rcases h.others hno with heq | heq
      · obtain ⟨v, hv⟩ := Option.isSome_iff_exists.1 hstored
        rw [heq, Store.get?_save]
        exact (if_pos rfl).trans (congrArg (Option.map _) hv)
      · exact heq.trans hacc
    · obtain ⟨u, hu, hv⟩ := h.attempted hx
      exact ⟨u, List.mem_cons_of_mem _ hu, hv⟩
  others {id} hid := by
    have hid' : r.id ≠ id := hid _ List.mem_cons_self
    refine (h.others fun x hx => hid x (List.mem_cons_of_mem _ hx)).imp (fun heq => ?_) fun heq => ?_
    · rw [heq, Store.get?_save]
      exact if_neg hid'
    · rw [heq, Store.get?_unlock, Store.get?_save, Store.get?_unlock]
      exact congrArg _ (if_neg hid')
  starts _ _ := List.cons_ne_nil _ _

end Handled

namespace Pass

variable {clock : Nat → Instant} {answers : Nat → Except BrokerError Unit} {s : Settings}

theorem handled (batch : List Record) (report : Report) (w : Solo)
    (hb : ∀ r ∈ batch, r.state = .pending ∧ w.store.get? r.id = some r)
    (hn : (batch.map Record.id).Nodup) :
    Handled answers s batch w (sendings (Solo.host clock answers) s (proceed report batch) w)
      (advance (Solo.host clock answers) s (proceed report batch) w).2 := by
  induction batch generalizing report w with
  | nil =>
      rw [sendings_proceed_nil, advance_proceed_nil]
      exact .nil w _
  | cons r rest ih =>
      obtain ⟨hfirst, hrest⟩ := List.nodup_cons.1 hn
      have hne : ∀ v ∈ rest, v.id ≠ r.id := fun v hv he => hfirst (he ▸ List.mem_map_of_mem hv)
      obtain ⟨hp, hget⟩ := hb r List.mem_cons_self
      have hstored : (w.store.get? r.id).isSome := by rw [hget]; rfl
      by_cases hr : r.attempts < Record.maxAttempts
      · cases ha : answers w.sent.length with
        | error e =>
            rw [sendings_refused hp hr hstored ha, advance_refused hp hr hstored ha]
            exact .refused hp hr hstored ha
        | ok =>
            rw [sendings_accepted hp hr hstored ha, advance_accepted hp hr hstored ha]
            refine .accepted hp hr hstored hne ha (ih _ _ (fun v hv => ?_) hrest)
            obtain ⟨hpv, hgv⟩ := hb v (List.mem_cons_of_mem _ hv)
            refine ⟨hpv, ?_⟩
            rw [Store.get?_save]
            exact (if_neg (hne v hv).symm).trans hgv
      · have hfull : Record.maxAttempts ≤ r.attempts := Nat.le_of_not_lt hr
        rw [sendings_full hfull, advance_full hfull]
        exact .full hfull

end Pass

/-! ## The whole pass -/

namespace Store

variable {s : Store} {machine : MachineId} {r : Record}

/-- No lock is another machine's, and whatever is locked is pending. -/
def HeldBy (machine : MachineId) (s : Store) : Prop :=
  ∀ r ∈ s.records, r.lock ≠ none → r.owner? = some machine ∧ r.state = .pending

theorem HeldBy.claim (h : s.HeldBy machine) (now : Instant) :
    (s.claim machine now .pending).HeldBy machine := by
  intro r hr hl
  obtain ⟨u, hu, rfl⟩ := List.mem_map.1 hr
  split at hl
  · rename_i hc
    rw [if_pos hc]
    exact ⟨rfl, of_decide_eq_true (Bool.and_eq_true_iff.1 hc).1⟩
  · rename_i hc
    rw [if_neg hc]
    exact h u hu hl

theorem HeldBy.unlock (h : s.HeldBy machine) (p : Record → Bool) : (s.unlock p).HeldBy machine := by
  intro r hr hl
  obtain ⟨u, hu, rfl⟩ := List.mem_map.1 hr
  split at hl
  · exact absurd rfl hl
  · rename_i hp
    rw [if_neg hp]
    exact h u hu hl

theorem HeldBy.mem_batch (h : s.HeldBy machine) :
    r ∈ s.batch machine ↔ r ∈ s.records ∧ r.state = .pending := by
  refine Store.mem_batch.trans (and_congr_right fun hr => ?_)
  constructor
  · rintro (ho | ⟨hp, -⟩)
    · refine (h r hr fun hn => ?_).2
      rw [Record.owner?, hn] at ho
      cases ho
    · exact hp
  · intro hp
    cases hl : r.lock with
    | none => exact Or.inr ⟨hp, rfl⟩
    | some lock => exact Or.inl (h r hr (by simp [hl])).1

end Store

/-- What the sendings `xs` of a whole pass have made of its surroundings. -/
structure Round (answers : Nat → Except BrokerError Unit) (s : Pass.Settings) (w : Solo)
    (xs : List Sending) (w' : Solo) : Prop where
  order : xs.map (·.record.age) = ((w.store.batch s.machine).take xs.length).map Record.age
  sent : w'.sent = w.sent ++ xs.map (·.record.message)
  answered : ∀ {i x}, xs[i]? = some x → x.answer = answers (w.sent.length + i)
  /-- Nothing follows a failure. -/
  failedLast : xs.Pairwise fun x _ => x.answer = .ok ()
  attempted : ∀ {x}, x ∈ xs → ∃ u ∈ w.store.batch s.machine, ∃ v, x.record.VersionOf u ∧
    u.Attempted s.policy x.answer v ∧ w'.store.get? u.id = some v
  others : ∀ {id}, (∀ x ∈ xs, x.record.id ≠ id) →
    (w'.store.get? id).map Record.unlocked = (w.store.get? id).map Record.unlocked
  held : w'.store.HeldBy s.machine
  starts : ∀ {r rest}, w.store.batch s.machine = r :: rest → r.attempts < Record.maxAttempts → xs ≠ []

namespace Handled

variable {answers : Nat → Except BrokerError Unit} {s : Pass.Settings} {w w' : Solo} {xs : List Sending}
  {now : Instant} {asked : Nat}

/-- What is done to the batch under the machine's lock is done to the batch. -/
theorem round (hl : w.store.HeldBy s.machine)
    (h : Handled answers s ((w.store.batch s.machine).map (Store.claimed s.machine now))
      ⟨w.store.claim s.machine now .pending, w.sent, asked⟩ xs w') : Round answers s w xs w' where
  order := by
    rw [h.order, ← List.map_take, List.map_map]
    refine List.map_congr_left fun r _ => ?_
    obtain ⟨lock, he⟩ := Store.claimed_eq s.machine now r
    rw [Function.comp_apply, he]
    rfl
  sent := h.sent
  answered := h.answered
  failedLast := h.failedLast
  attempted hx := by
    obtain ⟨c, hc, v, hxc, ha, hv⟩ := h.attempted hx
    obtain ⟨u, hu, rfl⟩ := List.mem_map.1 hc
    obtain ⟨lock, he⟩ := Store.claimed_eq s.machine now u
    rw [he] at hxc hv
    exact ⟨u, hu, v, hxc, ha.of_unlocked Store.unlocked_claimed, hv⟩
  others {id} hid := by
    have hclaim : ((w.store.claim s.machine now .pending).get? id).map Record.unlocked =
        (w.store.get? id).map Record.unlocked := by
      rw [Store.get?_claim, Option.map_map]
      exact congrArg (Option.map · _) (funext fun r => Store.unlocked_claimed)
    rw [← hclaim]
    rcases h.others hid with heq | heq
    · rw [heq]
    · rw [heq, Store.get?_unlock, Option.map_map]
      refine congrArg (Option.map · _) (funext fun r => ?_)
      rw [Function.comp_apply]
      split <;> rfl
  held v hv hlock := by
    by_cases hid : ∀ x ∈ xs, x.record.id ≠ v.id
    · have hclaim := hl.claim now
      rcases h.others hid with heq | heq
      · exact hclaim v (Store.mem_of_get? (heq ▸ Store.get?_of_mem hv)) hlock
      · exact (hclaim.unlock _) v (Store.mem_of_get? (heq ▸ Store.get?_of_mem hv)) hlock
    · push Not at hid
      obtain ⟨x, hx, hxv⟩ := hid
      obtain ⟨u, -, v', hxu, ha, hv'⟩ := h.attempted hx
      rw [← hxu.1, hxv, Store.get?_of_mem hv] at hv'
      cases hv'
      exact absurd ha.eq_of.2.2 hlock
  starts {r rest} he hr := by
    obtain ⟨lock, hc⟩ := Store.claimed_eq s.machine now r
    refine h.starts (r := Store.claimed s.machine now r) (congrArg (List.map _) he) ?_
    rw [hc]
    exact hr

end Handled

namespace Round

variable {answers : Nat → Except BrokerError Unit} {s : Pass.Settings} {w w' : Solo} {xs : List Sending}
  {x : Sending} {v : Record}

/-- A record that is not sent is as before, but for its lock. -/
theorem exists_stored (h : Round answers s w xs w') (hv : v ∈ w'.store.records)
    (hno : ∀ x ∈ xs, x.record.id ≠ v.id) : ∃ u ∈ w.store.records, ∃ lock, v = { u with lock } := by
  have heq := h.others hno
  rw [Store.get?_of_mem hv, Option.map_some] at heq
  obtain ⟨u, hu, he⟩ := Option.map_eq_some_iff.1 heq.symm
  exact ⟨u, Store.mem_of_get? hu, v.lock, Record.eq_of_unlocked he.symm⟩

/-- A record that is sent has a complete attempt behind it after the pass. -/
theorem exists_attempted (h : Round answers s w xs w') (hx : x ∈ xs) (hv : v ∈ w'.store.records)
    (hid : x.record.id = v.id) :
    ∃ u ∈ w.store.batch s.machine, x.record.VersionOf u ∧ u.Attempted s.policy x.answer v := by
  obtain ⟨u, hu, v', hxu, ha, hv'⟩ := h.attempted hx
  rw [← hxu.1, hid, Store.get?_of_mem hv] at hv'
  cases hv'
  exact ⟨u, hu, hxu, ha⟩

theorem versions (h : Round answers s w xs w') (hv : v ∈ w'.store.records) :
    ∃ u ∈ w.store.records, v.VersionOf u := by
  by_cases hno : ∀ x ∈ xs, x.record.id ≠ v.id
  · obtain ⟨u, hu, lock, rfl⟩ := h.exists_stored hv hno
    exact ⟨u, hu, rfl, rfl, rfl⟩
  · push Not at hno
    obtain ⟨x, hx, hid⟩ := hno
    obtain ⟨u, hu, -, ha⟩ := h.exists_attempted hx hv hid
    exact ⟨u, (Store.mem_batch.1 hu).1, ha.versionOf⟩

end Round

namespace Pass

variable {clock : Nat → Instant} {answers : Nat → Except BrokerError Unit} {s : Settings} {w : Solo}

theorem sendings_opening :
    sendings (Solo.host clock answers) s opening w =
      sendings (Solo.host clock answers) s
        (proceed ⟨w.store.count (Store.Claimable .pending), 0⟩
          ((w.store.batch s.machine).map (Store.claimed s.machine (clock w.asked))))
        ⟨w.store.claim s.machine (clock w.asked) .pending, w.sent, w.asked + 2⟩ := by
  rw [sendings_now rfl rfl, sendings_call rfl, logAll_host]
  show sendings (Solo.host clock answers) s (fetching (w.store.count (Store.Claimable .pending)))
    ⟨w.store.claim s.machine (clock w.asked) .pending, w.sent, w.asked + 1⟩ = _
  rw [sendings_call rfl, logAll_host, ← Store.fetch_claim]
  rfl

theorem round (hl : w.store.HeldBy s.machine) :
    Round answers s w (sendings (Solo.host clock answers) s opening w)
      (deliverBatch (Solo.host clock answers) s w).2 := by
  have hids : (((w.store.batch s.machine).map (Store.claimed s.machine (clock w.asked))).map
      Record.id).Nodup := by
    have hid : Record.id ∘ Store.claimed s.machine (clock w.asked) = Record.id :=
      funext fun r => Store.claimed_id
    rw [List.map_map, hid]
    exact w.store.nodup_sorted _
  have hbatch : ∀ c ∈ (w.store.batch s.machine).map (Store.claimed s.machine (clock w.asked)),
      c.state = .pending ∧
        (w.store.claim s.machine (clock w.asked) .pending).get? c.id = some c := by
    intro c hc
    obtain ⟨r, hr, rfl⟩ := List.mem_map.1 hc
    obtain ⟨hm, hp⟩ := hl.mem_batch.1 hr
    obtain ⟨lock, he⟩ := Store.claimed_eq s.machine (clock w.asked) r
    refine ⟨by rw [he]; exact hp, ?_⟩
    rw [Store.claimed_id, Store.get?_claim, Store.get?_of_mem hm]
    rfl
  rw [sendings_opening, deliverBatch, advance_opening]
  exact (handled _ _ _ hbatch hids).round hl

/-- What holds at first and is kept by each pass holds after any number of them. -/
theorem rounds_induction {P : List Sending → Solo → Prop} (hl : w.store.HeldBy s.machine) (hw : P [] w)
    (step : ∀ {xs ys w w'}, w.store.HeldBy s.machine → P xs w → Round answers s w ys w' → P (xs ++ ys) w')
    (k : Nat) :
    P (rounds (Solo.host clock answers) s k w).1 (rounds (Solo.host clock answers) s k w).2 := by
  have h : (rounds (Solo.host clock answers) s k w).2.store.HeldBy s.machine ∧
      P (rounds (Solo.host clock answers) s k w).1 (rounds (Solo.host clock answers) s k w).2 := by
    induction k with
    | zero => exact ⟨hl, hw⟩
    | succ k ih => exact ⟨(round ih.1).held, step ih.1 ih.2 (round ih.1)⟩
  exact h.2

theorem held_rounds (hl : w.store.HeldBy s.machine) (k : Nat) :
    (rounds (Solo.host clock answers) s k w).2.store.HeldBy s.machine :=
  rounds_induction (P := fun _ w => w.store.HeldBy s.machine) hl hl (fun _ _ hr => hr.held) k

end Pass

/-- The sendings of a run of passes that began with the surroundings `start`. -/
structure Sendings (answers : Nat → Except BrokerError Unit) (start : Solo) (xs : List Sending)
    (w : Solo) : Prop where
  sent : w.sent = start.sent ++ xs.map (·.record.message)
  answered : ∀ {i x}, xs[i]? = some x → x.answer = answers (start.sent.length + i)
  origin : ∀ {x}, x ∈ xs → ∃ u ∈ start.store.records, x.record.VersionOf u
  versions : ∀ {v}, v ∈ w.store.records → ∃ u ∈ start.store.records, v.VersionOf u

theorem Sendings.round {answers : Nat → Except BrokerError Unit} {s : Pass.Settings} {start w w' : Solo}
    {xs ys : List Sending} (h : Sendings answers start xs w) (hr : Round answers s w ys w') :
    Sendings answers start (xs ++ ys) w' where
  sent := by rw [hr.sent, h.sent, List.append_assoc, List.map_append]
  answered {i x} hx := by
    rcases Nat.lt_or_ge i xs.length with hi | hi
    · rw [List.getElem?_append_left hi] at hx
      exact h.answered hx
    · rw [List.getElem?_append_right hi] at hx
      have hlength : w.sent.length = start.sent.length + xs.length := by simp [h.sent]
      rw [hr.answered hx, hlength]
      congr 1
      omega
  origin {x} hx := by
    rcases List.mem_append.1 hx with hx | hx
    · exact h.origin hx
    · obtain ⟨u, hu, -, hxu, -⟩ := hr.attempted hx
      obtain ⟨o, ho, huo⟩ := h.versions (Store.mem_batch.1 hu).1
      exact ⟨o, ho, hxu.trans huo⟩
  versions hv := by
    obtain ⟨u, hu, hvu⟩ := hr.versions hv
    obtain ⟨o, ho, huo⟩ := h.versions hu
    exact ⟨o, ho, hvu.trans huo⟩

theorem Pass.sendings_rounds {clock : Nat → Instant} {answers : Nat → Except BrokerError Unit}
    {s : Settings} {w : Solo} (hl : w.store.HeldBy s.machine) (k : Nat) :
    Sendings answers w (rounds (Solo.host clock answers) s k w).1
      (rounds (Solo.host clock answers) s k w).2 := by
  have hw : Sendings answers w [] w :=
    ⟨(List.append_nil _).symm, (nomatch ·), (nomatch ·), fun hv => ⟨_, hv, rfl, rfl, rfl⟩⟩
  exact rounds_induction hl hw (fun _ h hr => h.round hr) k

/-- A leftover of machine a, a free record that was tried once, and a finished one. -/
def Store.restarted : Store := Store.empty.putAll
  [(Record.new (.nth 1) default default).locked ⟨"a"⟩ default,
    { Record.new (.nth 2) default default with attempts := 1 },
    (Record.new (.nth 3) default default).accepted default default]

theorem Store.heldBy_restarted : restarted.HeldBy ⟨"a"⟩ := by
  unfold HeldBy
  decide +kernel

end Outbox

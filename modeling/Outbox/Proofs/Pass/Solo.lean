import Outbox.Pass
import Outbox.Proofs.Record.Transitions
import Outbox.Proofs.Store.Lookup

/-!
# A pass on its own

What a pass does to a store in memory that nobody else uses: the batch, how far it is sent, and what
becomes of each record and of all the others.
-/

namespace Outbox

/-! ## One request -/

theorem Host.logAll_of_silent {ω : Type} {h : Host ω} (hlog : ∀ w e, h.log w e = w) (w : ω)
    (entries : List LogEntry) : h.logAll w entries = w := by
  induction entries with
  | nil => rfl
  | cons e es ih =>
      show h.logAll (h.log w e) es = w
      rw [hlog, ih]

namespace Pass

variable {ω : Type} {h : Host ω} {s : Settings} {p : Pass} {w : ω}

theorem advance_over (hp : p.next s = none) : advance h s p w = (p, w) := by
  rw [advance]
  split <;> simp_all

theorem advance_now {resume : Instant → Pass} {t : Instant} (hp : p.next s = some (.now resume))
    (ht : h.now w = some t) : advance h s p w = advance h s (resume t) w := by
  rw [advance]
  split <;> simp_all

theorem advance_call {a : Answer} {c : Call a}
    {resume : Except OutboxError a.Val → Pass × List LogEntry}
    (hp : p.next s = some (.call c resume)) :
    advance h s p w =
      advance h s (resume (h.call c w).1).1 (h.logAll (h.call c w).2 (resume (h.call c w).1).2) := by
  rw [advance]
  split
  · simp_all
  · simp_all
  · rename_i hp'
    rw [hp] at hp'
    cases hp'
    rfl
  · simp_all

theorem advance_send {m : Message} {resume : Except BrokerError Unit → Pass}
    {a : Except BrokerError Unit} {w' : ω} (hp : p.next s = some (.send m resume))
    (ha : h.send m w = (some a, w')) : advance h s p w = advance h s (resume a) w' := by
  rw [advance]
  split <;> simp_all

theorem advance_timeless {resume : Instant → Pass} (hp : p.next s = some (.now resume)) (ht : h.now w = none) :
    advance h s p w = (p, w) := by
  rw [advance]
  split <;> simp_all

theorem advance_unanswered {m : Message} {resume : Except BrokerError Unit → Pass} {w' : ω}
    (hp : p.next s = some (.send m resume)) (ha : h.send m w = (none, w')) : advance h s p w = (p, w') := by
  rw [advance]
  split <;> simp_all

end Pass

/-! ## The surroundings -/

/-- A store of one's own, and what the broker was sent. -/
structure Solo where
  store : Store
  sent : List Message := []
  /-- How many calls and sends there were, for the clock to go by. -/
  asked : Nat := 0

/-- The broker's answers and the times are those of the sequences. -/
def Solo.host (clock : Nat → Instant) (answers : Nat → Except BrokerError Unit) : Host Solo where
  now w := some (clock w.asked)
  call c w := ((w.store.perform c).1, { w with store := (w.store.perform c).2, asked := w.asked + 1 })
  send m w := (some (answers w.sent.length), { w with sent := w.sent ++ [m], asked := w.asked + 1 })
  log w _ := w

namespace Record

def accepted (r : Record) (tried done : Instant) : Record :=
  { r with
    state := .delivered
    lock := none
    processedOn := some done
    attempts := r.attempts + 1
    lastAttemptOn := some tried }

def refused (r : Record) (policy : RetrialPolicy) (tried : Instant) (text : String) : Record :=
  { r with
    state := if policy.isExhausted (r.attempts + 1) then .exhausted else .pending
    lock := none
    attempts := r.attempts + 1
    lastAttemptOn := some tried
    error := some text }

end Record

namespace Pass

/-! ## One record, whatever the surroundings -/

section Host

variable {ω : Type} {h : Host ω} {s : Settings} {w w' : ω} {report : Report} {r : Record}
  {rest : List Record} {tried done : Instant}

theorem advance_sending (hr : r.attempts < Record.maxAttempts) (ht : h.now w = some tried)
    {a : Except BrokerError Unit} (ha : h.send r.message w = (some a, w')) :
    advance h s (proceed report (r :: rest)) w =
      advance h s (sent s report { r with lastAttemptOn := some tried, attempts := r.attempts + 1 } rest a)
        w' := by
  have hstart : r.startAttempt tried =
      some { r with lastAttemptOn := some tried, attempts := r.attempts + 1 } :=
    Record.startAttempt_eq_some_iff.2 ⟨hr, rfl⟩
  rw [proceed, advance_now rfl ht, started, hstart]
  exact advance_send rfl ha

theorem advance_accepting (hpending : r.state = .pending) (hr : r.attempts < Record.maxAttempts)
    (ht : h.now w = some tried) (ha : h.send r.message w = (some (.ok ()), w'))
    (hd : h.now w' = some done) :
    advance h s (proceed report (r :: rest)) w =
      advance h s (saving report (r.accepted tried done) none rest) w' := by
  have hmark : Record.markDelivered { r with lastAttemptOn := some tried, attempts := r.attempts + 1 } done =
      .ok (r.accepted tried done) :=
    Record.markDelivered_eq_ok_iff.2 ⟨hpending, rfl⟩
  rw [advance_sending hr ht ha, sent, advance_now rfl hd, delivered, hmark]

theorem advance_refusing (hpending : r.state = .pending) (hr : r.attempts < Record.maxAttempts)
    (ht : h.now w = some tried) {e : BrokerError} (ha : h.send r.message w = (some (.error e), w')) :
    advance h s (proceed report (r :: rest)) w =
      advance h s (saving report (r.refused s.policy tried e.message) (some e) rest) w' := by
  have hmark : Record.markFailed { r with lastAttemptOn := some tried, attempts := r.attempts + 1 }
      e.message s.policy = .ok (r.refused s.policy tried e.message) :=
    Record.markFailed_eq_ok_iff.2 ⟨hpending, rfl⟩
  rw [advance_sending hr ht ha, sent, hmark]

theorem advance_release {result : Except OutboxError Report} :
    advance h s (releasing result) w =
      (finished result, h.logAll (h.call (.release s.machine) w).2
        (released s result (h.call (.release s.machine) w).1).2) := by
  have hfinished : ∀ a, (released s result a).1 = .finished result := by
    rintro (x | n) <;> rfl
  rw [advance_call rfl, hfinished, advance_over rfl]

end Host

/-! ## One record on a store of one's own -/

variable {clock : Nat → Instant} {answers : Nat → Except BrokerError Unit} {s : Settings} {w : Solo}
  {report : Report} {r : Record} {rest : List Record}

theorem logAll_host (entries : List LogEntry) :
    (Solo.host clock answers).logAll w entries = w :=
  Host.logAll_of_silent (fun _ _ => rfl) w entries

theorem send_host {a : Except BrokerError Unit} (ha : answers w.sent.length = a) {m : Message} :
    (Solo.host clock answers).send m w = (some a, { w with sent := w.sent ++ [m], asked := w.asked + 1 }) := by
  rw [← ha]
  rfl

theorem advance_proceed_nil :
    advance (Solo.host clock answers) s (proceed report []) w =
      (finished (.ok report),
        { w with store := w.store.unlock (Store.OwnedBy s.machine), asked := w.asked + 1 }) := by
  rw [proceed, advance_release, logAll_host]
  rfl

theorem advance_saving {failure : Option BrokerError} (hr : (w.store.get? r.id).isSome) :
    advance (Solo.host clock answers) s (saving report r failure rest) w =
      advance (Solo.host clock answers) s (saved report r failure rest (.ok ())).1
        { w with store := w.store.save r, asked := w.asked + 1 } := by
  obtain ⟨v, hv⟩ := Option.isSome_iff_exists.1 hr
  rw [advance_call rfl, logAll_host]
  simp only [Solo.host, Store.perform, hv]

theorem advance_accepted (hpending : r.state = .pending) (hr : r.attempts < Record.maxAttempts)
    (hstored : (w.store.get? r.id).isSome) (ha : answers w.sent.length = .ok ()) :
    advance (Solo.host clock answers) s (proceed report (r :: rest)) w =
      advance (Solo.host clock answers) s (proceed ⟨report.claimed, report.delivered + 1⟩ rest)
        { store := w.store.save (r.accepted (clock w.asked) (clock (w.asked + 1)))
          sent := w.sent ++ [r.message]
          asked := w.asked + 2 } := by
  rw [advance_accepting hpending hr rfl (send_host ha) rfl]
  exact advance_saving hstored

theorem advance_refused (hpending : r.state = .pending) (hr : r.attempts < Record.maxAttempts)
    (hstored : (w.store.get? r.id).isSome) {e : BrokerError} (ha : answers w.sent.length = .error e) :
    advance (Solo.host clock answers) s (proceed report (r :: rest)) w =
      (finished (.error (.delivery r.id (r.attempts + 1) e)),
        { store := (w.store.save (r.refused s.policy (clock w.asked) e.message)).unlock
            (Store.OwnedBy s.machine)
          sent := w.sent ++ [r.message]
          asked := w.asked + 3 }) := by
  rw [advance_refusing hpending hr rfl (send_host ha), advance_saving, saved, advance_release, logAll_host]
  · rfl
  · exact hstored

end Pass

/-! ## The batch -/

/-- What has become of a batch of `w` of which the first `n` were accepted: the pass `p` and its
surroundings `w'`. -/
structure Settled (clock : Nat → Instant) (answers : Nat → Except BrokerError Unit) (s : Pass.Settings)
    (report : Report) (batch : List Record) (w : Solo) (n : Nat) (p : Pass) (w' : Solo) : Prop where
  le_length : n ≤ batch.length
  answers_ok : ∀ i < n, answers (w.sent.length + i) = .ok ()
  sent : w'.sent = w.sent ++ (batch.take (n + 1)).map Record.message
  accepted : ∀ {i r}, batch[i]? = some r → i < n → w'.store.get? r.id =
    some (r.accepted (clock (2 * i + w.asked)) (clock (2 * i + w.asked + 1)))
  refused : ∀ {r}, batch[n]? = some r → ∃ e, answers (w.sent.length + n) = .error e ∧
    w'.store.get? r.id = some (r.refused s.policy (clock (2 * n + w.asked)) e.message) ∧
    p = .finished (.error (.delivery r.id (r.attempts + 1) e))
  waiting : ∀ {i r}, batch[i]? = some r → n < i → w'.store.get? r.id = some r.unlocked
  other : ∀ {id}, (∀ r ∈ batch, r.id ≠ id) →
    w'.store.get? id = (w.store.unlock (Store.OwnedBy s.machine)).get? id
  complete : n = batch.length → p = .finished (.ok ⟨report.claimed, report.delivered + n⟩)

theorem Settled.exists_result {clock : Nat → Instant} {answers : Nat → Except BrokerError Unit}
    {s : Pass.Settings} {report : Report} {batch : List Record} {w w' : Solo} {n : Nat} {p : Pass}
    (h : Settled clock answers s report batch w n p w') : ∃ result, p = .finished result := by
  rcases Nat.eq_or_lt_of_le h.le_length with he | hlt
  · exact ⟨_, h.complete he⟩
  · obtain ⟨e, -, -, hp⟩ := h.refused (List.getElem?_eq_getElem hlt)
    exact ⟨_, hp⟩

namespace Pass

variable {clock : Nat → Instant} {answers : Nat → Except BrokerError Unit} {s : Settings}

structure Deliverable (s : Settings) (w : Solo) (r : Record) : Prop where
  pending : r.state = .pending
  attempts_lt : r.attempts < Record.maxAttempts
  stored : w.store.get? r.id = some r
  owned : Store.OwnedBy s.machine r = true

theorem get?_released {owner : MachineId} {store : Store} {v : Record}
    (hv : (store.get? v.id).isSome) (hl : v.lock = none) :
    ((store.save v).unlock (Store.OwnedBy owner)).get? v.id = some v := by
  obtain ⟨u, hu⟩ := Option.isSome_iff_exists.1 hv
  rw [Store.get?_unlock, Store.get?_save, if_pos rfl, hu]
  simp [Store.OwnedBy, Record.owner?, hl]

theorem Deliverable.save {w : Solo} {r v : Record} (h : Deliverable s w r) (hne : v.id ≠ r.id)
    (sent : List Message) (asked : Nat) : Deliverable s ⟨w.store.save v, sent, asked⟩ r where
  pending := h.pending
  attempts_lt := h.attempts_lt
  stored := by rw [Store.get?_save, if_neg hne]; exact h.stored
  owned := h.owned

theorem settled_nil (report : Report) (w : Solo) :
    ∃ p w', advance (Solo.host clock answers) s (proceed report []) w = (p, w') ∧
      Settled clock answers s report [] w 0 p w' := by
  refine ⟨_, _, advance_proceed_nil, ?_⟩
  constructor
  · exact Nat.le_refl _
  · intro i hi; exact absurd hi (Nat.not_lt_zero i)
  · exact (List.append_nil _).symm
  · intro i r hr; cases hr
  · intro r hr; cases hr
  · intro i r hr; cases hr
  · intro id _; rfl
  · intro _; rfl

theorem settled_refused {r : Record} {rest : List Record} {w : Solo} (report : Report)
    (hb : ∀ v ∈ r :: rest, Deliverable s w v) (hne : ∀ v ∈ rest, r.id ≠ v.id) {e : BrokerError}
    (ha : answers w.sent.length = .error e) :
    ∃ p w', advance (Solo.host clock answers) s (proceed report (r :: rest)) w = (p, w') ∧
      Settled clock answers s report (r :: rest) w 0 p w' := by
  have hr : Deliverable s w r := hb r List.mem_cons_self
  have hstored : (w.store.get? r.id).isSome := by rw [hr.stored]; rfl
  refine ⟨_, _, advance_refused hr.pending hr.attempts_lt hstored ha, ?_⟩
  constructor
  · exact Nat.zero_le _
  · intro i hi; exact absurd hi (Nat.not_lt_zero i)
  · rfl
  · intro i v _ hi; exact absurd hi (Nat.not_lt_zero i)
  · intro v hv
    obtain rfl : r = v := Option.some.inj hv
    rw [Nat.mul_zero, Nat.zero_add]
    exact ⟨e, ha, get?_released (v := r.refused s.policy (clock w.asked) e.message) hstored rfl, rfl⟩
  · intro i v hv hi
    obtain ⟨j, rfl⟩ := Nat.exists_eq_succ_of_ne_zero (Nat.ne_of_gt hi)
    have hm : v ∈ rest := List.mem_of_getElem? hv
    have hd := (hb v (List.mem_cons_of_mem _ hm)).save (v := r.refused s.policy (clock w.asked) e.message)
      (hne v hm) [] 0
    rw [Store.get?_unlock, hd.stored, Option.map_some, if_pos hd.owned]
  · intro id hid
    have hne : r.id ≠ id := hid r List.mem_cons_self
    rw [Store.get?_unlock, Store.get?_save, Store.get?_unlock]
    exact congrArg _ (if_neg hne)
  · intro he; cases he

/-- An accepted record is settled, and nothing that follows changes it again. -/
theorem settled_accepted {r : Record} {rest : List Record} {w w' : Solo} {report : Report} {n : Nat}
    {p : Pass} (hr : Deliverable s w r) (hne : ∀ v ∈ rest, v.id ≠ r.id)
    (ha : answers w.sent.length = .ok ())
    (h : Settled clock answers s ⟨report.claimed, report.delivered + 1⟩ rest
      { store := w.store.save (r.accepted (clock w.asked) (clock (w.asked + 1)))
        sent := w.sent ++ [r.message]
        asked := w.asked + 2 } n p w') :
    Settled clock answers s report (r :: rest) w (n + 1) p w' := by
  have hstored : (w.store.get? r.id).isSome := by rw [hr.stored]; rfl
  have hlength : ∀ i, (w.sent ++ [r.message]).length + i = w.sent.length + (i + 1) := by
    intro i; rw [List.length_append, List.length_singleton]; omega
  have hasked : ∀ i, 2 * i + (w.asked + 2) = 2 * (i + 1) + w.asked := by
    intro i; omega
  constructor
  · exact Nat.succ_le_succ h.le_length
  · intro i hi
    cases i with
    | zero => exact ha
    | succ i => rw [← hlength i]; exact h.answers_ok i (Nat.lt_of_succ_lt_succ hi)
  · rw [h.sent, List.take_succ_cons, List.map_cons, List.append_assoc]
    rfl
  · intro i v hv hi
    cases i with
    | zero =>
        obtain rfl : r = v := Option.some.inj hv
        rw [h.other hne, Nat.mul_zero, Nat.zero_add]
        exact get?_released (v := r.accepted (clock w.asked) (clock (w.asked + 1))) hstored rfl
    | succ i =>
        rw [← hasked i]
        exact h.accepted hv (Nat.lt_of_succ_lt_succ hi)
  · intro v hv
    rw [← hasked n, ← hlength n]
    exact h.refused hv
  · intro i v hv hi
    cases i with
    | zero => exact absurd hi (Nat.not_lt_zero _)
    | succ i => exact h.waiting hv (Nat.lt_of_succ_lt_succ hi)
  · intro id hid
    have hne : r.id ≠ id := hid r List.mem_cons_self
    rw [h.other fun v hv => hid v (List.mem_cons_of_mem _ hv), Store.get?_unlock, Store.get?_save,
      Store.get?_unlock]
    exact congrArg _ (if_neg hne)
  · intro he
    rw [h.complete (Nat.succ.inj he), Nat.add_assoc, Nat.add_comm 1]

theorem settled (batch : List Record) (report : Report) (w : Solo)
    (hb : ∀ r ∈ batch, Deliverable s w r) (hn : (batch.map Record.id).Nodup) :
    ∃ n p w', advance (Solo.host clock answers) s (proceed report batch) w = (p, w') ∧
      Settled clock answers s report batch w n p w' := by
  induction batch generalizing report w with
  | nil => exact ⟨0, settled_nil report w⟩
  | cons r rest ih =>
      obtain ⟨hfirst, hrest⟩ := List.nodup_cons.1 hn
      have hne : ∀ v ∈ rest, r.id ≠ v.id := fun v hv he => hfirst (he ▸ List.mem_map_of_mem hv)
      have hr : Deliverable s w r := hb r List.mem_cons_self
      cases ha : answers w.sent.length with
      | error e => exact ⟨0, settled_refused report hb hne ha⟩
      | ok =>
          have hb' := fun v hv => (hb v (List.mem_cons_of_mem _ hv)).save
            (v := r.accepted (clock w.asked) (clock (w.asked + 1))) (hne v hv)
            (w.sent ++ [r.message]) (w.asked + 2)
          obtain ⟨n, p, w', hadv, hset⟩ := ih ⟨report.claimed, report.delivered + 1⟩ _ hb' hrest
          have hstored : (w.store.get? r.id).isSome := by rw [hr.stored]; rfl
          exact ⟨n + 1, p, w', (advance_accepted hr.pending hr.attempts_lt hstored ha).trans hadv,
            settled_accepted hr (fun v hv => (hne v hv).symm) ha hset⟩

end Pass

/-! ## The whole pass -/

namespace Store

/-- What a pass of that machine works on: its own leftovers and what is free, the oldest first. -/
def batch (s : Store) (machine : MachineId) : List Record :=
  (s.records.filter fun r => OwnedBy machine r || Claimable .pending r).mergeSort olderOrSame

variable {s : Store} {machine : MachineId} {now : Instant} {r : Record}

theorem mem_batch : r ∈ s.batch machine ↔
    r ∈ s.records ∧ (r.owner? = some machine ∨ (r.state = .pending ∧ r.lock = none)) := by
  cases hl : r.lock <;> simp [batch, OwnedBy, Claimable, Record.isLocked, hl]

theorem pending_of_mem_batch (hl : ∀ r ∈ s.records, r.lock ≠ none → r.state = .pending)
    (hr : r ∈ s.batch machine) : r.state = .pending := by
  obtain ⟨hm, ho | ⟨hp, -⟩⟩ := mem_batch.1 hr
  · refine hl r hm fun hnone => ?_
    rw [Record.owner?, hnone] at ho
    cases ho
  · exact hp

theorem batch_sorted (s : Store) (machine : MachineId) : (s.batch machine).Pairwise fun a b =>
    a.createdOn < b.createdOn ∨ (a.createdOn = b.createdOn ∧ a.id < b.id) := by
  have hage := List.pairwise_mergeSort olderOrSame_trans olderOrSame_total
    (s.records.filter fun r => OwnedBy machine r || Claimable .pending r)
  have hids := List.pairwise_map.1 (s.nodup_sorted fun r => OwnedBy machine r || Claimable .pending r)
  refine (hage.and hids).imp ?_
  rintro a b ⟨hab, hne⟩
  rcases olderOrSame_iff.1 hab with hlt | ⟨he, hle⟩
  · exact Or.inl hlt
  · exact Or.inr ⟨he, RecordId.lt_def.2 (Nat.lt_of_le_of_ne hle fun hn => hne (RecordId.ext hn))⟩

def claimed (machine : MachineId) (now : Instant) (r : Record) : Record :=
  if Claimable .pending r then r.locked machine now else r

theorem ownedBy_claimed :
    OwnedBy machine (claimed machine now r) = (OwnedBy machine r || Claimable .pending r) := by
  unfold claimed
  split
  · rename_i hc
    simp [hc, OwnedBy, Record.owner?, Record.locked]
  · rename_i hc
    simp [hc]

theorem claimed_eq (machine : MachineId) (now : Instant) (r : Record) :
    ∃ lock, claimed machine now r = { r with lock } := by
  unfold claimed
  split
  · exact ⟨_, rfl⟩
  · exact ⟨r.lock, rfl⟩

theorem unlocked_claimed : (claimed machine now r).unlocked = r.unlocked := by
  obtain ⟨lock, he⟩ := claimed_eq machine now r
  rw [he]
  rfl

theorem claimed_id : (claimed machine now r).id = r.id := by
  obtain ⟨lock, he⟩ := claimed_eq machine now r
  rw [he]

theorem claimed_message : (claimed machine now r).message = r.message := by
  obtain ⟨lock, he⟩ := claimed_eq machine now r
  rw [he]

/-- A claim puts the batch under the machine's lock, and leaves it in its order. -/
theorem fetch_claim :
    (s.claim machine now .pending).fetch machine = (s.batch machine).map (claimed machine now) := by
  have horder : ∀ a b : Record,
      olderOrSame a b = olderOrSame (claimed machine now a) (claimed machine now b) := by
    intro a b
    obtain ⟨la, ha⟩ := claimed_eq machine now a
    obtain ⟨lb, hb⟩ := claimed_eq machine now b
    rw [ha, hb]
    rfl
  rw [batch, List.map_mergeSort fun a _ b _ => horder a b]
  show ((s.records.map (claimed machine now)).filter (OwnedBy machine)).mergeSort olderOrSame = _
  rw [List.filter_map]
  congr 2
  exact List.filter_congr fun r _ => ownedBy_claimed

theorem nodup_claimed : (((s.batch machine).map (claimed machine now)).map Record.id).Nodup := by
  have hid : Record.id ∘ claimed machine now = Record.id := funext fun _ => claimed_id
  rw [List.map_map, hid]
  exact s.nodup_sorted _

end Store

/-- A pass without faults, on a store of its own, comes to this: of the batch the first `n` records are
accepted, the next is refused if there is one, and the pass is over. -/
structure Delivery (clock : Nat → Instant) (answers : Nat → Except BrokerError Unit)
    (s : Pass.Settings) (store : Store) (n : Nat) (out : Option (Except OutboxError Report) × Solo) :
    Prop where
  le_length : n ≤ (store.batch s.machine).length
  answers_ok : ∀ i < n, answers i = .ok ()
  sent : out.2.sent = ((store.batch s.machine).take (n + 1)).map Record.message
  accepted : ∀ {i r}, (store.batch s.machine)[i]? = some r → i < n → out.2.store.get? r.id = some
    { r with
      state := .delivered
      lock := none
      processedOn := some (clock (2 * i + 3))
      attempts := r.attempts + 1
      lastAttemptOn := some (clock (2 * i + 2)) }
  refused : ∀ {r}, (store.batch s.machine)[n]? = some r → ∃ e, answers n = .error e ∧
    out.2.store.get? r.id = some
      { r with
        state := if s.policy.isExhausted (r.attempts + 1) then .exhausted else .pending
        lock := none
        attempts := r.attempts + 1
        lastAttemptOn := some (clock (2 * n + 2))
        error := some e.message } ∧
    out.1 = some (.error (.delivery r.id (r.attempts + 1) e))
  waiting : ∀ {i r}, (store.batch s.machine)[i]? = some r → n < i →
    out.2.store.get? r.id = some { r with lock := none }
  other : ∀ {id}, (∀ r ∈ store.batch s.machine, r.id ≠ id) → out.2.store.get? id = store.get? id
  complete : n = (store.batch s.machine).length →
    out.1 = some (.ok ⟨store.count (Store.Claimable .pending), n⟩)

namespace Pass

variable {clock : Nat → Instant} {answers : Nat → Except BrokerError Unit} {s : Settings} {store : Store}

theorem advance_opening {sent : List Message} {asked : Nat} :
    advance (Solo.host clock answers) s opening ⟨store, sent, asked⟩ =
      advance (Solo.host clock answers) s
        (proceed ⟨store.count (Store.Claimable .pending), 0⟩
          ((store.batch s.machine).map (Store.claimed s.machine (clock asked))))
        ⟨store.claim s.machine (clock asked) .pending, sent, asked + 2⟩ := by
  rw [advance_now rfl rfl, advance_call rfl, logAll_host]
  show advance (Solo.host clock answers) s (fetching (store.count (Store.Claimable .pending)))
    ⟨store.claim s.machine (clock asked) .pending, sent, asked + 1⟩ = _
  rw [advance_call rfl, logAll_host, ← Store.fetch_claim]
  rfl

theorem deliverable_claimed (hl : ∀ r ∈ store.records, r.lock ≠ none → r.state = .pending)
    (ha : ∀ r ∈ store.batch s.machine, r.attempts < Record.maxAttempts) {now : Instant} {c : Record}
    (hc : c ∈ (store.batch s.machine).map (Store.claimed s.machine now)) {sent : List Message} {asked : Nat} :
    Deliverable s ⟨store.claim s.machine now .pending, sent, asked⟩ c := by
  obtain ⟨r, hr, rfl⟩ := List.mem_map.1 hc
  have hm : r ∈ store.records := (Store.mem_batch.1 hr).1
  have hpending : r.state = .pending := Store.pending_of_mem_batch hl hr
  obtain ⟨lock, he⟩ := Store.claimed_eq s.machine now r
  constructor
  · rw [he]; exact hpending
  · rw [he]; exact ha r hr
  · rw [Store.claimed_id, Store.get?_claim, Store.get?_of_mem hm]
    rfl
  · rw [Store.ownedBy_claimed]
    exact (List.mem_filter.1 (List.mem_mergeSort.1 hr)).2

theorem get?_untouched {now : Instant} {id : RecordId} (h : ∀ r ∈ store.batch s.machine, r.id ≠ id) :
    ((store.claim s.machine now .pending).unlock (Store.OwnedBy s.machine)).get? id = store.get? id := by
  rw [Store.get?_unlock, Store.get?_claim]
  cases hv : store.get? id with
  | none => rfl
  | some v =>
      have hno : (Store.OwnedBy s.machine v || Store.Claimable .pending v) = false := by
        refine Bool.eq_false_iff.2 fun hyes => ?_
        refine h v (List.mem_mergeSort.2 ?_) (Store.id_of_get? hv)
        exact List.mem_filter.2 ⟨Store.mem_of_get? hv, hyes⟩
      obtain ⟨howned, hfree⟩ := Bool.or_eq_false_iff.1 hno
      simp [howned, hfree]

end Pass

theorem Settled.delivery {clock : Nat → Instant} {answers : Nat → Except BrokerError Unit}
    {s : Pass.Settings} {store : Store} {n : Nat} {p : Pass} {w : Solo}
    (h : Settled clock answers s ⟨store.count (Store.Claimable .pending), 0⟩
      ((store.batch s.machine).map (Store.claimed s.machine (clock 0)))
      ⟨store.claim s.machine (clock 0) .pending, [], 2⟩ n p w) :
    Delivery clock answers s store n (p.result?, w) := by
  have hget : ∀ {i : Nat} {r}, (store.batch s.machine)[i]? = some r →
      ((store.batch s.machine).map (Store.claimed s.machine (clock 0)))[i]? =
        some (Store.claimed s.machine (clock 0) r) := by
    intro i r hr
    rw [List.getElem?_map, hr]
    rfl
  constructor
  · simpa using h.le_length
  · simpa using h.answers_ok
  · show w.sent = _
    rw [h.sent, List.nil_append, ← List.map_take, List.map_map]
    exact List.map_congr_left fun r _ => Store.claimed_message
  · intro i r hr hi
    have hacc := h.accepted (hget hr) hi
    obtain ⟨lock, he⟩ := Store.claimed_eq s.machine (clock 0) r
    rw [he] at hacc
    exact hacc
  · intro r hr
    obtain ⟨e, ha, hv, hp⟩ := h.refused (hget hr)
    obtain ⟨lock, he⟩ := Store.claimed_eq s.machine (clock 0) r
    rw [he] at hv hp
    exact ⟨e, by simpa using ha, hv, congrArg Pass.result? hp⟩
  · intro i r hr hi
    have hv := h.waiting (hget hr) hi
    obtain ⟨lock, he⟩ := Store.claimed_eq s.machine (clock 0) r
    rw [he] at hv
    exact hv
  · intro id hno
    refine (h.other fun c hc => ?_).trans (Pass.get?_untouched hno)
    obtain ⟨r, hr, rfl⟩ := List.mem_map.1 hc
    rw [Store.claimed_id]
    exact hno r hr
  · intro hn
    have hp := h.complete (by simpa using hn)
    rw [Nat.zero_add] at hp
    exact congrArg Pass.result? hp

/-- A pass equals its description, for every store whose locked records are pending, as long as no
attempt counter of the batch is full. -/
theorem deliverBatch_delivery (clock : Nat → Instant) (answers : Nat → Except BrokerError Unit)
    (s : Pass.Settings) (store : Store)
    (hl : ∀ r ∈ store.records, r.lock ≠ none → r.state = .pending)
    (ha : ∀ r ∈ store.batch s.machine, r.attempts < Record.maxAttempts) :
    ∃ n, Delivery clock answers s store n (deliverBatch (Solo.host clock answers) s ⟨store, [], 0⟩) := by
  have hids : (((store.batch s.machine).map (Store.claimed s.machine (clock 0))).map Record.id).Nodup := by
    have he : ((store.batch s.machine).map (Store.claimed s.machine (clock 0))).map Record.id =
        (store.batch s.machine).map Record.id := by
      rw [List.map_map]
      exact List.map_congr_left fun r _ => Store.claimed_id
    rw [he]
    exact store.nodup_sorted _
  obtain ⟨n, p, w, hadv, hset⟩ : ∃ n p w, Pass.advance (Solo.host clock answers) s _ _ = (p, w) ∧
      Settled clock answers s _ _ _ n p w :=
    Pass.settled _ ⟨store.count (Store.Claimable .pending), 0⟩ _
      (fun c hc => Pass.deliverable_claimed hl ha hc) hids
  refine ⟨n, ?_⟩
  rw [deliverBatch, Pass.advance_opening, hadv]
  exact hset.delivery

/-- A leftover of machine a, a free record, one that machine b holds, and a finished one. -/
def Store.mixed : Store := Store.empty.putAll
  [(Record.new (.nth 1) default default).locked ⟨"a"⟩ default, .new (.nth 2) default default,
    (Record.new (.nth 3) default default).locked ⟨"b"⟩ default,
    (Record.new (.nth 4) default default).accepted default default]

theorem Store.mixed_pending : ∀ r ∈ mixed.records, r.lock ≠ none → r.state = .pending := by decide +kernel

theorem Store.mixed_attempts : ∀ r ∈ mixed.records, r.attempts < Record.maxAttempts := by decide +kernel

theorem Store.mixed_room {machine : MachineId} :
    ∀ r ∈ mixed.batch machine, r.attempts < Record.maxAttempts :=
  fun r hr => mixed_attempts r (mem_batch.1 hr).1

theorem deliverBatch_delivery_mixed :
    (∀ r ∈ Store.mixed.records, r.lock ≠ none → r.state = .pending) ∧
      (∀ r ∈ Store.mixed.batch ⟨"a"⟩, r.attempts < Record.maxAttempts) ∧
      ∃ n, Delivery (fun _ => default) (fun i => if i = 0 then .ok () else .error { message := "nack" })
        ⟨⟨"a"⟩, .limited 1⟩ .mixed n
        (deliverBatch
          (Solo.host (fun _ => default) fun i => if i = 0 then .ok () else .error { message := "nack" })
          ⟨⟨"a"⟩, .limited 1⟩ ⟨.mixed, [], 0⟩) :=
  ⟨Store.mixed_pending, Store.mixed_room,
    deliverBatch_delivery _ _ ⟨⟨"a"⟩, .limited 1⟩ .mixed Store.mixed_pending Store.mixed_room⟩

end Outbox

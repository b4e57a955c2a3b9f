import Outbox.Proofs.Store.Commit
import Outbox.Session

/-!
# Publishing in transactions

One publisher sends into any number of transactions that are open side by side, and the calls that put
its records there may fail. What was sent is stored from the commit of its transaction on, and nothing
else is; no commit is refused.
-/

namespace Outbox

theorem RecordId.number_nth {n : Nat} (h : n < Nat.pow 2 80) : (nth n).number = n := by
  have hle : Nat.pow 2 80 ≤ Nat.pow 2 128 := by decide
  simp only [nth, ofParts, ofNat, Nat.zero_mod, Nat.zero_mul, Nat.zero_add]
  rw [Nat.mod_eq_of_lt h, Nat.mod_eq_of_lt (Nat.lt_of_lt_of_le h hle)]

namespace Session

/-! ## Open transactions -/

section

variable {s : Session} {tx tx' : String} {t : Transaction}

theorem transaction_close :
    (s.close tx).transaction tx' = if tx' = tx then {} else s.transaction tx' := by
  have hlookup : ∀ l : List (String × Transaction),
      (l.filter (·.1 ≠ tx)).lookup tx' = if tx' = tx then none else l.lookup tx' := by
    intro l
    induction l with
    | nil => simp
    | cons e es ih =>
        obtain ⟨name, u⟩ := e
        by_cases he : name = tx
        · rw [List.filter_cons_of_neg (by simpa using he), ih, List.lookup_cons]
          split
          · rfl
          · rename_i hne
            rw [he, beq_false_of_ne hne]
        · rw [List.filter_cons_of_pos (by simpa using he), List.lookup_cons, List.lookup_cons, ih]
          by_cases he' : tx' = name
          · simp [he', he]
          · rw [beq_false_of_ne he']
  rw [transaction, close, hlookup]
  split <;> rfl

theorem transaction_setTransaction :
    (s.setTransaction tx t).transaction tx' = if tx' = tx then t else s.transaction tx' := by
  have hclose : (s.close tx).transaction tx' = if tx' = tx then {} else s.transaction tx' :=
    transaction_close
  unfold transaction setTransaction at *
  rw [List.lookup_cons]
  by_cases h : tx' = tx
  · simp [h]
  · rw [if_neg h] at hclose ⊢
    rw [beq_false_of_ne h]
    exact hclose

end

/-! ## Moves -/

/-- The steps of the publisher and its callers, and those of the clock. -/
def Step.Publishing : Step → Prop
  | .begin _ | .send .. | .commit _ | .drop _ | .set _ | .advance _ => True
  | _ => False

def Step.isSend : Step → Bool
  | .send .. => true
  | _ => false

/-- The transaction that the step begins or ends. -/
def Step.bounds? : Step → Option String
  | .begin tx | .commit tx | .drop tx => some tx
  | _ => none

/-- A step that was made, with the time that it found and what came of it. -/
structure Move where
  step : Step
  now : Instant
  reply : Reply

namespace Move

def id? (m : Move) : Option RecordId :=
  match m.reply with
  | .id id => some id
  | _ => none

/-- A successful send into the transaction, for which this record is staged. -/
def Sends (tx : String) (r : Record) (m : Move) : Prop :=
  ∃ message faults, m.step = .send tx message faults ∧ m.reply = .id r.id ∧
    r = { id := r.id, message, createdOn := m.now, state := .pending, lock := none, processedOn := none
          attempts := 0, lastAttemptOn := none, error := none }

/-- The publisher is told of the error of the store, and of no other. -/
def Answered (m : Move) : Prop :=
  ∀ {tx message faults}, m.step = .send tx message faults →
    match (Fault.strike .add faults).1 with
    | some e => m.reply = .failed e
    | none => ∃ id, m.reply = .id id

end Move

/-- The record was sent into the transaction that is open under this name. The latest move comes
first. -/
inductive Open (tx : String) (r : Record) : List Move → Prop
  | sent {m ms} (h : m.Sends tx r) : Open tx r (m :: ms)
  | kept {m ms} (hm : m.step.bounds? ≠ some tx) (h : Open tx r ms) : Open tx r (m :: ms)

/-- The record was sent into a transaction that was then committed. -/
inductive Published (r : Record) : List Move → Prop
  | committed {m ms tx} (hm : m.step = .commit tx) (h : Open tx r ms) : Published r (m :: ms)
  | before {m ms} (h : Published r ms) : Published r (m :: ms)

def ids (ms : List Move) : List RecordId := ms.filterMap Move.id?

section

variable {m : Move} {ms : List Move} {tx tx' : String} {r v : Record}

theorem open_cons : Open tx r (m :: ms) ↔ m.Sends tx r ∨ (m.step.bounds? ≠ some tx ∧ Open tx r ms) := by
  constructor
  · rintro (h | ⟨hm, h⟩)
    · exact Or.inl h
    · exact Or.inr ⟨hm, h⟩
  · rintro (h | ⟨hm, h⟩)
    · exact .sent h
    · exact .kept hm h

theorem published_cons :
    Published r (m :: ms) ↔ (∃ tx, m.step = .commit tx ∧ Open tx r ms) ∨ Published r ms := by
  constructor
  · rintro (⟨hm, h⟩ | h)
    · exact Or.inl ⟨_, hm, h⟩
    · exact Or.inr h
  · rintro (⟨tx, hm, h⟩ | h)
    · exact .committed hm h
    · exact .before h

theorem Move.Sends.id?_eq (h : m.Sends tx r) : m.id? = some r.id := by
  obtain ⟨message, faults, -, hr, -⟩ := h
  rw [Move.id?, hr]

theorem ids_cons : ids (m :: ms) = m.id?.toList ++ ids ms := by
  unfold ids
  cases h : m.id? <;> simp [h]

theorem mem_ids_cons {id : RecordId} (h : id ∈ ids ms) : id ∈ ids (m :: ms) := by
  rw [ids_cons]
  exact List.mem_append_right _ h

theorem Move.Sends.id_mem (h : m.Sends tx r) : r.id ∈ ids (m :: ms) := by
  rw [ids_cons, h.id?_eq]
  exact List.mem_cons_self

theorem Move.Sends.not_mem (h : m.Sends tx r) (hn : (ids (m :: ms)).Nodup) : r.id ∉ ids ms := by
  rw [ids_cons, h.id?_eq] at hn
  exact (List.nodup_cons.1 hn).1

theorem nodup_ids_tail (hn : (ids (m :: ms)).Nodup) : (ids ms).Nodup := by
  rw [ids_cons] at hn
  exact (List.nodup_append.1 hn).2.1

theorem Open.id_mem (h : Open tx r ms) : r.id ∈ ids ms := by
  induction h with
  | sent h => exact h.id_mem
  | kept _ _ ih => exact mem_ids_cons ih

theorem Published.id_mem (h : Published r ms) : r.id ∈ ids ms := by
  induction h with
  | committed _ h => exact mem_ids_cons h.id_mem
  | before _ ih => exact mem_ids_cons ih

/-- A record was sent once, into one transaction. -/
theorem Open.unique (hn : (ids ms).Nodup) (h : Open tx r ms) (h' : Open tx' v ms) (he : r.id = v.id) :
    tx = tx' ∧ r = v := by
  induction h with
  | @sent m ms h =>
      rcases open_cons.1 h' with h' | ⟨-, h'⟩
      · obtain ⟨_, _, hs, _, hr⟩ := h
        obtain ⟨_, _, hs', _, hv⟩ := h'
        rw [hs] at hs'
        cases hs'
        exact ⟨rfl, by rw [hr, hv, he]⟩
      · exact absurd (he ▸ h'.id_mem) (h.not_mem hn)
  | @kept m ms hm h ih =>
      rcases open_cons.1 h' with h' | ⟨-, h'⟩
      · exact absurd (he ▸ h.id_mem) (h'.not_mem hn)
      · exact ih (nodup_ids_tail hn) h'

/-- What is open is not yet published. -/
theorem Open.apart (hn : (ids ms).Nodup) (h : Open tx r ms) (h' : Published v ms) : r.id ≠ v.id := by
  induction h with
  | @sent m ms h =>
      intro he
      refine h.not_mem hn (he ▸ ?_)
      rcases published_cons.1 h' with ⟨tx', hm, -⟩ | h'
      · obtain ⟨_, _, hs, -⟩ := h
        rw [hs] at hm
        cases hm
      · exact h'.id_mem
  | @kept m ms hm h ih =>
      rcases published_cons.1 h' with ⟨tx', hc, h'⟩ | h'
      · intro he
        obtain ⟨rfl, -⟩ := h.unique (nodup_ids_tail hn) h' he
        exact hm (by rw [hc]; rfl)
      · exact ih (nodup_ids_tail hn) h'

end

/-! ## Runs -/

/-- A session and all moves that were made in it, the latest first. -/
structure Diary where
  session : Session
  moves : List Move := []

namespace Diary

variable (d : Diary)

def step (st : Step) : Diary :=
  ⟨(d.session.step st).2.1, ⟨st, d.session.now, (d.session.step st).1⟩ :: d.moves⟩

def run (steps : List Step) : Diary := steps.foldl step d

/-- What callers can rely on, whatever else is going on. -/
structure Isolated : Prop where
  distinct : (ids d.moves).Nodup
  answered : ∀ m ∈ d.moves, m.Answered
  accepted : ∀ m ∈ d.moves, ∀ tx, m.step = .commit tx → m.reply = .done
  staged : ∀ tx r, r ∈ (d.session.transaction tx).staged ↔ Open tx r d.moves
  stored : ∀ r, r ∈ d.session.store.records ↔ Published r d.moves

/-- The ids that were given out do not run ahead of the counter. -/
structure Sound : Prop extends d.Isolated where
  numbered : ∀ id ∈ ids d.moves, id.number ≤ d.session.issued

end Diary

section

variable {s : Session} {tx : String} {m : Message} {faults : List Fault}

theorem send_of_struck {e : OutboxError} (h : (Fault.strike .add faults).1 = some e) :
    s.send tx m faults = (.failed e, { s with issued := s.issued + 1 },
      [.add "" (.new (.nth (s.issued + 1)) m s.now) (.error e)]) := by
  simp only [send, publish, h]
  rfl

theorem send_of_spared (h : (Fault.strike .add faults).1 = none) :
    s.send tx m faults = (.id (.nth (s.issued + 1)),
      { s with issued := s.issued + 1 }.setTransaction tx
        ((s.transaction tx).add (.new (.nth (s.issued + 1)) m s.now)),
      [.add "" (.new (.nth (s.issued + 1)) m s.now) (.ok ()),
        .log (.recordEnqueued (.nth (s.issued + 1)) m.topic)]) := by
  simp only [send, publish, h]
  rfl

theorem step_advance (s : Session) (nanos : Int) :
    (∃ now, s.step (.advance nanos) = (.time now, { s with now }, [])) ∨
      s.step (.advance nanos) = (.brokenOff, s, []) := by
  simp only [step]
  split
  · exact Or.inl ⟨_, rfl⟩
  · exact Or.inr rfl

end

namespace Diary.Sound

variable {d : Diary}

theorem start (now : Instant) : Sound ⟨{ now }, []⟩ where
  distinct := List.nodup_nil
  answered _ h := nomatch h
  accepted _ h := nomatch h
  staged _ _ := iff_of_false (fun h => nomatch h) (fun h => nomatch h)
  stored _ := iff_of_false (fun h => nomatch h) (fun h => nomatch h)
  numbered _ h := nomatch h

/-- Moves that return no id. -/
theorem silent {s : Session} {m : Move} (h : d.Sound) (hid : m.id? = none) (ha : m.Answered)
    (hc : ∀ tx, m.step = .commit tx → m.reply = .done) (hi : d.session.issued ≤ s.issued)
    (hstaged : ∀ tx r, r ∈ (s.transaction tx).staged ↔
      m.step.bounds? ≠ some tx ∧ r ∈ (d.session.transaction tx).staged)
    (hstored : ∀ r, r ∈ s.store.records ↔
      (∃ tx, m.step = .commit tx ∧ r ∈ (d.session.transaction tx).staged) ∨ r ∈ d.session.store.records) :
    Sound ⟨s, m :: d.moves⟩ := by
  have hids : ids (m :: d.moves) = ids d.moves := by rw [ids_cons, hid]; rfl
  have hnot : ∀ tx r, ¬ m.Sends tx r := by
    intro tx r hs
    rw [hs.id?_eq] at hid
    cases hid
  constructor
  · constructor
    · exact hids ▸ h.distinct
    · exact List.forall_mem_cons.2 ⟨ha, h.answered⟩
    · exact List.forall_mem_cons.2 ⟨hc, h.accepted⟩
    · intro tx r
      rw [hstaged, open_cons, h.staged, or_iff_right (hnot tx r)]
    · intro r
      simp only [hstored, published_cons, h.staged, h.stored]
  · intro id hm
    exact Nat.le_trans (h.numbered id (hids ▸ hm)) hi

/-- Steps that concern no transaction. -/
theorem idle {s : Session} {m : Move} (h : d.Sound) (hid : m.id? = none) (ha : m.Answered)
    (hb : m.step.bounds? = none) (hi : d.session.issued ≤ s.issued)
    (ht : s.transactions = d.session.transactions) (hs : s.store = d.session.store) :
    Sound ⟨s, m :: d.moves⟩ := by
  have hc : ∀ tx, m.step ≠ .commit tx := by
    intro tx he
    rw [he] at hb
    cases hb
  refine h.silent hid ha (fun tx he => absurd he (hc tx)) hi (fun tx r => ?_) (fun r => ?_)
  · simp [transaction, ht, hb]
  · simp [hs, hc]

/-- A transaction begins or is dropped. -/
theorem cleared {s : Session} {m : Move} {tx : String} (h : d.Sound) (hid : m.id? = none)
    (hm : m.step = .begin tx ∨ m.step = .drop tx) (hi : s.issued = d.session.issued)
    (ht : ∀ tx', s.transaction tx' = if tx' = tx then {} else d.session.transaction tx')
    (hs : s.store = d.session.store) : Sound ⟨s, m :: d.moves⟩ := by
  have hb : m.step.bounds? = some tx := by rcases hm with hm | hm <;> rw [hm] <;> rfl
  have hc : ∀ tx', m.step ≠ .commit tx' := by rcases hm with hm | hm <;> simp [hm]
  have ha : m.Answered := by rcases hm with hm | hm <;> simp [Move.Answered, hm]
  refine h.silent hid ha (fun tx' he => absurd he (hc tx')) (Nat.le_of_eq hi.symm) (fun tx' r => ?_)
    (fun r => ?_)
  · rw [ht, hb]
    by_cases he : tx' = tx
    · simp [he]
    · simp [he, Ne.symm he]
  · simp [hs, hc]

theorem not_collides (h : d.Sound) (tx : String) :
    ¬ d.session.store.Collides (d.session.transaction tx) := by
  rintro ⟨r, hr, hs⟩
  obtain ⟨v, hv⟩ := Option.isSome_iff_exists.1 hs
  have hopen := (h.staged tx r).1 hr
  have hpublished := (h.stored v).1 (Store.mem_of_get? hv)
  exact hopen.apart h.distinct hpublished (Store.id_of_get? hv).symm

theorem committed (h : d.Sound) (tx : String) : (d.step (.commit tx)).Sound := by
  have hcommit := Store.commit_of_not_collides (h.not_collides tx)
  have hstep : d.step (.commit tx) = ⟨{ d.session.close tx with
      store := d.session.store.putAll (d.session.transaction tx).staged },
      ⟨.commit tx, d.session.now, .done⟩ :: d.moves⟩ := by
    simp only [Diary.step, Session.step, hcommit]
    rfl
  have hsame : ∀ u ∈ (d.session.transaction tx).staged, ∀ v ∈ (d.session.transaction tx).staged,
      u.id = v.id → u = v := by
    intro u hu v hv he
    exact (((h.staged tx u).1 hu).unique h.distinct ((h.staged tx v).1 hv) he).2
  have hnew : ∀ u ∈ (d.session.transaction tx).staged, d.session.store.get? u.id = none := by
    intro u hu
    rw [← Option.not_isSome_iff_eq_none]
    exact fun hs => h.not_collides tx ⟨u, hu, hs⟩
  rw [hstep]
  refine h.silent rfl nofun (fun _ _ => rfl) (Nat.le_refl _) (fun tx' r => ?_) (fun r => ?_)
  · show r ∈ ((d.session.close tx).transaction tx').staged ↔ some tx ≠ some tx' ∧ _
    rw [transaction_close]
    by_cases he : tx' = tx
    · simp [he]
    · simp [he, Ne.symm he]
  · show r ∈ (d.session.store.putAll (d.session.transaction tx).staged).records ↔ _
    rw [Store.mem_putAll hsame hnew]
    simp

theorem refused (h : d.Sound) {tx : String} {m : Message} {faults : List Fault} {e : OutboxError}
    (hf : (Fault.strike .add faults).1 = some e) : (d.step (.send tx m faults)).Sound := by
  have hstep : d.step (.send tx m faults) = ⟨{ d.session with issued := d.session.issued + 1 },
      ⟨.send tx m faults, d.session.now, .failed e⟩ :: d.moves⟩ := by
    simp only [Diary.step, Session.step, send_of_struck hf]
  rw [hstep]
  refine h.idle rfl ?_ rfl (Nat.le_succ _) rfl rfl
  rintro tx' message faults' ⟨⟩
  rw [hf]

theorem sent (h : d.Sound) {tx : String} {m : Message} {faults : List Fault}
    (hf : (Fault.strike .add faults).1 = none) (hroom : d.session.issued + 1 < Nat.pow 2 80) :
    (d.step (.send tx m faults)).Sound := by
  generalize hid : RecordId.nth (d.session.issued + 1) = id
  have hnumber : id.number = d.session.issued + 1 := by rw [← hid, RecordId.number_nth hroom]
  have hfresh : id ∉ ids d.moves := by
    intro hm
    have := h.numbered id hm
    omega
  have hstep : d.step (.send tx m faults) =
      ⟨{ d.session with issued := d.session.issued + 1 }.setTransaction tx
        ((d.session.transaction tx).add (.new id m d.session.now)),
        ⟨.send tx m faults, d.session.now, .id id⟩ :: d.moves⟩ := by
    simp only [Diary.step, Session.step, send_of_spared hf, hid]
  have hsends : ∀ tx' r, Move.Sends tx' r ⟨.send tx m faults, d.session.now, .id id⟩ ↔
      tx' = tx ∧ r = .new id m d.session.now := by
    intro tx' r
    constructor
    · rintro ⟨message, faults', hs, hr, he⟩
      cases hs
      cases hr
      exact ⟨rfl, he⟩
    · rintro ⟨rfl, rfl⟩
      exact ⟨m, faults, rfl, rfl, rfl⟩
  rw [hstep]
  constructor
  · constructor
    · exact List.nodup_cons.2 ⟨hfresh, h.distinct⟩
    · refine List.forall_mem_cons.2 ⟨?_, h.answered⟩
      rintro tx' message faults' ⟨⟩
      rw [hf]
      exact ⟨id, rfl⟩
    · exact List.forall_mem_cons.2 ⟨nofun, h.accepted⟩
    · intro tx' r
      rw [transaction_setTransaction, open_cons, hsends, ← h.staged]
      by_cases he : tx' = tx
      · simp [he, Transaction.add, Step.bounds?, or_comm]
      · simp [he, Step.bounds?]
        rfl
    · intro r
      rw [published_cons, ← h.stored]
      simp
      rfl
  · intro v hv
    rcases List.mem_cons.1 hv with rfl | hv
    · exact Nat.le_of_eq hnumber
    · exact Nat.le_succ_of_le (h.numbered v hv)

theorem moved (h : d.Sound) {st : Step} (hp : st.Publishing)
    (hroom : st.isSend = true → d.session.issued + 1 < Nat.pow 2 80) : (d.step st).Sound := by
  cases st with
  | begin tx => exact h.cleared rfl (Or.inl rfl) rfl (fun _ => transaction_setTransaction) rfl
  | drop tx => exact h.cleared rfl (Or.inr rfl) rfl (fun _ => transaction_close) rfl
  | commit tx => exact h.committed tx
  | send tx m faults =>
      cases hf : (Fault.strike .add faults).1 with
      | some e => exact h.refused hf
      | none => exact h.sent hf (hroom rfl)
  | set now => exact h.idle rfl nofun rfl (Nat.le_refl _) rfl rfl
  | advance nanos =>
      rcases step_advance d.session nanos with ⟨now, he⟩ | he
      · rw [Diary.step, he]
        exact h.idle rfl nofun rfl (Nat.le_refl _) rfl rfl
      · rw [Diary.step, he]
        exact h.idle rfl nofun rfl (Nat.le_refl _) rfl rfl
  | _ => cases hp

theorem issued_step {st : Step} (hp : st.Publishing) :
    (d.step st).session.issued ≤ d.session.issued + if st.isSend then 1 else 0 := by
  cases st with
  | commit tx =>
      rcases Store.commit_cases d.session.store (d.session.transaction tx) with ⟨e, he⟩ | ⟨he, -⟩ <;>
        simp [Diary.step, Session.step, he, close]
  | send tx m faults =>
      cases hf : (Fault.strike .add faults).1 with
      | some e => simp [Diary.step, Session.step, send_of_struck hf, Step.isSend]
      | none => simp [Diary.step, Session.step, send_of_spared hf, Step.isSend, setTransaction, close]
  | advance nanos =>
      rcases step_advance d.session nanos with ⟨now, he⟩ | he <;> simp [Diary.step, he]
  | begin tx | drop tx | set now => exact Nat.le_add_right ..
  | _ => cases hp

theorem run (h : d.Sound) {steps : List Step} (hp : ∀ st ∈ steps, st.Publishing)
    (hroom : d.session.issued + steps.countP Step.isSend < Nat.pow 2 80) : (d.run steps).Sound := by
  induction steps generalizing d with
  | nil => exact h
  | cons st sts ih =>
      obtain ⟨hst, hsts⟩ := List.forall_mem_cons.1 hp
      have hissued := issued_step (d := d) hst
      rw [List.countP_cons] at hroom
      refine ih (h.moved hst fun hsend => ?_) hsts (by omega)
      rw [if_pos hsend] at hroom
      omega

end Diary.Sound

/-- However the callers of one publisher interleave their transactions, with fewer sends than a counter
of 64 bits has room for. -/
theorem run_isolated (now : Instant) (steps : List Step) (hp : ∀ st ∈ steps, st.Publishing)
    (hn : steps.countP Step.isSend < Nat.pow 2 64 - 1) : (Diary.run ⟨{ now }, []⟩ steps).Isolated := by
  have hle : Nat.pow 2 64 ≤ Nat.pow 2 80 := by decide
  have hroom : 0 + steps.countP Step.isSend < Nat.pow 2 80 := by omega
  exact ((Diary.Sound.start now).run hp hroom).toIsolated

/-- Two transactions side by side: one is dropped, the other has a send refused. -/
def sideBySide : List Step :=
  let lost : Fault := { operation := .add, error := Fault.injected "lost" }
  [.begin "a", .send "a" default [], .begin "b", .send "b" default [lost], .advance 1,
    .send "b" default [], .drop "a", .commit "b"]

theorem run_isolated_sideBySide :
    (∀ st ∈ sideBySide, st.Publishing) ∧ sideBySide.countP Step.isSend < Nat.pow 2 64 - 1 ∧
      (Diary.run ⟨{ now := default }, []⟩ sideBySide).Isolated := by
  have hp : ∀ st ∈ sideBySide, st.Publishing := by simp [sideBySide, Step.Publishing]
  have hn : sideBySide.countP Step.isSend < Nat.pow 2 64 - 1 := by decide
  exact ⟨hp, hn, run_isolated default sideBySide hp hn⟩

/-- Only the send that was committed is stored, under the third id. -/
example : (Diary.run ⟨{ now := default }, []⟩ sideBySide).session.store.records.map Record.id = [.nth 3] := by
  decide +kernel

end Session

end Outbox

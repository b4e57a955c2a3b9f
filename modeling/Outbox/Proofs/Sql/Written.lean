import Outbox.Proofs.Message.RoundTrip
import Outbox.Proofs.Sql.Table

/-!
# Written rows are read back

The two ways of writing a record give the same row, but for the order of the headers in its binary form,
and the row is read back as the record. A record with more attempts than the column holds is not sent.
-/

namespace Outbox.Sql

variable {row : Row} {r : Record} {rows : List Row} {rs : List Record} {t : Table}
  {e : Message.Encoding}

/-- The row is a written form of the record, with the headers in some order. -/
structure Row.Holds (row : Row) (r : Record) : Prop where
  data : r.message.IsBlob row.data
  eq : row = .ofRecord r row.data

/-! ## Reading -/

theorem lock_ofRecord {data : List UInt8} : (Row.ofRecord r data).lock = r.lock := by
  unfold Row.lock Row.ofRecord Record.owner? Record.lockedOn?
  cases r.lock <;> rfl

theorem record_eq {state : State} {message : Message} (hstate : State.ofNumber? row.state = some state)
    (hattempts : 0 ≤ row.attempts) (hmessage : Message.decode row.data = .ok message) :
    row.record = .ok { id := row.id, message, state, createdOn := row.createdOn, lock := row.lock
                       processedOn := row.processedOn, attempts := row.attempts.toNat
                       lastAttemptOn := row.lastAttemptedOn, error := row.error } := by
  simp only [Row.record, hstate, hmessage, Int.not_lt.2 hattempts, if_false]
  rfl

namespace Row.Holds

theorem id (h : row.Holds r) : row.id = r.id := by
  rw [h.eq]
  rfl

theorem createdOn (h : row.Holds r) : row.createdOn = r.createdOn := by
  rw [h.eq]
  rfl

theorem fits (h : row.Holds r) (hr : r.attempts ≤ maxAttempts) : row.Fits := by
  have hroom : maxAttempts < Nat.pow 2 (32 - 1) := by decide
  rw [h.eq]
  constructor
  · cases hs : r.state <;> simp only [Row.ofRecord, hs] <;> decide
  · simp only [Row.ofRecord, Value.Within]
    omega

theorem record (h : row.Holds r) (hr : r.message.size < Blob.hugeLength) : row.record = .ok r := by
  have hmessage : Message.decode row.data = .ok r.message := by
    obtain ⟨headers, hp, hd⟩ := h.data
    rw [hd, Message.decode, Message.ofBlob, (Message.reads_blobWith hp hr).readAll]
    rfl
  have hstate : State.ofNumber? row.state = some r.state := by
    rw [h.eq]
    exact State.ofNumber?_number r.state
  have hattempts : row.attempts = r.attempts := by rw [h.eq]; rfl
  rw [record_eq hstate (by omega) hmessage, h.eq, lock_ofRecord]
  rfl

end Row.Holds

theorem mapM_record (h : List.Forall₂ Row.Holds rows rs)
    (hrs : ∀ r ∈ rs, r.message.size < Blob.hugeLength) : rows.mapM Row.record = .ok rs := by
  apply mapM_eq_pure
  induction h with
  | nil => exact .nil
  | cons hrow _ ih =>
      rw [List.forall_mem_cons] at hrs
      exact .cons (hrow.record hrs.1) (ih hrs.2)

/-! ## Writing -/

def written (e : Message.Encoding) (r : Record) : Row := .ofRecord r (e.write r.message)

theorem holds_written : (written e r).Holds r := ⟨e.isBlob_write r.message, rfl⟩

theorem writtenRow_eq {op : Operation} (hr : r.attempts ≤ maxAttempts) :
    writtenRow e op r = .ok (written e r) := if_pos hr

theorem writtenRow_of_overflow {op : Operation} (hr : maxAttempts < r.attempts) :
    writtenRow e op r = .error (.store (opName op.name) (.attemptsOverflow r.attempts)) :=
  if_neg (Nat.not_le.2 hr)

/-- What a save sets. -/
def saving (row : Row) : List (Column × Term) :=
  (row.values Column.nonKey).map fun v => (v.1, .param v.2)

theorem insertion_eq (hr : r.attempts ≤ maxAttempts) :
    insertion e r = .ok (.insert ((written e r).values Column.all)) := by
  rw [insertion, writtenRow_eq hr]
  rfl

theorem statement_save (hr : r.attempts ≤ maxAttempts) :
    statement e (.save r) =
      .ok (.update (saving (written e r)) (.compare .id .equal (.uuid r.id))) := by
  rw [statement, writtenRow_eq hr]
  rfl

theorem insertion_of_overflow (hr : maxAttempts < r.attempts) :
    insertion e r = .error (.store (opName Operation.add.name) (.attemptsOverflow r.attempts)) := by
  rw [insertion, writtenRow_of_overflow hr]
  rfl

theorem statement_save_of_overflow (hr : maxAttempts < r.attempts) :
    statement e (.save r) =
      .error (.store (opName Operation.save.name) (.attemptsOverflow r.attempts)) := by
  rw [statement, writtenRow_of_overflow hr]
  rfl

theorem inserted_values (row : Row) :
    inserted (Statement.insert (row.values Column.all)).params ((row.values Column.all).map Prod.fst) =
      row.value := by
  funext c
  cases c <;> rfl

/-- All columns but the id are set. -/
theorem updated_saving {old : Row} {only : Condition} (hid : old.id = row.id) (hrow : row.Fits) :
    old.updated (Statement.update (saving row) only).params (saving row) = some row := by
  have hcells : (fun c => (assigned (Statement.update (saving row) only).params c 1 (saving row)).getD
      (old.value c)) = row.value := by
    funext c
    cases c with
    | id => exact congrArg Value.uuid hid
    | _ => rfl
  rw [Row.updated, hcells, Row.ofValues_value hrow]

theorem execute_insert (hrow : row.Fits) (hnew : ∀ other ∈ t.rows, other.id ≠ row.id) :
    ∃ t', Table.execute (.insert (row.values Column.all)) t = (.ok { affected := 1 }, t') ∧
      t'.rows = row :: t.rows := by
  rw [Table.execute, Table.run, inserted_values, Row.ofValues_value hrow]
  exact Table.insert_eq hnew

theorem selects_id {id : RecordId} {ps : List Value} {n : Nat} (hps : param ps n = .uuid id) :
    (Condition.compare .id .equal (.uuid id)).selects ps n = fun other => decide (other.id = id) := by
  funext other
  simp [Condition.selects, Condition.truth, Row.value, hps, truth_equal_uuid]

theorem execute_saving (hrow : row.Fits) :
    ∃ t', Table.execute (.update (saving row) (.compare .id .equal (.uuid row.id))) t =
        (.ok { affected := t.rows.countP fun other => other.id = row.id }, t') ∧
      t'.rows = t.rows.map fun other => if other.id = row.id then row else other := by
  rw [Table.execute, Table.run, selects_id rfl]
  have hid : ∀ other ∈ t.rows, decide (other.id = row.id) = true → row.id = other.id :=
    fun other _ h => (of_decide_eq_true h).symm
  simpa using Table.update_eq (fun other ho h => updated_saving (hid other ho h).symm hrow) hid

/-! ## On a database -/

section Database

variable {ω : Type} {execute : Statement → ω → Reply × ω} {w w' : ω}

theorem call_eq {a : Answer} {k : Call a} {s : Statement} {reply : Answered} (hs : statement e k = .ok s)
    (h : execute s w = (.ok reply, w')) : call execute e k w = (answer k reply, w') := by
  simp only [call, hs, executeFor, h]

theorem call_of_error {a : Answer} {k : Call a} {f : OutboxError} (hs : statement e k = .error f) :
    call execute e k w = (.error f, w) := by
  simp only [call, hs]

theorem add_eq {s : Statement} {reply : Answered} (hs : insertion e r = .ok s)
    (h : execute s w = (.ok reply, w')) : add execute e r w = (.ok (), w') := by
  simp only [add, hs, executeFor, h]

theorem add_of_error {f : OutboxError} (hs : insertion e r = .error f) :
    add execute e r w = (.error f, w) := by
  simp only [add, hs]

end Database

theorem answer_save {n : Nat} (hn : 0 < n) : answer (.save r) { affected := n } = .ok () :=
  if_neg (Nat.ne_of_gt hn)

theorem add_table (hr : r.attempts ≤ maxAttempts) (hnew : ∀ other ∈ t.rows, other.id ≠ r.id) :
    ∃ t', add Table.execute e r t = (.ok (), t') ∧ t'.rows = written e r :: t.rows := by
  obtain ⟨t', ht, hrows⟩ := execute_insert (holds_written.fits hr) hnew
  exact ⟨t', add_eq (insertion_eq hr) ht, hrows⟩

theorem save_table (hr : r.attempts ≤ maxAttempts) :
    ∃ t', call Table.execute e (.save r) t =
        (answer (.save r) { affected := t.rows.countP fun other => other.id = r.id }, t') ∧
      t'.rows = t.rows.map fun other => if other.id = r.id then written e r else other := by
  obtain ⟨t', ht, hrows⟩ := execute_saving (holds_written.fits hr)
  exact ⟨t', call_eq (statement_save hr) ht, hrows⟩

/-- The row that adding the record puts into a table, and that saving it puts in the place of another. -/
structure Writes (e : Message.Encoding) (r : Record) (row : Row) : Prop where
  added : ∀ t : Table, (∀ other ∈ t.rows, other.id ≠ r.id) →
    ∃ t', add Table.execute e r t = (.ok (), t') ∧ t'.rows = row :: t.rows
  saved : ∀ t : Table, (∃ old ∈ t.rows, old.id = r.id) →
    ∃ t', call Table.execute e (.save r) t = (.ok (), t') ∧
      t'.rows = t.rows.map fun other => if other.id = r.id then row else other

theorem writes_written (hr : r.attempts ≤ maxAttempts) : Writes e r (written e r) where
  added := fun t => add_table hr
  saved := by
    rintro t ⟨old, hold, hid⟩
    obtain ⟨t', hcall, hrows⟩ := save_table hr
    have hfound : 0 < t.rows.countP fun other => other.id = r.id :=
      List.countP_pos_iff.2 ⟨old, hold, decide_eq_true hid⟩
    exact ⟨t', by rw [hcall, answer_save hfound], hrows⟩

/-- Whatever the database, the record is refused and nothing is sent. -/
structure Unsent (e : Message.Encoding) (r : Record) : Prop where
  add : ∀ {ω : Type} (execute : Statement → ω → Reply × ω) (w : ω), Sql.add execute e r w =
    (.error (.store (opName Operation.add.name) (.attemptsOverflow r.attempts)), w)
  save : ∀ {ω : Type} (execute : Statement → ω → Reply × ω) (w : ω), call execute e (.save r) w =
    (.error (.store (opName Operation.save.name) (.attemptsOverflow r.attempts)), w)

/-- A record is written as the same row either way, up to the order of the headers in its binary form. The
row is read back as the record, and a reply of such rows as the records in the order of the rows; the sizes
are those that the decoder takes. A record with more attempts than the column holds is never sent. -/
theorem reads_back_written :
    (∀ e r, r.attempts ≤ maxAttempts → ∃ row, Writes e r row ∧ row.Holds r ∧
      (r.message.size < Blob.hugeLength → row.record = .ok r)) ∧
    (∀ {ω : Type} (execute : Statement → ω → Reply × ω) (w w' : ω) e owner s reply rs,
      statement e (.fetch owner) = .ok s → execute s w = (.ok reply, w') →
      List.Forall₂ Row.Holds reply.rows rs → (∀ r ∈ rs, r.message.size < Blob.hugeLength) →
      call execute e (.fetch owner) w = (.ok rs, w')) ∧
    ∀ e r, maxAttempts < r.attempts → Unsent e r := by
  refine ⟨fun e r hr => ?_, ?_, fun e r hr => ?_⟩
  · exact ⟨written e r, writes_written hr, holds_written, holds_written.record⟩
  · intro ω execute w w' e owner s reply rs hs h hrows hsize
    rw [call_eq hs h, answer, mapM_record hrows hsize]
  · exact ⟨fun _ _ => add_of_error (insertion_of_overflow hr),
      fun _ _ => call_of_error (statement_save_of_overflow hr)⟩

/-- A record with every field set, given up at the last attempt that the column has room for. -/
def givenUp : Record where
  id := .nth 7
  message := .mixed
  createdOn := default
  state := .exhausted
  lock := some ⟨⟨"machine-a"⟩, default⟩
  processedOn := some .earliest
  attempts := maxAttempts
  lastAttemptOn := some .latest
  error := some "no route"

theorem size_mixed : Message.mixed.size < Blob.hugeLength := by decide +kernel

/-- The record is added, fetched again, and refused after one more attempt. -/
theorem reads_back_written_givenUp :
    ∃ (row : Row) (t : Table), row.record = .ok givenUp ∧
      add Table.execute .sorted givenUp .empty = (.ok (), t) ∧ t.rows = [row] ∧
      call (fun _ t => (.ok { rows := t.rows }, t)) .sorted (.fetch ⟨"machine-a"⟩) t =
        (.ok [givenUp], t) ∧
      add Table.execute .sorted { givenUp with attempts := maxAttempts + 1 } t =
        (.error (.store "outbox.postgres.add_record_tx" (.attemptsOverflow (maxAttempts + 1))), t) := by
  obtain ⟨hwritten, hbatch, hunsent⟩ := reads_back_written
  obtain ⟨row, hwrites, hrow, hrecord⟩ := hwritten .sorted givenUp (Nat.le_refl _)
  obtain ⟨t, hadd, hrows⟩ := hwrites.added .empty fun _ h => nomatch h
  have hreply : List.Forall₂ Row.Holds t.rows [givenUp] := by
    rw [hrows]
    exact .cons hrow .nil
  have hfetch := hbatch (fun _ t => (.ok { rows := t.rows }, t)) t t .sorted ⟨"machine-a"⟩ _ _ [givenUp]
    rfl rfl hreply (List.forall_mem_singleton.2 size_mixed)
  have hover := hunsent .sorted { givenUp with attempts := maxAttempts + 1 } (Nat.lt_succ_self _)
  exact ⟨row, t, hrecord size_mixed, hadd, hrows, hfetch, hover.add _ t⟩

end Outbox.Sql

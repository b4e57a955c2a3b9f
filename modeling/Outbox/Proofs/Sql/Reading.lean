import Outbox.Proofs.Sql.Traffic

/-!
# Rows that cannot be read

A pass over the relational store reads all the rows that it has fetched, or ends before anything is sent to
the broker.
-/

namespace Outbox.Sql

namespace Row

variable {row : Row} {r : Record} {rows before after : List Row} {rs : List Record} {err : OutboxError}

/-! ## One row -/

structure Readable (row : Row) : Prop where
  state : 1 ≤ row.state ∧ row.state ≤ 3
  attempts : 0 ≤ row.attempts
  data : ∃ message, Message.ofBlob row.data = .ok message

/-- The record is what the row holds. -/
structure ReadAs (row : Row) (r : Record) : Prop where
  id : r.id = row.id
  message : Message.ofBlob row.data = .ok r.message
  state : r.state.number = row.state
  createdOn : r.createdOn = row.createdOn
  /-- There is no lock if one of the two columns is NULL. -/
  lock : ∀ lock, r.lock = some lock ↔ row.lockedBy = some lock.owner.text ∧ row.lockedOn = some lock.takenOn
  processedOn : r.processedOn = row.processedOn
  attempts : r.attempts = row.attempts
  lastAttemptOn : r.lastAttemptOn = row.lastAttemptedOn
  error : r.error = row.error

/-- What is wrong with the row: an unknown state counts before negative attempts, and both before the data. -/
inductive Faulty (row : Row) : OutboxError → Prop where
  | state (hs : ¬ (1 ≤ row.state ∧ row.state ≤ 3)) :
      Faulty row (.store "outbox.postgres.decode_row" (.unknownState row.state))
  | attempts (hs : 1 ≤ row.state ∧ row.state ≤ 3) (ha : row.attempts < 0) :
      Faulty row (.store "outbox.postgres.decode_row" (.negativeAttempts row.attempts))
  | data (hs : 1 ≤ row.state ∧ row.state ≤ 3) (ha : 0 ≤ row.attempts) {cause : BlobError}
      (hd : Message.ofBlob row.data = .error cause) : Faulty row (.codec "outbox.message.decode" cause)

theorem exists_ofNumber? {n : Int} (h : 1 ≤ n ∧ n ≤ 3) : ∃ state, State.ofNumber? n = some state := by
  have hn : n = 1 ∨ n = 2 ∨ n = 3 := by omega
  rcases hn with rfl | rfl | rfl <;> exact ⟨_, rfl⟩

theorem ofNumber?_eq_none {n : Int} (h : ¬ (1 ≤ n ∧ n ≤ 3)) : State.ofNumber? n = none := by
  rw [State.ofNumber?, if_neg (by omega), if_neg (by omega), if_neg (by omega)]

theorem lock_eq_some_iff {lock : Lock} :
    row.lock = some lock ↔ row.lockedBy = some lock.owner.text ∧ row.lockedOn = some lock.takenOn := by
  obtain ⟨⟨owner⟩, takenOn⟩ := lock
  unfold Row.lock
  split <;> simp_all

theorem decode_eq {data : List UInt8} {message : Message} (h : Message.ofBlob data = .ok message) :
    Message.decode data = .ok message := by
  rw [Message.decode, h]
  rfl

theorem Readable.exists_record (h : row.Readable) : ∃ r, row.record = .ok r ∧ row.ReadAs r := by
  obtain ⟨state, hstate⟩ := exists_ofNumber? h.state
  obtain ⟨message, hmessage⟩ := h.data
  refine ⟨_, record_eq hstate h.attempts (decode_eq hmessage), ?_⟩
  constructor
  · rfl
  · exact hmessage
  · exact (State.eq_number_of_ofNumber? hstate).symm
  · rfl
  · exact fun _ => lock_eq_some_iff
  · rfl
  · exact Int.toNat_of_nonneg h.attempts
  · rfl
  · rfl

theorem Faulty.record (h : row.Faulty err) : row.record = .error err := by
  cases h with
  | state hs => simp only [Row.record, ofNumber?_eq_none hs]; rfl
  | attempts hs ha =>
      obtain ⟨state, hstate⟩ := exists_ofNumber? hs
      simp only [Row.record, hstate, ha, if_true]
      rfl
  | data hs ha hd =>
      obtain ⟨state, hstate⟩ := exists_ofNumber? hs
      simp only [Row.record, hstate, Int.not_lt.2 ha, if_false, Message.decode, hd]
      rfl

theorem exists_faulty (h : ¬ row.Readable) : ∃ err, row.Faulty err := by
  by_cases hs : 1 ≤ row.state ∧ row.state ≤ 3
  · by_cases ha : 0 ≤ row.attempts
    · cases hd : Message.ofBlob row.data with
      | ok message => exact absurd ⟨hs, ha, message, hd⟩ h
      | error cause => exact ⟨_, .data hs ha hd⟩
    · exact ⟨_, .attempts hs (by omega)⟩
  · exact ⟨_, .state hs⟩

theorem readAs_of_record (h : row.record = .ok r) : row.ReadAs r := by
  by_cases hr : row.Readable
  · obtain ⟨v, hv, hreadAs⟩ := hr.exists_record
    obtain rfl := Except.ok.inj (hv.symm.trans h)
    exact hreadAs
  · obtain ⟨err, herr⟩ := exists_faulty hr
    rw [herr.record] at h
    cases h

/-! ## All rows -/

theorem mapM_readable (h : ∀ row ∈ rows, row.Readable) :
    ∃ rs, rows.mapM Row.record = .ok rs ∧ List.Forall₂ ReadAs rows rs := by
  induction rows with
  | nil => exact ⟨[], rfl, .nil⟩
  | cons row rows ih =>
      rw [List.forall_mem_cons] at h
      obtain ⟨r, hrecord, hr⟩ := h.1.exists_record
      obtain ⟨rs, hrecords, hrs⟩ := ih h.2
      refine ⟨r :: rs, ?_, .cons hr hrs⟩
      rw [List.mapM_cons, hrecord, hrecords]
      rfl

theorem mapM_faulty (hbefore : ∀ row ∈ before, row.Readable) (h : row.Faulty err) :
    (before ++ row :: after).mapM Row.record = .error err := by
  obtain ⟨rs, hrecords, -⟩ := mapM_readable hbefore
  rw [List.mapM_append, hrecords, List.mapM_cons, h.record]
  rfl

theorem exists_first_unreadable (h : ¬ ∀ row ∈ rows, row.Readable) :
    ∃ before row after, rows = before ++ row :: after ∧ (∀ row ∈ before, row.Readable) ∧ ¬ row.Readable := by
  classical
  obtain ⟨bad, hbad, hno⟩ : ∃ row ∈ rows, ¬ row.Readable := by simpa using h
  obtain ⟨row, hrow⟩ := Option.isSome_iff_exists.1
    (List.find?_isSome (p := fun row => ¬ row.Readable) |>.2 ⟨bad, hbad, by simpa using hno⟩)
  obtain ⟨hfound, before, after, hrows, hbefore⟩ := List.find?_eq_some_iff_append.1 hrow
  exact ⟨before, row, after, hrows, by simpa using hbefore, by simpa using hfound⟩

end Row

/-! ## The pass -/

/-- If every row that was fetched can be read, the batch consists of their records in the order of the rows. If
not, the pass ends with what is wrong with the first that cannot: no message and no update of a record is
sent, and the locks are released. -/
theorem deliverBatch_allOrNothing (d : Deployment) (s : Pass.Settings) (claimed reply : Answered)
    (hclaim : d.replies 0 (.claim s.machine (d.clock 0)) = .ok claimed)
    (hfetch : d.replies 1 (.fetch s.machine) = .ok reply) :
    ((∀ row ∈ reply.rows, row.Readable) → ∃ rs, List.Forall₂ Row.ReadAs reply.rows rs ∧
      Pass.advance d.host s .opening {} = Pass.advance d.host s (Pass.proceed ⟨claimed.affected, 0⟩ rs)
        ⟨[.claim s.machine (d.clock 0), .fetch s.machine], []⟩) ∧
    ((¬ ∀ row ∈ reply.rows, row.Readable) → ∃ before row after err, reply.rows = before ++ row :: after ∧
      (∀ row ∈ before, row.Readable) ∧ row.Faulty err ∧
      deliverBatch d.host s {} = (some (.error err),
        ⟨[.claim s.machine (d.clock 0), .fetch s.machine, .release s.machine], []⟩)) := by
  have hopening := (Deployment.advance_opening hclaim).trans (Deployment.advance_fetching hfetch)
  refine ⟨fun h => ?_, fun h => ?_⟩
  · obtain ⟨rs, hrecords, hrs⟩ := Row.mapM_readable h
    refine ⟨rs, hrs, ?_⟩
    rw [hopening, hrecords]
    rfl
  · obtain ⟨before, row, after, hrows, hbefore, hno⟩ := Row.exists_first_unreadable h
    obtain ⟨err, herr⟩ := Row.exists_faulty hno
    refine ⟨before, row, after, err, hrows, hbefore, herr, ?_⟩
    rw [deliverBatch, hopening, hrows, Row.mapM_faulty hbefore herr, Pass.fetched,
      Deployment.advance_releasing]
    rfl

/-- Neither the state nor the attempts can be read. -/
def oddRow : Row := { written .sorted givenUp with state := 9, attempts := -1 }

/-- The fetch gives a row that can be read, and then one that cannot. -/
def oddDeployment : Deployment where
  clock _ := default
  replies n _ := .ok (if n = 1 then { rows := [written .sorted givenUp, oddRow] } else { affected := 1 })
  answers _ := .ok ()
  encoding _ := .sorted

theorem deliverBatch_allOrNothing_oddRow :
    oddDeployment.replies 0 (.claim ⟨"a"⟩ default) = .ok { affected := 1 } ∧
      oddDeployment.replies 1 (.fetch ⟨"a"⟩) = .ok { rows := [written .sorted givenUp, oddRow] } ∧
      deliverBatch oddDeployment.host ⟨⟨"a"⟩, .unlimited⟩ {} =
        (some (.error (.store "outbox.postgres.decode_row" (.unknownState 9))),
          ⟨[.claim ⟨"a"⟩ default, .fetch ⟨"a"⟩, .release ⟨"a"⟩], []⟩) := by
  have hread : (written .sorted givenUp).record = .ok givenUp := holds_written.record size_mixed
  have hodd : oddRow.Faulty (.store "outbox.postgres.decode_row" (.unknownState 9)) := .state (by decide)
  have hno : ¬ ∀ row ∈ [written .sorted givenUp, oddRow], row.Readable :=
    fun h => absurd (h oddRow (by simp)).state (by decide)
  obtain ⟨-, hpass⟩ := deliverBatch_allOrNothing oddDeployment ⟨⟨"a"⟩, .unlimited⟩ { affected := 1 }
    { rows := [written .sorted givenUp, oddRow] } rfl rfl
  obtain ⟨before, row, after, err, hrows, -, hfaulty, hrun⟩ := hpass hno
  have hrecord := hfaulty.record
  have hmem : row ∈ before ++ row :: after := by simp
  rw [← hrows] at hmem
  rcases List.mem_pair.1 hmem with hrow | hrow
  · rw [hrow, hread] at hrecord
    cases hrecord
  · rw [hrow, hodd.record] at hrecord
    obtain rfl := Except.error.inj hrecord
    exact ⟨rfl, rfl, hrun⟩

end Outbox.Sql

import Outbox.Proofs.Sql.Reading

/-!
# What the broker has accepted is retired

On a healthy database a pass stores every record whose message was accepted, as long as the attempts column
has room for one more attempt. The reader takes rows for which it has none.
-/

namespace Outbox.Sql

/-- Every statement succeeds, an update of one record finds it, and these are the rows to be fetched. -/
structure Deployment.Healthy (d : Deployment) (rows : List Row) : Prop where
  succeeds : ∀ n st, ∃ reply, d.replies n st = .ok reply
  saves : ∀ {n row reply}, d.replies n (.save row) = .ok reply → reply.affected = 1
  fetches : ∀ {n owner reply}, d.replies n (.fetch owner) = .ok reply → reply.rows = rows

/-- Stores record `i` of the batch as delivered, with one more attempt and no lock. -/
def Deployment.retiring (d : Deployment) (i : Nat) (r : Record) : Statement :=
  .save (written (d.encoding (i + 2)) (r.accepted (d.clock (2 * i + 2)) (d.clock (2 * i + 3))))

/-- As long as the broker accepts them, the messages of the batch are sent one after the other, and the record
of each that it accepts is retired. -/
def Retires (d : Deployment) (rs : List Record) (w : Traffic) : Prop :=
  ∀ i r, rs[i]? = some r → (∀ j < i, d.answers j = .ok ()) → w.sent[i]? = some r.message ∧
    (d.answers i = .ok () → w.statements[i + 2]? = some (d.retiring i r))

/-! ## How far the batch is retired -/

/-- The first `n` records of the batch are retired. -/
structure Retired (d : Deployment) (rs : List Record) (n : Nat) (statements : List Statement) : Prop where
  le : n ≤ rs.length
  answered : ∀ i < n, d.answers i = .ok ()
  room : ∀ {i r}, rs[i]? = some r → i < n → r.attempts < maxAttempts
  saved : ∀ {i r}, rs[i]? = some r → i < n → statements[i + 2]? = some (d.retiring i r)

/-- The next record of the batch, if there is one, is about to be sent. -/
structure Underway (d : Deployment) (rs : List Record) (n : Nat) (w : Traffic) : Prop
    extends Retired d rs n w.statements where
  length : w.statements.length = n + 2
  sent : w.sent = (rs.take n).map Record.message

/-- The pass is over, and where the broker has accepted the next message the record had no room for the
attempt. -/
structure Stopped (d : Deployment) (s : Pass.Settings) (rs : List Record) (n : Nat) (w : Traffic) : Prop
    extends Retired d rs n w.statements where
  sent : w.sent = (rs.take (n + 1)).map Record.message
  unsaved : ∀ {r}, rs[n]? = some r → d.answers n = .ok () →
    r.attempts = maxAttempts ∧ w.statements[n + 2]? = some (.release s.machine)

variable {d : Deployment} {s : Pass.Settings} {rows : List Row} {rs us : List Record} {n : Nat} {r : Record}
  {w : Traffic} {report : Report} {statements : List Statement}

namespace Retired

theorem append (h : Retired d rs n statements) (more : List Statement) :
    Retired d rs n (statements ++ more) where
  le := h.le
  answered := h.answered
  room := h.room
  saved hr hi := by
    have hs := h.saved hr hi
    rw [List.getElem?_append_left (List.getElem?_eq_some_iff.1 hs).1, hs]

theorem next (h : Retired d rs n statements) (hn : statements.length = n + 2) (hr : rs[n]? = some r)
    (ha : d.answers n = .ok ()) (hroom : r.attempts < maxAttempts) :
    Retired d rs (n + 1) (statements ++ [d.retiring n r]) where
  le := (List.getElem?_eq_some_iff.1 hr).1
  answered i hi := by
    rcases Nat.lt_succ_iff_lt_or_eq.1 hi with hi | rfl
    · exact h.answered i hi
    · exact ha
  room {i v} hv hi := by
    rcases Nat.lt_succ_iff_lt_or_eq.1 hi with hi | rfl
    · exact h.room hv hi
    · obtain rfl : r = v := Option.some.inj (hr.symm.trans hv)
      exact hroom
  saved {i v} hv hi := by
    rcases Nat.lt_succ_iff_lt_or_eq.1 hi with hi | rfl
    · exact (h.append _).saved hv hi
    · obtain rfl : r = v := Option.some.inj (hr.symm.trans hv)
      rw [← hn, List.getElem?_concat_length]

end Retired

/-- A save that has room goes through. -/
theorem Deployment.Healthy.advance_saving (hd : d.Healthy rows) (hr : r.attempts ≤ maxAttempts)
    {failure : Option BrokerError} : Pass.advance d.host s (.saving report r failure us) w =
      Pass.advance d.host s (Pass.saved report r failure us (.ok ())).1
        { w with statements := w.statements ++ [.save (written (d.encoding w.statements.length) r)] } := by
  obtain ⟨reply, hreply⟩ := hd.succeeds w.statements.length
    (.save (written (d.encoding w.statements.length) r))
  exact Deployment.advance_saving hr hreply (Nat.lt_of_lt_of_eq Nat.one_pos (hd.saves hreply).symm)

namespace Underway

theorem length_sent (h : Underway d rs n w) : w.sent.length = n := by
  rw [h.sent, List.length_map, List.length_take_of_le h.le]

theorem sent_next (h : Underway d rs n w) (hr : rs[n]? = some r) :
    w.sent ++ [r.message] = (rs.take (n + 1)).map Record.message := by
  rw [h.sent, List.take_add_one, hr, List.map_append]
  rfl

theorem send (h : Underway d rs n w) :
    d.host.send r.message w = (some (d.answers n), { w with sent := w.sent ++ [r.message] }) := by
  rw [← h.length_sent]
  rfl

theorem tried (h : Underway d rs n w) : d.host.now w = some (d.clock (2 * n + 2)) := by
  have htime : w.statements.length + w.sent.length = 2 * n + 2 := by rw [h.length, h.length_sent]; omega
  rw [← htime]
  rfl

theorem done (h : Underway d rs n w) :
    d.host.now { w with sent := w.sent ++ [r.message] } = some (d.clock (2 * n + 3)) := by
  have htime : w.statements.length + (w.sent ++ [r.message]).length = 2 * n + 3 := by
    rw [h.length, List.length_append, h.length_sent, List.length_singleton]
    omega
  rw [← htime]
  rfl

/-! ## One record -/

/-- After a refusal the pass ends, whether or not there is room for the attempt. -/
theorem refuse (h : Underway d rs n w) (hd : d.Healthy rows) (hr : rs[n]? = some r)
    (hp : r.state = .pending) (hmax : r.attempts ≤ maxAttempts) {e : BrokerError} (ha : d.answers n = .error e) :
    Stopped d s rs n (Pass.advance d.host s (Pass.proceed report (r :: us)) w).2 := by
  have hlt : r.attempts < Record.maxAttempts := Nat.lt_of_le_of_lt hmax (by decide)
  have hno : d.answers n ≠ .ok () := by rw [ha]; nofun
  rw [Pass.advance_refusing hp hlt h.tried (ha ▸ h.send)]
  by_cases hroom : r.attempts + 1 ≤ maxAttempts
  · rw [hd.advance_saving hroom, Pass.saved, Deployment.advance_releasing]
    exact ⟨(h.toRetired.append _).append _, h.sent_next hr, fun _ hok => absurd hok hno⟩
  · rw [Deployment.advance_saving_of_overflow (Nat.lt_of_not_le hroom)]
    exact ⟨h.toRetired.append _, h.sent_next hr, fun _ hok => absurd hok hno⟩

/-- There is no room for the attempt. -/
theorem overflow (h : Underway d rs n w) (hr : rs[n]? = some r) (hp : r.state = .pending)
    (hmax : r.attempts = maxAttempts) (ha : d.answers n = .ok ()) :
    Stopped d s rs n (Pass.advance d.host s (Pass.proceed report (r :: us)) w).2 := by
  have hlt : r.attempts < Record.maxAttempts := by rw [hmax]; decide
  have hover : maxAttempts < (r.accepted (d.clock (2 * n + 2)) (d.clock (2 * n + 3))).attempts :=
    Nat.lt_succ_of_le (Nat.le_of_eq hmax.symm)
  rw [Pass.advance_accepting hp hlt h.tried (ha ▸ h.send) h.done, Deployment.advance_saving_of_overflow hover]
  refine ⟨h.toRetired.append _, h.sent_next hr, fun hr' _ => ?_⟩
  obtain rfl := Option.some.inj (hr.symm.trans hr')
  refine ⟨hmax, ?_⟩
  rw [← h.length]
  exact List.getElem?_concat_length

theorem retire (h : Underway d rs n w) (hd : d.Healthy rows) (hr : rs[n]? = some r)
    (hp : r.state = .pending) (hmax : r.attempts < maxAttempts) (ha : d.answers n = .ok ()) :
    ∃ w', Pass.advance d.host s (Pass.proceed report (r :: us)) w =
        Pass.advance d.host s (Pass.proceed ⟨report.claimed, report.delivered + 1⟩ us) w' ∧
      Underway d rs (n + 1) w' := by
  have hlt : r.attempts < Record.maxAttempts := Nat.lt_trans hmax (by decide)
  have hnext := h.toRetired.next h.length hr ha hmax
  rw [Deployment.retiring, ← h.length] at hnext
  rw [Pass.advance_accepting hp hlt h.tried (ha ▸ h.send) h.done,
    hd.advance_saving (r := r.accepted (d.clock (2 * n + 2)) (d.clock (2 * n + 3))) hmax]
  refine ⟨_, rfl, hnext, ?_, h.sent_next hr⟩
  rw [List.length_append, h.length]
  rfl

/-! ## The batch -/

theorem stopped (hd : d.Healthy rows) (hp : ∀ r ∈ rs, r.state = .pending)
    (hmax : ∀ r ∈ rs, r.attempts ≤ maxAttempts) (us : List Record) (h : Underway d rs n w)
    (hus : rs.drop n = us) (report : Report) :
    ∃ n, Stopped d s rs n (Pass.advance d.host s (Pass.proceed report us) w).2 := by
  induction us generalizing n w report with
  | nil =>
      have hn : rs.length ≤ n := List.drop_eq_nil_iff.1 hus
      have hnone : rs[n]? = none := List.getElem?_eq_none hn
      rw [Pass.proceed, Deployment.advance_releasing]
      refine ⟨n, h.toRetired.append _, ?_, fun hr => ?_⟩
      · rw [h.sent, List.take_of_length_le hn, List.take_of_length_le (Nat.le_succ_of_le hn)]
      · rw [hnone] at hr
        cases hr
  | cons r us ih =>
      have hr : rs[n]? = some r := by rw [← List.head?_drop, hus]; rfl
      have hrest : rs.drop (n + 1) = us := by rw [← List.tail_drop, hus]; rfl
      have hmem : r ∈ rs := List.mem_of_getElem? hr
      cases ha : d.answers n with
      | error e => exact ⟨n, h.refuse hd hr (hp r hmem) (hmax r hmem) ha⟩
      | ok =>
          rcases Nat.eq_or_lt_of_le (hmax r hmem) with he | hlt
          · exact ⟨n, h.overflow hr (hp r hmem) he ha⟩
          · obtain ⟨w', hadv, h'⟩ := h.retire hd hr (hp r hmem) hlt ha
            rw [hadv]
            exact ih h' hrest _

end Underway

/-! ## The whole pass -/

/-- If there was room for the attempt, the pass has not stopped behind an acceptance. -/
theorem Stopped.not_accepted (h : Stopped d s rs n w) (hr : rs[n]? = some r)
    (hroom : (∀ j ≤ n, d.answers j = .ok ()) → r.attempts < maxAttempts) : d.answers n ≠ .ok () := by
  intro ha
  have hans : ∀ j ≤ n, d.answers j = .ok () := by
    intro j hj
    rcases Nat.eq_or_lt_of_le hj with rfl | hj
    · exact ha
    · exact h.answered j hj
  exact Nat.ne_of_lt (hroom hans) (h.unsaved hr ha).1

theorem Stopped.retires_iff_room (h : Stopped d s rs n w) : Retires d rs w ↔
    ∀ i r, rs[i]? = some r → (∀ j ≤ i, d.answers j = .ok ()) → r.attempts < maxAttempts := by
  have hnext : ∀ {i r}, rs[i]? = some r → n ≤ i → ∃ v, rs[n]? = some v := fun hr hi =>
    ⟨_, List.getElem?_eq_getElem (Nat.lt_of_le_of_lt hi (List.getElem?_eq_some_iff.1 hr).1)⟩
  constructor
  · intro hall i r hr ha
    refine Nat.lt_of_not_le fun hover => ?_
    have hi : n ≤ i := Nat.le_of_not_lt fun hi => absurd (h.room hr hi) (Nat.not_lt_of_le hover)
    obtain ⟨v, hv⟩ := hnext hr hi
    have hsaved := (hall n v hv fun j hj => ha j (Nat.le_of_lt (Nat.lt_of_lt_of_le hj hi))).2 (ha n hi)
    rw [(h.unsaved hv (ha n hi)).2] at hsaved
    cases hsaved
  · intro hroom i r hr hans
    have hi : i ≤ n := Nat.le_of_not_lt fun hlt => by
      obtain ⟨v, hv⟩ := hnext hr (Nat.le_of_lt hlt)
      exact h.not_accepted hv (hroom n v hv) (hans n hlt)
    refine ⟨?_, fun ha => ?_⟩
    · rw [h.sent, List.getElem?_map, List.getElem?_take_of_lt (Nat.lt_succ_of_le hi), hr]
      rfl
    · rcases Nat.eq_or_lt_of_le hi with rfl | hlt
      · exact absurd ha (h.not_accepted hr (hroom i r hr))
      · exact h.saved hr hlt

theorem Deployment.Healthy.underway (hd : d.Healthy rows)
    (hrs : List.Forall₂ (fun row r => row.record = .ok r) rows rs) : ∃ w report,
      Pass.advance d.host s .opening {} = Pass.advance d.host s (Pass.proceed report rs) w ∧
        Underway d rs 0 w := by
  obtain ⟨claimed, hclaim⟩ := hd.succeeds 0 (.claim s.machine (d.clock 0))
  obtain ⟨reply, hfetch⟩ := hd.succeeds 1 (.fetch s.machine)
  have hbatch : reply.rows.mapM Row.record = .ok rs := by
    rw [hd.fetches hfetch]
    exact mapM_eq_pure hrs
  refine ⟨⟨[.claim s.machine (d.clock 0), .fetch s.machine], []⟩, ⟨claimed.affected, 0⟩, ?_, ?_⟩
  · rw [Deployment.advance_opening hclaim, Deployment.advance_fetching hfetch, hbatch]
    rfl
  · exact ⟨⟨Nat.zero_le _, nofun, nofun, nofun⟩, rfl, rfl⟩

/-- What a column holds is read as no more. -/
theorem attempts_le_of_fits (hrs : List.Forall₂ (fun row r => row.record = .ok r) rows rs)
    (hfit : ∀ row ∈ rows, row.Fits) : ∀ r ∈ rs, r.attempts ≤ maxAttempts := by
  have hroom : maxAttempts + 1 = Nat.pow 2 (32 - 1) := by decide
  induction hrs with
  | nil => exact List.forall_mem_nil _
  | cons hrecord _ ih =>
      rw [List.forall_mem_cons] at hfit ⊢
      have hattempts := (Row.readAs_of_record hrecord).attempts
      have hlt := hfit.1.attempts.2
      exact ⟨by omega, ih hfit.2⟩

/-- On a healthy database whatever the broker accepts is retired if and only if the column has room for one
more attempt of each record that the pass comes to. -/
theorem retires_iff (d : Deployment) (s : Pass.Settings) (rows : List Row) (rs : List Record)
    (hd : d.Healthy rows) (hfit : ∀ row ∈ rows, row.Fits)
    (hrs : List.Forall₂ (fun row r => row.record = .ok r) rows rs) (hp : ∀ r ∈ rs, r.state = .pending) :
    Retires d rs (deliverBatch d.host s {}).2 ↔
      ∀ i r, rs[i]? = some r → (∀ j ≤ i, d.answers j = .ok ()) → r.attempts < maxAttempts := by
  obtain ⟨w, report, hadv, hunderway⟩ := hd.underway (s := s) hrs
  obtain ⟨n, hstopped⟩ := hunderway.stopped (s := s) hd hp (attempts_le_of_fits hrs hfit) rs rfl report
  rw [← hadv] at hstopped
  exact hstopped.retires_iff_room

/-- Every fetch finds this row, and everything succeeds. -/
def loneDeployment (row : Row) : Deployment where
  clock _ := default
  replies _
    | .select .. => .ok { rows := [row] }
    | _ => .ok { affected := 1 }
  answers _ := .ok ()
  encoding _ := .sorted

theorem healthy_loneDeployment (row : Row) : (loneDeployment row).Healthy [row] where
  succeeds _ st := by cases st <;> exact ⟨_, rfl⟩
  saves h := by cases h; rfl
  fetches h := by cases h; rfl

/-- A record under the lock of a pass, which is still to be delivered. -/
def locked (attempts : Nat) : Record :=
  { givenUp with state := .pending, lock := some ⟨⟨"a"⟩, default⟩, attempts }

def lockedRow (attempts : Nat) : Row := written .sorted (locked attempts)

theorem record_lockedRow (attempts : Nat) : (lockedRow attempts).record = .ok (locked attempts) :=
  holds_written.record size_mixed

theorem fits_lockedRow {attempts : Nat} (h : attempts ≤ maxAttempts) : (lockedRow attempts).Fits :=
  holds_written.fits h

/-- There is room for one more attempt. -/
theorem retires_iff_last :
    (loneDeployment (lockedRow (maxAttempts - 1))).Healthy [lockedRow (maxAttempts - 1)] ∧
      (lockedRow (maxAttempts - 1)).Fits ∧
      (lockedRow (maxAttempts - 1)).record = .ok (locked (maxAttempts - 1)) ∧
      Retires (loneDeployment (lockedRow (maxAttempts - 1))) [locked (maxAttempts - 1)]
        (deliverBatch (loneDeployment (lockedRow (maxAttempts - 1))).host ⟨⟨"a"⟩, .unlimited⟩ {}).2 := by
  have hd := healthy_loneDeployment (lockedRow (maxAttempts - 1))
  have hfit := fits_lockedRow (Nat.sub_le maxAttempts 1)
  have hrecord := record_lockedRow (maxAttempts - 1)
  refine ⟨hd, hfit, hrecord, ?_⟩
  refine (retires_iff _ _ _ [locked (maxAttempts - 1)] hd (List.forall_mem_singleton.2 hfit)
    (.cons hrecord .nil) (List.forall_mem_singleton.2 rfl)).2 fun i r hr _ => ?_
  rw [List.mem_singleton.1 (List.mem_of_getElem? hr)]
  exact Nat.sub_lt (by decide) Nat.one_pos

/-- The record as it waits in the table, with all the attempts that there is room for. -/
def fullTable : Table := ⟨[written .sorted { locked maxAttempts with lock := none }], by decide +kernel⟩

/-- The reader takes a row with as many attempts as its column holds. Its message is sent and accepted, but
the record is not stored as delivered, and the table is in the end what it was, so that every later pass
sends the message again. -/
theorem full_not_retired :
    (loneDeployment (lockedRow maxAttempts)).Healthy [lockedRow maxAttempts] ∧ (lockedRow maxAttempts).Fits ∧
      (lockedRow maxAttempts).record = .ok (locked maxAttempts) ∧
      deliverBatch (loneDeployment (lockedRow maxAttempts)).host ⟨⟨"a"⟩, .unlimited⟩ {} =
        (some (.error (.store "outbox.postgres.update_record_by_id" (.attemptsOverflow (maxAttempts + 1)))),
          ⟨[.claim ⟨"a"⟩ default, .fetch ⟨"a"⟩, .release ⟨"a"⟩], [.mixed]⟩) ∧
      (Table.execute (.claim ⟨"a"⟩ default) fullTable).2.rows = [lockedRow maxAttempts] ∧
      (Table.execute (.release ⟨"a"⟩) (Table.execute (.claim ⟨"a"⟩ default) fullTable).2).2.rows =
        fullTable.rows ∧
      ¬ Retires (loneDeployment (lockedRow maxAttempts)) [locked maxAttempts]
        (deliverBatch (loneDeployment (lockedRow maxAttempts)).host ⟨⟨"a"⟩, .unlimited⟩ {}).2 := by
  have hrun : deliverBatch (loneDeployment (lockedRow maxAttempts)).host ⟨⟨"a"⟩, .unlimited⟩ {} =
      (some (.error (.store "outbox.postgres.update_record_by_id" (.attemptsOverflow (maxAttempts + 1)))),
        ⟨[.claim ⟨"a"⟩ default, .fetch ⟨"a"⟩, .release ⟨"a"⟩], [.mixed]⟩) := by
    have hread : [lockedRow maxAttempts].mapM Row.record = .ok [locked maxAttempts] :=
      mapM_eq_pure (.cons (record_lockedRow _) .nil)
    rw [deliverBatch, Deployment.advance_opening rfl, Deployment.advance_fetching rfl, hread, Pass.fetched,
      Pass.advance_accepting rfl (by decide) rfl rfl rfl,
      Deployment.advance_saving_of_overflow (Nat.lt_succ_self maxAttempts)]
    rfl
  refine ⟨healthy_loneDeployment _, fits_lockedRow (Nat.le_refl _), record_lockedRow _, hrun, ?_, ?_, ?_⟩
  · rfl
  · rfl
  · rw [hrun]
    intro h
    have hsaved := (h 0 _ rfl fun j hj => absurd hj (Nat.not_lt_zero j)).2 rfl
    cases hsaved

end Outbox.Sql

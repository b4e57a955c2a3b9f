import Mathlib.Data.List.Perm.Basic
import Outbox.Proofs.Sql.Written
import Outbox.Proofs.Store.Lookup

/-!
# The stores agree

A table with the rows of a store's records answers every call as the store does, and has the rows of its
records afterwards. What a statement does to a row is what the call does to the record in it.
-/

namespace Outbox

/-- What the columns have room for, and the decoder takes. -/
structure Record.Storable (r : Record) : Prop where
  attempts : r.attempts ≤ Sql.maxAttempts
  size : r.message.size < Blob.hugeLength

def Call.Storable : {a : Answer} → Call a → Prop
  | _, .save r => r.Storable
  | _, _ => True

namespace Sql

variable {row : Row} {r : Record} {rows : List Row} {rs : List Record} {t : Table} {s : Store}
  {owner : MachineId} {now cutoff : Instant} {state : State}

/-! ## Lists related member by member -/

section Lists

variable {α β : Type} {R : α → β → Prop} {l : List α} {l' : List β}

theorem rel_mergeSort {le : α → α → Bool} {le' : β → β → Bool}
    (hle : ∀ a b a' b', R a b → R a' b' → le a a' = le' b b') (h : List.Forall₂ R l l') :
    List.Forall₂ R (l.mergeSort le) (l'.mergeSort le') := by
  obtain ⟨hlen, hzip⟩ := List.forall₂_iff_zip.1 h
  -- Both lists are sorted along with the pairs of their members.
  have hfst : ((l.zip l').mergeSort fun x y => le x.1 y.1).map Prod.fst =
      ((l.zip l').map Prod.fst).mergeSort le := List.map_mergeSort fun _ _ _ _ => rfl
  have hsnd : ((l.zip l').mergeSort fun x y => le x.1 y.1).map Prod.snd =
      ((l.zip l').map Prod.snd).mergeSort le' :=
    List.map_mergeSort fun x hx y hy => hle _ _ _ _ (hzip hx) (hzip hy)
  rw [List.map_fst_zip (Nat.le_of_eq hlen)] at hfst
  rw [List.map_snd_zip (Nat.le_of_eq hlen.symm)] at hsnd
  rw [← hfst, ← hsnd, List.forall₂_map_left_iff, List.forall₂_map_right_iff, List.forall₂_same]
  exact fun x hx => hzip (List.mem_mergeSort.1 hx)

theorem exists_of_mem {a : α} (h : List.Forall₂ R l l') (ha : a ∈ l) : ∃ b ∈ l', R a b := by
  induction h with
  | nil => cases ha
  | cons hab _ ih =>
      rcases List.mem_cons.1 ha with rfl | ha
      · exact ⟨_, List.mem_cons_self, hab⟩
      · obtain ⟨b, hb, hr⟩ := ih ha
        exact ⟨b, List.mem_cons_of_mem _ hb, hr⟩

end Lists

/-! ## Conditions on a row -/

section Conditions

variable {ps : List Value} {n : Nat} {v : Value}

theorem selects_lockedBy (h : row.Holds r) (hps : param ps n = .text owner.text) :
    (Condition.compare .lockedBy .equal v).selects ps n row = Store.OwnedBy owner r := by
  have hrow : row.lockedBy = r.owner?.map MachineId.text := by rw [h.eq]; rfl
  rw [Condition.selects, Condition.truth, Row.value, hps, truth_equal_text, hrow, Store.OwnedBy]
  cases r.owner? with
  | none => simp
  | some o =>
      cases o
      cases owner
      simp

theorem selects_unlocked (h : row.Holds r) :
    (Condition.isNull .lockedBy).selects ps n row = !r.isLocked := by
  have hrow : row.lockedBy = r.owner?.map MachineId.text := by rw [h.eq]; rfl
  rw [Condition.selects, Condition.truth, Row.value, hrow, Record.owner?, Record.isLocked]
  cases r.lock <;> simp [Value.ofText?]

theorem selects_state (h : row.Holds r) (hps : param ps n = .int state.number) :
    (Condition.compare .state .equal v).selects ps n row = decide (r.state = state) := by
  have hrow : row.state = r.state.number := by rw [h.eq]; rfl
  rw [Condition.selects, Condition.truth, Row.value, hps, truth_equal_int, hrow]
  cases r.state <;> cases state <;> rfl

/-- The terminal states are those other than pending. -/
theorem selects_finished (h : row.Holds r) (hps : param ps n = .int State.pending.number) :
    (Condition.compare .state .differs v).selects ps n row = r.state.isTerminal := by
  have hrow : row.state = r.state.number := by rw [h.eq]; rfl
  rw [Condition.selects, Condition.truth, Row.value, hps, truth_differs_int, hrow]
  cases r.state <;> rfl

theorem selects_lockedOn (h : row.Holds r) (hps : param ps n = .time cutoff) :
    (Condition.compare .lockedOn .less v).selects ps n row = Store.LockedBefore cutoff r := by
  have hrow : row.lockedOn = r.lockedOn? := by rw [h.eq]; rfl
  rw [Condition.selects, Condition.truth, Row.value, hps, truth_less_time, hrow, Store.LockedBefore]
  cases r.lockedOn? <;> simp

theorem selects_createdOn (h : row.Holds r) (hps : param ps n = .time cutoff) :
    (Condition.compare .createdOn .less v).selects ps n row = Store.CreatedBefore cutoff r := by
  rw [Condition.selects, Condition.truth, Row.value, hps, h.createdOn, Store.CreatedBefore]
  simp [Comparison.truth, Value.precedes?]

end Conditions

/-! ## Locks of a row -/

def Row.setLock (row : Row) (lock : Option Lock) : Row :=
  { row with lockedBy := lock.map fun l => l.owner.text, lockedOn := lock.map Lock.takenOn }

theorem Row.Holds.setLock (h : row.Holds r) (lock : Option Lock) :
    (row.setLock lock).Holds { r with lock } := by
  refine ⟨h.data, ?_⟩
  rw [h.eq]
  cases lock <;> rfl

theorem Row.Fits.setLock (h : row.Fits) (lock : Option Lock) : (row.setLock lock).Fits :=
  ⟨h.state, h.attempts⟩

theorem updated_eq {new : Row} {ps : List Value} {assignments : List (Column × Term)}
    (hcells : ∀ c, (assigned ps c 1 assignments).getD (row.value c) = new.value c) (hnew : new.Fits) :
    row.updated ps assignments = some new := by
  rw [Row.updated, funext hcells, Row.ofValues_value hnew]

theorem updated_locking (h : row.Fits) {v v' : Value} {ps : List Value} :
    row.updated (.text owner.text :: .time now :: ps) [(.lockedBy, .param v), (.lockedOn, .param v')] =
      some (row.setLock (some ⟨owner, now⟩)) :=
  updated_eq (fun c => by cases c <;> rfl) (h.setLock _)

theorem updated_unlocking (h : row.Fits) {ps : List Value} :
    row.updated ps [(.lockedBy, .null), (.lockedOn, .null)] = some (row.setLock none) :=
  updated_eq (fun c => by cases c <;> rfl) (h.setLock _)

/-! ## Rows that hold records -/

/-- The rows hold the records, in any order. -/
def Mirrors (rows : List Row) (rs : List Record) : Prop :=
  ∃ rs', List.Forall₂ Row.Holds rows rs' ∧ rs'.Perm rs

namespace Mirrors

theorem map (h : Mirrors rows rs) {f : Row → Row} {g : Record → Record}
    (hfg : ∀ {row r}, row.Holds r → (f row).Holds (g r)) : Mirrors (rows.map f) (rs.map g) := by
  obtain ⟨rs', hrows, hp⟩ := h
  exact ⟨rs'.map g, List.rel_map (fun _ _ hr => hfg hr) hrows, hp.map g⟩

theorem filter (h : Mirrors rows rs) {p : Row → Bool} {q : Record → Bool}
    (hpq : ∀ {row r}, row.Holds r → p row = q r) : Mirrors (rows.filter p) (rs.filter q) := by
  obtain ⟨rs', hrows, hp⟩ := h
  have hiff : ∀ row r, row.Holds r → (p row = true ↔ q r = true) := by
    intro row r hr
    rw [hpq hr]
  exact ⟨rs'.filter q, List.rel_filter hiff hrows, hp.filter q⟩

theorem length_eq (h : Mirrors rows rs) : rows.length = rs.length := by
  obtain ⟨rs', hrows, hp⟩ := h
  exact hrows.length_eq.trans hp.length_eq

theorem countP_eq (h : Mirrors rows rs) {p : Row → Bool} {q : Record → Bool}
    (hpq : ∀ {row r}, row.Holds r → p row = q r) : rows.countP p = rs.countP q := by
  rw [List.countP_eq_length_filter, List.countP_eq_length_filter]
  exact (h.filter hpq).length_eq

theorem exists_holds (h : Mirrors rows rs) (hrow : row ∈ rows) : ∃ r ∈ rs, row.Holds r := by
  obtain ⟨rs', hrows, hp⟩ := h
  obtain ⟨r, hr, hh⟩ := exists_of_mem hrows hrow
  exact ⟨r, hp.mem_iff.1 hr, hh⟩

theorem fits (h : Mirrors rows rs) (hrs : ∀ r ∈ rs, r.Storable) (hrow : row ∈ rows) : row.Fits := by
  obtain ⟨r, hr, hh⟩ := h.exists_holds hrow
  exact hh.fits (hrs r hr).attempts

end Mirrors

/-! ## Age order -/

theorem inOrder_eq {row' : Row} {r' : Record} (h : row.Holds r) (h' : row'.Holds r') :
    Row.inOrder [.createdOn, .id] row row' = Store.olderOrSame r r' := by
  rw [Bool.eq_iff_iff, Store.olderOrSame_iff, ← h.createdOn, ← h'.createdOn, ← h.id, ← h'.id,
    RecordId.le_iff_lt_or_eq]
  simp [Row.inOrder, Row.value, Value.sortsBefore, Value.precedes?, RecordId.bytes_lt_bytes_iff]

/-- A selection in age order has the rows of the records in age order. -/
theorem Mirrors.sorted (h : Mirrors rows rs) (hrs : ∀ a ∈ rs, ∀ b ∈ rs, a.id = b.id → a = b) :
    List.Forall₂ Row.Holds (rows.mergeSort (Row.inOrder [.createdOn, .id]))
      (rs.mergeSort Store.olderOrSame) := by
  obtain ⟨rs', hrows, hp⟩ := h
  rw [← Store.mergeSort_eq_of_perm hp hrs]
  exact rel_mergeSort (R := Row.Holds) (fun _ _ _ _ => inOrder_eq) hrows

/-! ## Calls -/

section Calls

variable {e : Message.Encoding} {only : Condition} {assignments : List (Column × Term)}
  {q : Record → Bool} {lock : Option Lock}

theorem answer_count (k : Call .count) (reply : Answered) : answer k reply = .ok reply.affected := by
  cases k <;> rfl

/-- A call that sets or clears the locks of some records. -/
theorem call_locking (k : Call .count) (hk : statement e k = .ok (.update assignments only))
    (hm : Mirrors t.rows rs) (hrs : ∀ r ∈ rs, r.Storable)
    (hq : ∀ {row r}, row.Holds r → only.selects (Statement.update assignments only).params
      (1 + (assignments.flatMap (·.2.params)).length) row = q r)
    (hset : ∀ {row : Row}, row.Fits →
      row.updated (Statement.update assignments only).params assignments = some (row.setLock lock)) :
    ∃ t', call Table.execute e k t = (.ok (rs.countP q), t') ∧
      Mirrors t'.rows (rs.map fun r => if q r then { r with lock } else r) := by
  obtain ⟨t', ht, hrows⟩ := Table.update_eq (t := t)
    (fun row hrow _ => hset (hm.fits hrs hrow)) fun row _ _ => rfl
  refine ⟨t', by rw [call_eq hk ht, answer_count, hm.countP_eq hq], ?_⟩
  rw [hrows]
  refine hm.map fun {row r} h => ?_
  rw [hq h]
  split
  · exact h.setLock lock
  · exact h

theorem call_removing (k : Call .count) (hk : statement e k = .ok (.delete only)) (hm : Mirrors t.rows rs)
    (hq : ∀ {row r}, row.Holds r → only.selects (Statement.delete only).params 1 row = q r) :
    ∃ t', call Table.execute e k t = (.ok (rs.countP q), t') ∧
      Mirrors t'.rows (rs.filter fun r => !q r) := by
  obtain ⟨t', ht, hrows⟩ := Table.delete_eq (t := t) (p := only.selects (Statement.delete only).params 1)
  refine ⟨t', by rw [call_eq hk ht, answer_count, hm.countP_eq hq], ?_⟩
  rw [hrows]
  exact hm.filter fun h => by rw [hq h]

theorem call_fetch (hm : Mirrors t.rows s.records) (hs : ∀ r ∈ s.records, r.Storable) :
    call Table.execute e (.fetch owner) t = (.ok (s.fetch owner), t) := by
  have hselected : Mirrors (t.rows.filter ((Condition.compare .lockedBy .equal (.text owner.text)).selects
      [.text owner.text] 1)) (s.records.filter (Store.OwnedBy owner)) :=
    hm.filter fun h => selects_lockedBy h rfl
  have hsorted := hselected.sorted fun a ha b hb =>
    Store.eq_of_id_eq (List.mem_of_mem_filter ha) (List.mem_of_mem_filter hb)
  have hread := mapM_record hsorted fun r hr => (hs r (Store.mem_fetch.1 hr).1).size
  have hcall : call Table.execute e (.fetch owner) t = (List.mapM Row.record _, t) := call_eq rfl rfl
  exact hcall.trans (congrArg (·, t) hread)

end Calls

/-! ## Agreement -/

/-- The same answer, or the same record not found; only the name of the operation may differ. -/
inductive SameResult {α : Type} : Except OutboxError α → Except OutboxError α → Prop
  | answered (a : α) : SameResult (.ok a) (.ok a)
  | notFound (id : RecordId) {op op' : String} :
      SameResult (.error (.store op (.recordNotFound id))) (.error (.store op' (.recordNotFound id)))

theorem agree_save (e : Message.Encoding) (hm : Mirrors t.rows s.records) (hr : r.Storable) :
    SameResult (call Table.execute e (.save r) t).1 (s.perform (.save r)).1 ∧
      Mirrors (call Table.execute e (.save r) t).2.rows (s.perform (.save r)).2.records := by
  obtain ⟨t', hcall, hrows⟩ := save_table (e := e) (t := t) hr.attempts
  have hcount : (t.rows.countP fun row => row.id = r.id) = s.records.countP fun v => v.id = r.id :=
    hm.countP_eq fun h => by rw [h.id]
  have hm' : Mirrors t'.rows (s.save r).records := by
    rw [hrows]
    refine hm.map fun {row v} h => ?_
    rw [h.id]
    split
    · exact holds_written
    · exact h
  rw [hcall, hcount, Store.perform_save_snd]
  refine ⟨?_, hm'⟩
  cases hg : s.get? r.id with
  | some v =>
      have hfound : 0 < s.records.countP fun v => v.id = r.id :=
        List.countP_pos_iff.2 ⟨v, Store.mem_of_get? hg, decide_eq_true (Store.id_of_get? hg)⟩
      rw [answer_save hfound, Store.perform, hg]
      exact .answered ()
  | none =>
      have hnone : (s.records.countP fun v => v.id = r.id) = 0 := by
        refine List.countP_eq_zero.2 fun v hv hid => ?_
        rw [← of_decide_eq_true hid, Store.get?_of_mem hv] at hg
        cases hg
      rw [hnone, Store.perform, hg]
      exact .notFound r.id

theorem agree_step {a : Answer} (k : Call a) (e : Message.Encoding) (hm : Mirrors t.rows s.records)
    (hs : ∀ r ∈ s.records, r.Storable) (hk : k.Storable) :
    SameResult (call Table.execute e k t).1 (s.perform k).1 ∧
      Mirrors (call Table.execute e k t).2.rows (s.perform k).2.records := by
  cases k with
  | fetch owner =>
      rw [call_fetch hm hs]
      exact ⟨.answered _, hm⟩
  | claim owner now state =>
      obtain ⟨t', hcall, hm'⟩ := call_locking (e := e) (.claim owner now state) rfl hm hs
        (fun h => (Condition.selects_and ..).trans
          (congrArg₂ and (selects_state h rfl) (selects_unlocked h)))
        fun h => updated_locking h
      rw [hcall]
      exact ⟨.answered _, hm'⟩
  | save r => exact agree_save e hm hk
  | unlockBefore cutoff =>
      obtain ⟨t', hcall, hm'⟩ := call_locking (e := e) (.unlockBefore cutoff) rfl hm hs
        (fun h => selects_lockedOn h rfl) fun h => updated_unlocking h
      rw [hcall]
      exact ⟨.answered _, hm'⟩
  | release owner =>
      obtain ⟨t', hcall, hm'⟩ := call_locking (e := e) (.release owner) rfl hm hs
        (fun h => selects_lockedBy h rfl) fun h => updated_unlocking h
      rw [hcall]
      exact ⟨.answered _, hm'⟩
  | removeBefore cutoff =>
      obtain ⟨t', hcall, hm'⟩ := call_removing (e := e) (.removeBefore cutoff) rfl hm
        fun h => selects_createdOn h rfl
      rw [hcall]
      exact ⟨.answered _, hm'⟩
  | removeFinishedBefore cutoff =>
      obtain ⟨t', hcall, hm'⟩ := call_removing (e := e) (.removeFinishedBefore cutoff) rfl hm
        fun h => (Condition.selects_and ..).trans
          (congrArg₂ and (selects_createdOn h rfl) (selects_finished h rfl))
      rw [hcall]
      exact ⟨.answered _, hm'⟩

theorem storable_perform {a : Answer} (k : Call a) (hs : ∀ r ∈ s.records, r.Storable)
    (hk : k.Storable) : ∀ r ∈ (s.perform k).2.records, r.Storable := by
  have hmap : ∀ f : Record → Record, (∀ r, r.Storable → (f r).Storable) →
      ∀ r ∈ s.records.map f, r.Storable := by
    intro f hf r hr
    obtain ⟨v, hv, rfl⟩ := List.mem_map.1 hr
    exact hf v (hs v hv)
  cases k with
  | fetch owner => exact hs
  | claim owner now state =>
      refine hmap _ fun r hr => ?_
      split
      · exact ⟨hr.attempts, hr.size⟩
      · exact hr
  | save r =>
      rw [Store.perform_save_snd]
      refine hmap _ fun v hv => ?_
      split
      · exact hk
      · exact hv
  | unlockBefore cutoff | release owner =>
      refine hmap _ fun r hr => ?_
      split
      · exact ⟨hr.attempts, hr.size⟩
      · exact hr
  | removeBefore cutoff | removeFinishedBefore cutoff =>
      exact fun r hr => hs r (List.mem_of_mem_filter hr)

/-- A call, and the order of the headers in what it writes. -/
structure Job where
  {answer : Answer}
  call : Call answer
  encoding : Message.Encoding

/-- Each call in turn has the same result on the table as on the store, and leaves the table with the rows
of the store's records. -/
def Agree : List Job → Table → Store → Prop
  | [], _, _ => True
  | job :: jobs, t, s =>
    let (result, t') := call Table.execute job.encoding job.call t
    let (result', s') := s.perform job.call
    SameResult result result' ∧ Mirrors t'.rows s'.records ∧ Agree jobs t' s'

/-- The two stores cannot be told apart by their calls, as long as no record has more attempts than the
column has room for. -/
theorem stores_agree (jobs : List Job) (t : Table) (s : Store) (hm : Mirrors t.rows s.records)
    (hs : ∀ r ∈ s.records, r.Storable) (hjobs : ∀ job ∈ jobs, job.call.Storable) : Agree jobs t s := by
  induction jobs generalizing t s with
  | nil => trivial
  | cons job jobs ih =>
      rw [List.forall_mem_cons] at hjobs
      obtain ⟨hresult, hm'⟩ := agree_step job.call job.encoding hm hs hjobs.1
      exact ⟨hresult, hm', ih _ _ hm' (storable_perform job.call hs hjobs.1) hjobs.2⟩

/-- A pending record that nobody has locked. -/
def waiting : Record := .new (.nth 3) .mixed default

theorem storable_waiting : waiting.Storable := ⟨Nat.zero_le _, size_mixed⟩

theorem storable_givenUp : givenUp.Storable := ⟨Nat.le_refl _, size_mixed⟩

/-- The younger record stands first in the table. -/
def mixedTable : Table := ⟨[written .sorted givenUp, written .sorted waiting], by decide +kernel⟩

def mixedStore : Store := Store.empty.putAll [givenUp, waiting]

/-- A claim and what it locked, a save that finds its record and one that does not, and a clean-up. -/
def mixedJobs : List Job :=
  [⟨.claim ⟨"machine-b"⟩ default .pending, .sorted⟩, ⟨.fetch ⟨"machine-b"⟩, .sorted⟩,
    ⟨.save waiting, .sorted⟩, ⟨.save { waiting with id := .nth 4 }, .sorted⟩,
    ⟨.removeFinishedBefore .latest, .sorted⟩]

theorem stores_agree_mixed :
    Mirrors mixedTable.rows mixedStore.records ∧ (∀ r ∈ mixedStore.records, r.Storable) ∧
      (∀ job ∈ mixedJobs, job.call.Storable) ∧ Agree mixedJobs mixedTable mixedStore := by
  have hrecords : mixedStore.records = [waiting, givenUp] := by decide +kernel
  have hmirrors : Mirrors mixedTable.rows mixedStore.records := by
    rw [hrecords]
    exact ⟨[givenUp, waiting], .cons holds_written (.cons holds_written .nil), .swap ..⟩
  have hstorable : ∀ r ∈ mixedStore.records, r.Storable := by
    rw [hrecords]
    exact List.forall_mem_cons.2 ⟨storable_waiting, List.forall_mem_singleton.2 storable_givenUp⟩
  have hjobs : ∀ job ∈ mixedJobs, job.call.Storable := by
    have hother : Record.Storable { waiting with id := .nth 4 } :=
      ⟨storable_waiting.attempts, storable_waiting.size⟩
    simp [mixedJobs, Call.Storable, storable_waiting, hother]
  exact ⟨hmirrors, hstorable, hjobs, stores_agree mixedJobs mixedTable mixedStore hmirrors hstorable hjobs⟩

end Sql

end Outbox

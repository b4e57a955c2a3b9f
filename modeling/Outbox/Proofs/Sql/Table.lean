import Mathlib.Data.List.Forall2
import Outbox.Proofs.RecordId.Bytes
import Outbox.Sql.Adapter

/-!
# What the statements mean

The standard meaning of the statements on a table of rows. Values are taken from the parameters by
number, as in the text of a statement, and the columns hold times to the nanosecond. A comparison with
NULL is neither true nor false, and a statement concerns the rows that its condition is true of.
-/

namespace Outbox.Sql

/-! ## Values -/

namespace Value

def sameType : Value → Value → Bool
  | uuid _, uuid _ | bytes _, bytes _ | int _, int _ | time _, time _ | text _, text _ => true
  | _, _ => false

/-- Unknown for NULL, as for values of different types, which no statement compares. -/
def equals? (a b : Value) : Option Bool := if a.sameType b then some (a = b) else none

/-- Ids are compared byte by byte. Texts are left out, for their order is up to the database. -/
def precedes? : Value → Value → Option Bool
  | uuid a, uuid b => some (a.bytes < b.bytes)
  | bytes a, bytes b => some (a < b)
  | int a, int b => some (a < b)
  | time a, time b => some (a < b)
  | _, _ => none

/-- In ascending order NULL comes last. -/
def sortsBefore : Value → Value → Bool
  | null, _ => false
  | _, null => true
  | a, b => a.precedes? b = some true

def uuid? : Value → Option RecordId
  | uuid id => some id
  | _ => none

def bytes? : Value → Option (List UInt8)
  | bytes bs => some bs
  | _ => none

def time? : Value → Option Instant
  | time t => some t
  | _ => none

def text? : Value → Option String
  | text s => some s
  | _ => none

/-- A column of that many bits has room for the integer. -/
def Within (bits : Nat) (n : Int) : Prop :=
  -(Nat.pow 2 (bits - 1) : Int) ≤ n ∧ n < (Nat.pow 2 (bits - 1) : Int)

instance {bits : Nat} {n : Int} : Decidable (Within bits n) := inferInstanceAs (Decidable (_ ∧ _))

def int? (bits : Nat) : Value → Option Int
  | int n => if Within bits n then some n else none
  | _ => none

/-- Reads a column that may be NULL. -/
def nullable {α : Type} (read : Value → Option α) : Value → Option (Option α)
  | null => some none
  | v => (read v).map some

theorem int?_of_within {bits : Nat} {n : Int} (h : Within bits n) : (int n).int? bits = some n := if_pos h

@[simp] theorem nullable_ofText? (o : Option String) : (ofText? o).nullable text? = some o := by
  cases o <;> rfl

@[simp] theorem nullable_ofTime? (o : Option Instant) : (ofTime? o).nullable time? = some o := by
  cases o <;> rfl

end Value

/-- The parameter with that number. -/
def param (ps : List Value) (n : Nat) : Value := ps.getD (n - 1) .null

/-! ## Conditions -/

def Comparison.truth : Comparison → Value → Value → Option Bool
  | equal, a, b => a.equals? b
  | less, a, b => a.precedes? b
  | differs, a, b => (a.equals? b).map not

/-! A comparison is unknown just where the column is NULL. -/

theorem truth_equal_text (o : Option String) (s : String) :
    Comparison.equal.truth (.ofText? o) (.text s) = o.map fun a => decide (a = s) := by
  cases o <;> simp [Comparison.truth, Value.equals?, Value.sameType, Value.ofText?]

theorem truth_less_time (o : Option Instant) (t : Instant) :
    Comparison.less.truth (.ofTime? o) (.time t) = o.map fun a => decide (a < t) := by
  cases o <;> rfl

theorem truth_equal_int (a b : Int) : Comparison.equal.truth (.int a) (.int b) = some (decide (a = b)) := by
  simp [Comparison.truth, Value.equals?, Value.sameType]

theorem truth_differs_int (a b : Int) :
    Comparison.differs.truth (.int a) (.int b) = some !decide (a = b) := by
  simp [Comparison.truth, Value.equals?, Value.sameType]

theorem truth_equal_uuid (a b : RecordId) :
    Comparison.equal.truth (.uuid a) (.uuid b) = some (decide (a = b)) := by
  simp [Comparison.truth, Value.equals?, Value.sameType]

/-- One side that is false decides, even where the other is unknown. -/
def both : Option Bool → Option Bool → Option Bool
  | some false, _ | _, some false => some false
  | some true, some true => some true
  | _, _ => none

theorem both_eq_true_iff {a b : Option Bool} : both a b = some true ↔ a = some true ∧ b = some true := by
  rcases a with _ | _ | _ <;> rcases b with _ | _ | _ <;> simp [both]

namespace Condition

/-- The truth on a row; `n` is the number of the next parameter. -/
def truth (ps : List Value) (r : Row) : Nat → Condition → Option Bool
  | n, compare c op _ => op.truth (r.value c) (param ps n)
  | _, isNull c => some (r.value c = .null)
  | n, and a b => both (a.truth ps r n) (b.truth ps r (n + a.params.length))

def selects (c : Condition) (ps : List Value) (n : Nat) (r : Row) : Bool := c.truth ps r n = some true

theorem selects_and {a b : Condition} {ps : List Value} {n : Nat} {r : Row} :
    (and a b).selects ps n r = (a.selects ps n r && b.selects ps (n + a.params.length) r) := by
  rw [Bool.eq_iff_iff]
  simp only [selects, truth, Bool.and_eq_true, decide_eq_true_eq, both_eq_true_iff]

end Condition

/-! ## Rows -/

def Term.value (ps : List Value) (n : Nat) : Term → Value
  | param _ => Sql.param ps n
  | null => .null

/-- What a column is set to, if it is; `n` is the number of the next parameter. -/
def assigned (ps : List Value) (c : Column) : Nat → List (Column × Term) → Option Value
  | _, [] => none
  | n, (d, t) :: rest => if d = c then some (t.value ps n) else assigned ps c (n + t.params.length) rest

/-- The value of a column that an insertion leaves out. -/
def Column.default : Column → Value
  | attempts => .int 0
  | _ => .null

/-- The values stand in the order of the columns that are named. -/
def inserted (ps : List Value) (columns : List Column) (c : Column) : Value :=
  match columns.idxOf? c with
  | some i => param ps (i + 1)
  | none => c.default

namespace Row

/-- Each value must be of the type of its column. -/
def ofValues (cell : Column → Value) : Option Row := do
  return {
    id := ← (cell .id).uuid?
    data := ← (cell .data).bytes?
    state := ← (cell .state).int? 16
    createdOn := ← (cell .createdOn).time?
    lockedBy := ← (cell .lockedBy).nullable Value.text?
    lockedOn := ← (cell .lockedOn).nullable Value.time?
    processedOn := ← (cell .processedOn).nullable Value.time?
    attempts := ← (cell .attempts).int? 32
    lastAttemptedOn := ← (cell .lastAttemptedOn).nullable Value.time?
    error := ← (cell .error).nullable Value.text? }

/-- The integers of the row fit their columns. -/
structure Fits (r : Row) : Prop where
  state : Value.Within 16 r.state
  attempts : Value.Within 32 r.attempts

theorem ofValues_value {r : Row} (h : r.Fits) : ofValues r.value = some r := by
  simp [ofValues, value, Value.uuid?, Value.bytes?, Value.time?, Value.int?_of_within h.state,
    Value.int?_of_within h.attempts]

def updated (ps : List Value) (assignments : List (Column × Term)) (r : Row) : Option Row :=
  ofValues fun c => (assigned ps c 1 assignments).getD (r.value c)

/-- Whether the row may stand before the other. -/
def inOrder : List Column → Row → Row → Bool
  | [], _, _ => true
  | c :: cs, a, b =>
    (a.value c).sortsBefore (b.value c) || (a.value c = b.value c && inOrder cs a b)

end Row

/-! ## Tables -/

theorem mapM_eq_pure {α β : Type} {m : Type → Type} [Monad m] [LawfulMonad m] {f : α → m β} {l : List α}
    {l' : List β} (h : List.Forall₂ (fun a b => f a = pure b) l l') : l.mapM f = pure l' := by
  induction h with
  | nil => rfl
  | cons ha _ ih => simp [ha, ih]

/-- The rows of a table, whose order means nothing. No two have the same id. -/
structure Table where
  rows : List Row
  key : (rows.map Row.id).Nodup

namespace Table

def empty : Table := ⟨[], .nil⟩

def misfit : String := "value does not fit its column"

def duplicateKey : String := "duplicate key value violates unique constraint \"outbox_pkey\""

/-- A change that would break the key is refused. -/
def change (t : Table) (affected : Nat) (rows : List Row) : Reply × Table :=
  if key : (rows.map Row.id).Nodup then (.ok { affected }, ⟨rows, key⟩) else (.error duplicateKey, t)

def insert (t : Table) (row : Option Row) : Reply × Table :=
  match row with
  | some r => t.change 1 (r :: t.rows)
  | none => (.error misfit, t)

def select (t : Table) (p : Row → Bool) (order : List Column) : Reply × Table :=
  (.ok { rows := (t.rows.filter p).mergeSort (Row.inOrder order) }, t)

def update (t : Table) (p : Row → Bool) (f : Row → Option Row) : Reply × Table :=
  match t.rows.mapM fun r => if p r then f r else some r with
  | some rows => t.change (t.rows.countP p) rows
  | none => (.error misfit, t)

def delete (t : Table) (p : Row → Bool) : Reply × Table :=
  t.change (t.rows.countP p) (t.rows.filter fun r => !p r)

/-- The table exists, so that its creation changes nothing. -/
def run (ps : List Value) (t : Table) : Statement → Reply × Table
  | .createTable | .createIndex .. => (.ok {}, t)
  | .insert row => t.insert (Row.ofValues (inserted ps (row.map Prod.fst)))
  | .select only order => t.select (only.selects ps 1) order
  | .update assignments only =>
    t.update (only.selects ps (1 + (assignments.flatMap (·.2.params)).length)) (Row.updated ps assignments)
  | .delete only => t.delete (only.selects ps 1)

def execute (s : Statement) (t : Table) : Reply × Table := t.run s.params s

variable {t : Table}

theorem change_of_nodup {affected : Nat} {rows : List Row} (h : (rows.map Row.id).Nodup) :
    ∃ t', t.change affected rows = (.ok { affected }, t') ∧ t'.rows = rows :=
  ⟨_, dif_pos h, rfl⟩

theorem insert_eq {row : Row} (h : ∀ other ∈ t.rows, other.id ≠ row.id) :
    ∃ t', t.insert (some row) = (.ok { affected := 1 }, t') ∧ t'.rows = row :: t.rows := by
  apply change_of_nodup
  rw [List.map_cons, List.nodup_cons]
  refine ⟨fun hmem => ?_, t.key⟩
  obtain ⟨other, hother, he⟩ := List.mem_map.1 hmem
  exact h other hother he

/-- An update that can be carried out on each selected row and leaves the ids alone. -/
theorem update_eq {p : Row → Bool} {f : Row → Option Row} {g : Row → Row}
    (hf : ∀ row ∈ t.rows, p row → f row = some (g row))
    (hid : ∀ row ∈ t.rows, p row → (g row).id = row.id) :
    ∃ t', t.update p f = (.ok { affected := t.rows.countP p }, t') ∧
      t'.rows = t.rows.map fun row => if p row then g row else row := by
  have hrows : (t.rows.mapM fun r => if p r then f r else some r) =
      some (t.rows.map fun row => if p row then g row else row) := by
    refine mapM_eq_pure (List.forall₂_map_right_iff.2 (List.forall₂_same.2 fun row hrow => ?_))
    split
    · rename_i hp
      exact hf row hrow hp
    · rfl
  have hids : (t.rows.map fun row => if p row then g row else row).map Row.id = t.rows.map Row.id := by
    rw [List.map_map]
    refine List.map_congr_left fun row hrow => ?_
    simp only [Function.comp]
    split
    · rename_i hp
      exact hid row hrow hp
    · rfl
  rw [update, hrows]
  exact change_of_nodup (hids ▸ t.key)

theorem delete_eq {p : Row → Bool} :
    ∃ t', t.delete p = (.ok { affected := t.rows.countP p }, t') ∧
      t'.rows = t.rows.filter fun r => !p r :=
  change_of_nodup (t.key.sublist (List.filter_sublist.map Row.id))

end Table

end Outbox.Sql

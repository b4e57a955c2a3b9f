import Outbox.Instant
import Outbox.RecordId

/-!
The SQL statements of the relational store: their structure, their text with numbered parameters,
and the values bound to these.
-/

namespace Outbox.Sql

inductive Column where
  | id | data | state | createdOn | lockedBy | lockedOn | processedOn | attempts | lastAttemptedOn | error
deriving DecidableEq

namespace Column

def name : Column → String
  | id => "id"
  | data => "data"
  | state => "state"
  | createdOn => "created_on"
  | lockedBy => "locked_by"
  | lockedOn => "locked_on"
  | processedOn => "processed_on"
  | attempts => "number_of_attempts"
  | lastAttemptedOn => "last_attempted_on"
  | error => "error"

def nonKey : List Column :=
  [data, state, createdOn, lockedBy, lockedOn, processedOn, attempts, lastAttemptedOn, error]

def all : List Column := id :: nonKey

def type : Column → String
  | id => "UUID PRIMARY KEY"
  | data => "BYTEA NOT NULL"
  | state => "SMALLINT NOT NULL"
  | createdOn => "TIMESTAMPTZ NOT NULL"
  | lockedBy | error => "TEXT"
  | lockedOn | processedOn | lastAttemptedOn => "TIMESTAMPTZ"
  | attempts => "INTEGER NOT NULL DEFAULT 0"

end Column

inductive Value where
  | null
  | uuid (id : RecordId)
  | bytes (bs : List UInt8)
  | int (n : Int)
  | time (t : Instant)
  | text (s : String)
deriving DecidableEq

inductive Comparison where
  | equal | less | differs
deriving DecidableEq

def Comparison.sign : Comparison → String
  | equal => "=" | less => "<" | differs => "<>"

/-- What a statement selects rows by. Values are bound as parameters. -/
inductive Condition where
  | compare (c : Column) (op : Comparison) (v : Value)
  | isNull (c : Column)
  | and (a b : Condition)

/-- What a column is set to. -/
inductive Term where
  | param (v : Value)
  | null

inductive Statement where
  | createTable
  | createIndex (column : Column) (name : String) (only : Option Condition)
  | insert (row : List (Column × Value))
  | select (only : Condition) (order : List Column)
  | update (assignments : List (Column × Term)) (only : Condition)
  | delete (only : Condition)

def table : String := "outbox"

def commas : List String → String := String.intercalate ", "

/-! ## Bound values, in the order of their numbers -/

def Condition.params : Condition → List Value
  | compare _ _ v => [v]
  | isNull _ => []
  | and a b => a.params ++ b.params

def Term.params : Term → List Value
  | param v => [v]
  | null => []

def Statement.params : Statement → List Value
  | createTable | createIndex .. => []
  | insert row => row.map Prod.snd
  | select only _ | delete only => only.params
  | update assignments only => assignments.flatMap (·.2.params) ++ only.params

/-! ## Text; `n` is the number of the next parameter -/

def placeholder (n : Nat) : String := "$" ++ toString n

def Condition.text (n : Nat) : Condition → String
  | compare c op _ => c.name ++ " " ++ op.sign ++ " " ++ placeholder n
  | isNull c => c.name ++ " IS NULL"
  | and a b => a.text n ++ " AND " ++ b.text (n + a.params.length)

def Term.text (n : Nat) : Term → String
  | param _ => placeholder n
  | null => "NULL"

def assignmentTexts (n : Nat) : List (Column × Term) → List String
  | [] => []
  | (c, t) :: rest => (c.name ++ " = " ++ t.text n) :: assignmentTexts (n + t.params.length) rest

def Statement.text : Statement → String
  | createTable =>
    "CREATE TABLE IF NOT EXISTS " ++ table ++ " ( " ++
      commas (Column.all.map fun c => c.name ++ " " ++ c.type) ++ " )"
  | createIndex column name only =>
    "CREATE INDEX IF NOT EXISTS " ++ name ++ " ON " ++ table ++ "(" ++ column.name ++ ")" ++
      (match only with
        | some condition => " WHERE " ++ condition.text 1
        | none => "")
  | insert row =>
    "INSERT INTO " ++ table ++ " (" ++ commas (row.map (·.1.name)) ++ ") VALUES (" ++
      commas ((List.range row.length).map fun i => placeholder (i + 1)) ++ ")"
  | select only order =>
    "SELECT " ++ commas (Column.all.map Column.name) ++ " FROM " ++ table ++ " WHERE " ++ only.text 1 ++
      " ORDER BY " ++ commas (order.map fun c => c.name ++ " ASC")
  | update assignments only =>
    "UPDATE " ++ table ++ " SET " ++ commas (assignmentTexts 1 assignments) ++ " WHERE " ++
      only.text (1 + (assignments.flatMap (·.2.params)).length)
  | delete only => "DELETE FROM " ++ table ++ " WHERE " ++ only.text 1

/-! ## Values on the wire -/

/-- The start of 2000, from which time columns are counted. -/
def columnEpoch : Int := 946684800 * 1000000000

/-- Time columns hold whole microseconds; the rest is cut off toward the start of 2000. -/
def toMicros (t : Instant) : Instant :=
  let d := t.nanos - columnEpoch
  if h : 0 ≤ d then
    ⟨columnEpoch + d / 1000 * 1000,
      by have := t.earliest_le; have := t.le_latest; simp only [columnEpoch, earliestNanos, latestNanos, d] at *; omega,
      by have := t.earliest_le; have := t.le_latest; simp only [columnEpoch, earliestNanos, latestNanos, d] at *; omega⟩
  else
    ⟨columnEpoch - -d / 1000 * 1000,
      by have := t.earliest_le; have := t.le_latest; simp only [columnEpoch, earliestNanos, latestNanos, d] at *; omega,
      by have := t.earliest_le; have := t.le_latest; simp only [columnEpoch, earliestNanos, latestNanos, d] at *; omega⟩

def Value.onWire : Value → Value
  | time t => time (toMicros t)
  | v => v

end Outbox.Sql

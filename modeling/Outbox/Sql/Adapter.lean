import Outbox.Call
import Outbox.Sql.Row

/-!
The relational store: which statement a call becomes, and what is made of the reply.
-/

namespace Outbox.Sql

structure Answered where
  rows : List Row := []
  affected : Nat := rows.length

/-- A refusal carries the database's own text. -/
abbrev Reply := Except String Answered

def opName (op : String) : String := "outbox.postgres." ++ op

/-- What the attempts column can hold. -/
def maxAttempts : Nat := Nat.pow 2 31 - 1

def writtenRow (e : Message.Encoding) (op : Operation) (r : Record) : Except OutboxError Row :=
  if r.attempts ≤ maxAttempts then .ok (.ofRecord r (e.write r.message))
  else .error (.store (opName op.name) (.attemptsOverflow r.attempts))

def Row.values (r : Row) (columns : List Column) : List (Column × Value) :=
  columns.map fun c => (c, r.value c)

def insertion (e : Message.Encoding) (r : Record) : Except OutboxError Statement := do
  return .insert ((← writtenRow e .add r).values Column.all)

def statement (e : Message.Encoding) : {a : Answer} → Call a → Except OutboxError Statement
  | _, .fetch owner =>
    return .select (.compare .lockedBy .equal (.text owner.text)) [.createdOn, .id]
  | _, .claim owner now state =>
    return .update [(.lockedBy, .param (.text owner.text)), (.lockedOn, .param (.time now))]
      (.and (.compare .state .equal (.int state.number)) (.isNull .lockedBy))
  | _, .save r => do
    let row ← writtenRow e .save r
    return .update ((row.values Column.nonKey).map fun v => (v.1, .param v.2))
      (.compare .id .equal (.uuid r.id))
  | _, .unlockBefore cutoff =>
    return .update [(.lockedBy, .null), (.lockedOn, .null)] (.compare .lockedOn .less (.time cutoff))
  | _, .release owner =>
    return .update [(.lockedBy, .null), (.lockedOn, .null)]
      (.compare .lockedBy .equal (.text owner.text))
  | _, .removeBefore cutoff => return .delete (.compare .createdOn .less (.time cutoff))
  | _, .removeFinishedBefore cutoff =>
    return .delete (.and (.compare .createdOn .less (.time cutoff))
      (.compare .state .differs (.int State.pending.number)))

def refused (op : String) (text : String) : OutboxError := .store (opName op) (.database text)

/-- The first row that cannot be read makes the whole fetch fail. -/
def answer : {a : Answer} → Call a → Answered → Except OutboxError a.Val
  | _, .fetch _, reply => reply.rows.mapM Row.record
  | _, .save r, reply =>
    if reply.affected = 0 then
      .error (.store (opName Operation.save.name) (.recordNotFound r.id))
    else .ok ()
  | _, .claim .., reply | _, .unlockBefore _, reply | _, .release _, reply
  | _, .removeBefore _, reply | _, .removeFinishedBefore _, reply => .ok reply.affected

/-! ## On a database -/

section Database

variable {ω : Type} (execute : Statement → ω → Reply × ω)

def executeFor (op : String) (s : Statement) (w : ω) : Except OutboxError Answered × ω :=
  match execute s w with
  | (.ok reply, w) => (.ok reply, w)
  | (.error text, w) => (.error (refused op text), w)

/-- A call that has no statement is not sent. -/
def call (e : Message.Encoding) {a : Answer} (k : Call a) (w : ω) : Except OutboxError a.Val × ω :=
  match statement e k with
  | .error f => (.error f, w)
  | .ok s =>
    match executeFor execute k.operation.name s w with
    | (.ok reply, w) => (answer k reply, w)
    | (.error f, w) => (.error f, w)

def add (e : Message.Encoding) (r : Record) (w : ω) : Except OutboxError Unit × ω :=
  match insertion e r with
  | .error f => (.error f, w)
  | .ok s =>
    match executeFor execute Operation.add.name s w with
    | (.ok _, w) => (.ok (), w)
    | (.error f, w) => (.error f, w)

def executeAll (op : String) : List Statement → ω → Except OutboxError Unit × ω
  | [], w => (.ok (), w)
  | s :: ss, w =>
    match executeFor execute op s w with
    | (.ok _, w) => executeAll op ss w
    | (.error f, w) => (.error f, w)

def schema : List Statement :=
  [.createTable, .createIndex .state "idx_outbox_state" (some (.isNull .lockedBy)),
    .createIndex .lockedBy "idx_outbox_locked_by" none,
    .createIndex .createdOn "idx_outbox_created_on" none]

def migrate (w : ω) : Except OutboxError Unit × ω := executeAll execute "migrate" schema w

end Database

end Outbox.Sql

/-!
TOML values, and tables that grow line by line. A table remembers how it came about, because that
decides who may still add to it.
-/

namespace Outbox.Toml

inductive Origin where
  /-- Opened by a header of its own. -/
  | header
  /-- Implied by the header of a table inside it. -/
  | implied
  /-- Made by a dotted key. -/
  | dotted
  /-- Written out as a value. -/
  | inline
deriving DecidableEq

mutual

inductive Value where
  | text (s : String)
  | integer (n : Int)
  | float (source : String)
  | datetime (source : String)
  | flag (b : Bool)
  | array (items : List Value)
  | table (t : Table)
  /-- An array of tables, of which only the last one can grow. -/
  | tables (ts : List Table)

inductive Table where
  | mk (origin : Origin) (entries : List (String × Value))

end

namespace Table

def origin : Table → Origin
  | mk o _ => o

def entries : Table → List (String × Value)
  | mk _ es => es

def empty (o : Origin) : Table := mk o []

def get? (t : Table) (key : String) : Option Value := t.entries.lookup key

def put (t : Table) (key : String) (v : Value) : Table :=
  if (t.get? key).isSome then mk t.origin (t.entries.map fun e => if e.1 = key then (key, v) else e)
  else mk t.origin (t.entries ++ [(key, v)])

/-- Changes the table at the end of a path. Tables that are missing on the way are made; a dotted key
does not reach into tables that have a header of their own, and nothing reaches into inline ones. -/
def modifyAt (dotted : Bool) (f : Table → Option Table) : List String → Table → Option Table
  | [], t => f t
  | k :: ks, t =>
    match t.get? k with
    | none => do
      return t.put k (.table (← modifyAt dotted f ks (empty (if dotted then .dotted else .implied))))
    | some (.table sub) =>
      if sub.origin = .inline ∨ (dotted ∧ sub.origin = .header) then none
      else do return t.put k (.table (← modifyAt dotted f ks sub))
    | some (.tables ts) =>
      match ts.getLast? with
      | some sub => do return t.put k (.tables (ts.dropLast ++ [← modifyAt dotted f ks sub]))
      | none => none
    | some _ => none

def add (key : String) (v : Value) (t : Table) : Option Table :=
  match t.get? key with
  | none => some (t.put key v)
  | some _ => none

/-- Adds a value under a dotted key. Only tables that dotted keys have made are reached by them. -/
def assign (path : List String) (key : String) (v : Value) (t : Table) : Option Table :=
  t |> modifyAt true (fun sub => if (sub.origin = .dotted) = path.isEmpty then none else sub.add key v) path

/-- Opens the table of a header: a new one, or one that so far was only implied. -/
def openTable (path : List String) (key : String) (t : Table) : Option Table :=
  t |> modifyAt false (fun parent =>
    match parent.get? key with
    | none => some (parent.put key (.table (empty .header)))
    | some (.table sub) =>
      if sub.origin = .implied then some (parent.put key (.table (mk .header sub.entries))) else none
    | some _ => none) path

def openElement (path : List String) (key : String) (t : Table) : Option Table :=
  t |> modifyAt false (fun parent =>
    match parent.get? key with
    | none => some (parent.put key (.tables [empty .header]))
    | some (.tables ts) => some (parent.put key (.tables (ts ++ [empty .header])))
    | some _ => none) path

def ofAssignments? (l : List (List String × String × Value)) : Option Table :=
  l.foldlM (fun t a => t.assign a.1 a.2.1 a.2.2) (empty .inline)

end Table

inductive Line where
  | assign (path : List String) (key : String) (v : Value)
  | table (path : List String) (key : String)
  | element (path : List String) (key : String)

/-- A document in the making: its root, and the path to the table that assignments go to. -/
structure Draft where
  root : Table := .empty .header
  current : List String := []

def Draft.read (d : Draft) : Line → Option Draft
  | .assign path key v => do
    return { d with root := ← d.root.modifyAt false (Table.assign path key v) d.current }
  | .table path key => do return ⟨← d.root.openTable path key, path ++ [key]⟩
  | .element path key => do return ⟨← d.root.openElement path key, path ++ [key]⟩

def Table.ofLines? (ls : List Line) : Option Table := (ls.foldlM Draft.read {}).map Draft.root

end Outbox.Toml

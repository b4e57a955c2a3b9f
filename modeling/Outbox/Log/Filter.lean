import Outbox.Log
import Outbox.Text.Count

/-!
Log filters: which entries are shown. A filter is a list of directives such as `app=debug`; of those
that concern an entry the most specific one decides how detailed the entry may be.
-/

namespace Outbox

def LogLevel.detail : LogLevel → Nat
  | error => 1 | warn => 2 | info => 3 | debug => 4

/-- Shows entries up to a detail: those whose target begins in that way and that have that field. -/
structure LogDirective where
  target : Option String := none
  field : Option String := none
  detail : Nat
deriving DecidableEq

namespace LogDirective

def concerns (d : LogDirective) (e : LogEntry) : Bool :=
  d.target.all (fun t => t.toList.isPrefixOf e.target.toList) &&
    d.field.all fun f => f = "message" || (e.fields.map Prod.fst).contains f

/-- A longer target is more specific, and at equal length one with a field. -/
def outranks (a b : LogDirective) : Bool :=
  let length (d : LogDirective) := d.target.elim 0 (·.length + 1)
  if length a ≠ length b then length b < length a
  else
    match a.field, b.field with
    | some f, some g => g < f
    | some _, none => true
    | none, _ => false

end LogDirective

abbrev LogFilter := List LogDirective

namespace LogFilter

/-- Of directives of one rank the last one decides. -/
def decisive? (f : LogFilter) (e : LogEntry) : Option LogDirective :=
  (f.filter (·.concerns e)).foldl
    (fun best d => match best with
      | some b => if b.outranks d then some b else some d
      | none => some d) none

def shows (f : LogFilter) (e : LogEntry) : Bool := (f.decisive? e).any (e.level.detail ≤ ·.detail)

def standard : LogFilter := [{ detail := 3 }]

/-! ## Text -/

def most : Nat := 5

/-- A level by its name in any case, or by its number. -/
def level? (cs : List Char) : Option Nat :=
  match readCount (most + 1) (String.ofList cs) with
  | .ok n => some n
  | .error _ =>
    let names := ["off", "error", "warn", "info", "debug", "trace"]
    if cs.isEmpty then some 1 else names.idxOf? (String.ofList (cs.map Char.toLower))

/-- The level behind an equals sign; without one everything is shown. -/
def levelOrMost? (cs : List Char) : Option Nat := if cs.isEmpty then some most else level? cs

def trailingLevel? : List Char → Option Nat
  | [] => some most
  | '=' :: rest => levelOrMost? rest
  | _ => none

/-- The rest of a directive, behind an opening bracket. One that asks for a span or for the value of a
field is sound but concerns no entry. -/
def scope? (target : Option String) (cs : List Char) : Option (Option LogDirective) :=
  let span := cs.takeWhile fun c => c ≠ ']' && c ≠ '\x7b'
  match cs.drop span.length with
  | ']' :: rest => (trailingLevel? rest).map fun _ => none
  | '\x7b' :: rest =>
    let field := rest.takeWhile (· ≠ '\x7d')
    match rest.drop field.length with
    | '\x7d' :: ']' :: rest =>
      if field.isEmpty then none
      else (trailingLevel? rest).map fun n =>
        if span.isEmpty && !field.contains '=' then some { target, field := some (String.ofList field), detail := n }
        else none
    | _ => none
  | _ => none

/-- Letters beyond ASCII may begin a name as well. -/
def beginsName (c : Char) : Bool :=
  c.isAlphanum || c = '-' || c = ':' || c = '_' || '\x7f' < c

def trim (cs : List Char) : List Char :=
  ((cs.dropWhile Char.isWhitespace).reverse.dropWhile Char.isWhitespace).reverse

def directive? (text : String) : Option (Option LogDirective) :=
  match trim text.toList with
  | [] => none
  | '[' :: rest => scope? none rest
  | c :: cs =>
    if beginsName c then
      let name := (c :: cs).takeWhile fun c => c ≠ '=' && c ≠ '['
      let target := some (String.ofList name)
      match (c :: cs).drop name.length with
      | [] => match level? name with
        | some n => some (some { detail := n })
        | none => some (some { target, detail := most })
      | '=' :: rest => (levelOrMost? rest).map fun n => some { target, detail := n }
      | _ :: rest => scope? target rest
    else none

/-- Directives with commas between them. Without any only errors are shown. -/
def ofText? (text : String) : Option LogFilter :=
  let parts := (text.splitOn ",").filter (· ≠ "")
  if parts.isEmpty then some [{ detail := 1 }] else (parts.mapM directive?).map (·.filterMap id)

def wanted (text : Option String) : LogFilter := (text.bind ofText?).getD standard

end LogFilter

end Outbox

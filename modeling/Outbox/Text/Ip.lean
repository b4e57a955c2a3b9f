/-!
Internet addresses as text, of both versions.
-/

namespace Outbox.Ip

def isOctet (s : String) : Bool :=
  let cs := s.toList
  !cs.isEmpty && cs.all Char.isDigit && (cs.length = 1 || cs.head? ≠ some '0') && cs.length ≤ 3 &&
    cs.foldl (fun n c => n * 10 + (c.toNat - '0'.toNat)) 0 < 256

def isVersion4 (s : String) : Bool :=
  let parts := s.splitOn "."
  parts.length = 4 && parts.all isOctet

def isGroup (s : String) : Bool :=
  let cs := s.toList
  !cs.isEmpty && cs.length ≤ 4 && cs.all fun c => c.isDigit || ('a' ≤ c.toLower && c.toLower ≤ 'f')

/-- How many groups these are; where `ending`, the last two may be written as a version 4 address. -/
def groups? (ending : Bool) : List String → Option Nat
  | [] => some 0
  | [s] => if isGroup s then some 1 else if ending && isVersion4 s then some 2 else none
  | s :: rest => if isGroup s then (groups? ending rest).map (· + 1) else none

def groupsOf? (ending : Bool) (s : String) : Option Nat :=
  if s = "" then some 0 else groups? ending (s.splitOn ":")

/-- Eight groups, of which at least one may be left out at one place. -/
def isVersion6 (s : String) : Bool :=
  match s.splitOn "::" with
  | [whole] => groupsOf? true whole = some 8
  | [left, right] =>
    match groupsOf? false left, groupsOf? true right with
    | some m, some n => m + n ≤ 7
    | _, _ => false
  | _ => false

end Outbox.Ip

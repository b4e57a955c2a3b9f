import Outbox.Config
import Outbox.Error

/-!
Failures of the program: what it shows on the error stream when it gives up.
-/

namespace Outbox

/-- A failure, with the texts of the errors behind it, the nearest first. -/
structure Failure where
  message : String
  causes : List String := []
deriving DecidableEq

namespace Failure

/-- The lines of a text, the first one behind `lead` and the others as far to the right. -/
def indented (lead : String) (text : String) : List String :=
  match text.splitOn "\n" with
  | [] => []
  | first :: rest => (lead ++ first) :: rest.map (String.ofList (List.replicate lead.length ' ') ++ ·)

def numbered (i : Nat) : String :=
  let s := toString i
  String.ofList (List.replicate (5 - s.length) ' ') ++ s ++ ": "

/-- Several causes are numbered. -/
def lines (f : Failure) : List String :=
  ("Error: " ++ f.message).splitOn "\n" ++ match f.causes with
    | [] => []
    | [c] => "" :: "Caused by:" :: indented "    " c
    | cs => "" :: "Caused by:" :: (cs.mapIdx fun i c => indented (numbered i) c).flatten

def ofOutboxError (e : OutboxError) : Failure := ⟨e.message, e.chain⟩

def ofConfigError (e : ConfigError) : Failure :=
  match e with
  | .unreadable _ fault => ⟨e.message, [fault.message]⟩
  | _ => ⟨e.message, []⟩

def within (f : Failure) (message : String) : Failure := ⟨message, f.message :: f.causes⟩

end Failure

end Outbox

import Outbox.Store

/-!
Transactions on the store in memory: records are staged, and stored all at once or not at all.
-/

namespace Outbox

structure Transaction where
  staged : List Record := []
deriving DecidableEq, Inhabited

namespace Transaction

def add (tx : Transaction) (r : Record) : Transaction := ⟨tx.staged ++ [r]⟩

end Transaction

namespace Store

def putAll (s : Store) (rs : List Record) : Store := rs.foldl put s

/-- Refuses the whole transaction if one of its ids is in the store already. -/
def commit (s : Store) (tx : Transaction) : Except OutboxError Unit × Store :=
  match tx.staged.find? fun r => (s.get? r.id).isSome with
  | some r => (.error (.store "outbox.memory.commit" (.duplicateRecord r.id)), s)
  | none => (.ok (), s.putAll tx.staged)

end Store

end Outbox

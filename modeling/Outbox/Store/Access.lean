import Outbox.Store

/-!
Direct access to the store in memory: its calls, and the inspection and placement of records.
-/

namespace Outbox

inductive Access where
  | insert (record : Record)
  | get (id : RecordId)
  | all
  | size
  | call {a : Answer} (c : Call a)

inductive AccessResult where
  | done
  | record (r : Option Record)
  | records (rs : List Record)
  | size (n : Nat)
  | answer {a : Answer} (result : Except OutboxError a.Val)

namespace Store

def access (s : Store) : Access → AccessResult × Store
  | .insert r => (.done, s.put r)
  | .get id => (.record (s.get? id), s)
  | .all => (.records s.records, s)
  | .size => (.size s.size, s)
  | .call c => let (result, s) := s.perform c; (.answer result, s)

end Store

end Outbox

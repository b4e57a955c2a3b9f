import Outbox.Call
import Outbox.Keyed

/-!
The store in memory: records in the order of their ids, and the calls as functions on it.
-/

namespace Outbox

structure Store where
  records : List Record
  ordered : Keyed.Ordered Record.id records

namespace Store

theorem ext {s t : Store} (h : s.records = t.records) : s = t := by
  cases s; cases t; cases h; rfl

instance : DecidableEq Store := fun s t =>
  decidable_of_iff (s.records = t.records) ⟨ext, fun h => h ▸ rfl⟩

def empty : Store := ⟨[], List.Pairwise.nil⟩

instance : Inhabited Store := ⟨empty⟩

def size (s : Store) : Nat := s.records.length

def get? (s : Store) (id : RecordId) : Option Record := Keyed.find? Record.id id s.records

theorem get?_eq_some_iff {s : Store} {id : RecordId} {r : Record} :
    s.get? id = some r ↔ r ∈ s.records ∧ r.id = id :=
  Keyed.find?_eq_some_iff s.ordered

/-- Stores a record, whatever was stored under its id. -/
def put (s : Store) (r : Record) : Store := ⟨Keyed.insert Record.id r s.records, s.ordered.insert r⟩

def modify (s : Store) (p : Record → Bool) (f : Record → Record) (hf : ∀ r, (f r).id = r.id) : Store :=
  ⟨s.records.map fun r => if p r then f r else r,
    s.ordered.map fun r => by split <;> simp [hf]⟩

def count (s : Store) (p : Record → Bool) : Nat := s.records.countP p

/-- Keeps the records that do not satisfy `p`. -/
def remove (s : Store) (p : Record → Bool) : Store :=
  ⟨s.records.filter fun r => !p r, s.ordered.filter _⟩

/-! ## Which records a call concerns -/

def Claimable (state : State) (r : Record) : Bool := r.state = state && !r.isLocked

def OwnedBy (owner : MachineId) (r : Record) : Bool := r.owner? = some owner

def LockedBefore (cutoff : Instant) (r : Record) : Bool :=
  match r.lockedOn? with
  | some t => t < cutoff
  | none => false

def CreatedBefore (cutoff : Instant) (r : Record) : Bool := r.createdOn < cutoff

/-- Age order: by creation, then by id. -/
def olderOrSame (a b : Record) : Bool :=
  a.createdOn < b.createdOn || (a.createdOn = b.createdOn && a.id ≤ b.id)

/-! ## Calls -/

def fetch (s : Store) (owner : MachineId) : List Record :=
  (s.records.filter (OwnedBy owner)).mergeSort olderOrSame

def claim (s : Store) (owner : MachineId) (now : Instant) (state : State) : Store :=
  s.modify (Claimable state) (·.locked owner now) fun _ => rfl

/-- Replaces the stored record with the same id; without one the store is left alone. -/
def save (s : Store) (r : Record) : Store :=
  ⟨s.records.map fun r' => if r'.id = r.id then r else r',
    s.ordered.map fun r' => by split <;> simp [*]⟩

def unlock (s : Store) (p : Record → Bool) : Store := s.modify p Record.unlocked fun _ => rfl

def perform (s : Store) : {a : Answer} → Call a → Except OutboxError a.Val × Store
  | _, .fetch owner => (.ok (s.fetch owner), s)
  | _, .claim owner now state => (.ok (s.count (Claimable state)), s.claim owner now state)
  | _, .save r =>
    match s.get? r.id with
    | some _ => (.ok (), s.save r)
    | none => (.error (.store "outbox.memory.update_record_by_id" (.recordNotFound r.id)), s)
  | _, .unlockBefore cutoff => (.ok (s.count (LockedBefore cutoff)), s.unlock (LockedBefore cutoff))
  | _, .release owner => (.ok (s.count (OwnedBy owner)), s.unlock (OwnedBy owner))
  | _, .removeBefore cutoff => (.ok (s.count (CreatedBefore cutoff)), s.remove (CreatedBefore cutoff))
  | _, .removeFinishedBefore cutoff =>
    let p := fun r => CreatedBefore cutoff r && r.state.isTerminal
    (.ok (s.count p), s.remove p)

end Store

end Outbox

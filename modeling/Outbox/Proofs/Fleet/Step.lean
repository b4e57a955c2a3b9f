import Outbox.Proofs.Fleet
import Outbox.Proofs.Store.Lookup

/-!
# The steps of a fleet

`Step` lists what an action can do, with what it needs for that, and every step of a world is one of
these (`step_spec`). What runs keep is proved by cases on it.
-/

namespace Outbox

namespace Store

def Outdated (cutoff : Instant) (finishedOnly : Bool) (r : Record) : Bool :=
  CreatedBefore cutoff r && (!finishedOnly || r.state.isTerminal)

theorem run_unlocking (age : Nat) (now : Instant) (s : Store) :
    (Sweep.unlocking age).run (host now none) s =
      (some (.ok (s.count (LockedBefore (now.before age)))), s.unlock (LockedBefore (now.before age))) := by
  simp only [Sweep.run, host, Store.call, Sweep.call, perform]
  split <;> rfl

theorem outdated_false (cutoff : Instant) : Outdated cutoff false = CreatedBefore cutoff :=
  funext fun r => by simp [Outdated]

theorem outdated_true (cutoff : Instant) :
    Outdated cutoff true = fun r => CreatedBefore cutoff r && r.state.isTerminal :=
  funext fun r => by simp [Outdated]

theorem run_cleaning (age : Nat) (finishedOnly : Bool) (now : Instant) (s : Store) :
    (Sweep.cleaning age finishedOnly).run (host now none) s =
      (some (.ok (s.count (Outdated (now.before age) finishedOnly))),
        s.remove (Outdated (now.before age) finishedOnly)) := by
  cases finishedOnly with
  | false =>
      simp only [outdated_false, Sweep.run, host, Store.call, Sweep.call, perform]
      split <;> rfl
  | true =>
      simp only [outdated_true, Sweep.run, host, Store.call, Sweep.call, perform]
      split <;> rfl

theorem run_fault (sw : Sweep) (now : Instant) (e : OutboxError) (s : Store) :
    (sw.run (host now (some e)) s).2 = s := rfl

theorem lost_self (s : Store) : World.lost s s = [] := by
  refine List.filter_eq_nil_iff.2 fun r hr => ?_
  simp [get?_of_mem hr]

theorem lost_unlock (s : Store) (p : Record → Bool) : World.lost s (s.unlock p) = [] := by
  refine List.filter_eq_nil_iff.2 fun r hr => ?_
  simp [get?_of_mem hr]

theorem lost_remove (s : Store) (p : Record → Bool) : World.lost s (s.remove p) = s.records.filter p := by
  refine List.filter_congr fun r hr => ?_
  cases hp : p r <;> simp [get?_of_mem hr, hp]

end Store

open Function (update)

/-- The transaction that the action begins or ends. -/
def Action.bounds? : Action → Option Nat
  | .begin tx | .commit tx | .drop tx => some tx
  | _ => none

/-- What an action can do. -/
inductive Step (f : Fleet) (w : World) : Action → World → Prop where
  | still {a} : Step f w a w
  | begun {tx} : Step f w (.begin tx) { w with staged := update w.staged tx (some {}) }
  /-- The store refuses the new record, and the id is used up. -/
  | wasted {tx id m now e} (new : id ∉ w.issued) :
      Step f w (.publish tx id m now (some e)) { w with issued := id :: w.issued }
  | added {tx t id m now} (ht : w.staged tx = some t) (new : id ∉ w.issued) :
      Step f w (.publish tx id m now none)
        { w with
          issued := id :: w.issued
          staged := update w.staged tx (some (t.add (.new id m now))) }
  | committed {tx t} (ht : w.staged tx = some t) (new : ∀ r ∈ t.staged, w.store.get? r.id = none) :
      Step f w (.commit tx)
        { w with
          store := w.store.putAll t.staged
          staged := update w.staged tx none
          history := t.staged.map .committed ++ w.history }
  | dropped {a tx} (ha : a.bounds? = some tx) : Step f w a { w with staged := update w.staged tx none }
  | expired {age now} :
      Step f w (.sweep (.unlocking age) now none)
        { w with store := w.store.unlock (Store.LockedBefore (now.before age)) }
  | cleaned {age finishedOnly now} :
      Step f w (.sweep (.cleaning age finishedOnly) now none)
        { w with
          store := w.store.remove (Store.Outdated (now.before age) finishedOnly)
          history := (w.store.records.filter (Store.Outdated (now.before age) finishedOnly)).map
            (.removed (.cleaning age finishedOnly) now) ++ w.history }
  | started {k} (hp : (w.pass k).next (f.settings k) = none) :
      Step f w (.start k) { w with pass := update w.pass k .opening }
  | clocked {k now} (hp : w.pass k = .opening) :
      Step f w (.read k now) { w with pass := update w.pass k (.claiming now) }
  | claimed {k now} (hp : w.pass k = .claiming now) :
      Step f w (.call k none)
        { w with
          store := w.store.claim (f.machine k) now .pending
          pass := update w.pass k (.fetching (w.store.count (Store.Claimable .pending))) }
  | fetched {k n} (hp : w.pass k = .fetching n) :
      Step f w (.call k none)
        { w with
          pass := update w.pass k (.proceed ⟨n, 0⟩ (w.store.fetch (f.machine k)))
          history := .fetched k :: w.history }
  | attempted {k now report r rest r'} (hp : w.pass k = .starting report r rest)
      (hr : r.startAttempt now = some r') :
      Step f w (.read k now) { w with pass := update w.pass k (.sending report r' rest) }
  /-- The attempt counter is full. -/
  | jammed {k now report r rest} (hp : w.pass k = .starting report r rest)
      (hr : r.startAttempt now = none) :
      Step f w (.read k now) { w with pass := update w.pass k .halted }
  | handedOver {k report r rest} (hp : w.pass k = .sending report r rest) (ha : w.awaiting k = false) :
      Step f w (.handOver k)
        { w with
          awaiting := update w.awaiting k true
          history := .handedOver k r.id r.message :: w.history }
  | accepted {k report r rest} (hp : w.pass k = .sending report r rest) (ha : w.awaiting k = true) :
      Step f w (.answer k (.ok ()))
        { w with
          awaiting := update w.awaiting k false
          pass := update w.pass k (.accepted report r rest)
          history := .answered k r.id r.message (.ok ()) :: w.history }
  | refused {k report r rest e r'} (hp : w.pass k = .sending report r rest) (ha : w.awaiting k = true)
      (hr : r.markFailed e.message f.policy = .ok r') :
      Step f w (.answer k (.error e))
        { w with
          awaiting := update w.awaiting k false
          pass := update w.pass k (.saving report r' (some e) rest)
          history := .answered k r.id r.message (.error e) :: w.history }
  /-- The record is not pending, so that its failure cannot be noted. -/
  | barredFailure {k report r rest e x} (hp : w.pass k = .sending report r rest)
      (ha : w.awaiting k = true) (hr : r.markFailed e.message f.policy = .error x) :
      Step f w (.answer k (.error e))
        { w with
          awaiting := update w.awaiting k false
          pass := update w.pass k (.releasing (.error x))
          history := .answered k r.id r.message (.error e) :: w.history }
  | delivered {k now report r rest r'} (hp : w.pass k = .accepted report r rest)
      (hr : r.markDelivered now = .ok r') :
      Step f w (.read k now) { w with pass := update w.pass k (.saving report r' none rest) }
  /-- The record is not pending, so that its delivery cannot be noted. -/
  | barredDelivery {k now report r rest x} (hp : w.pass k = .accepted report r rest)
      (hr : r.markDelivered now = .error x) :
      Step f w (.read k now) { w with pass := update w.pass k (.releasing (.error x)) }
  | saved {k report r failure rest v} (hp : w.pass k = .saving report r failure rest)
      (hv : w.store.get? r.id = some v) :
      Step f w (.call k none)
        { w with
          store := w.store.save r
          pass := update w.pass k (Pass.saved report r failure rest (.ok ())).1
          history := .saved k r :: w.history }
  /-- The record is no longer stored. -/
  | missed {k report r failure rest} (hp : w.pass k = .saving report r failure rest)
      (hv : w.store.get? r.id = none) :
      Step f w (.call k none)
        { w with
          pass := update w.pass k
            (.releasing (.error (.store "outbox.memory.update_record_by_id" (.recordNotFound r.id)))) }
  | released {k result} (hp : w.pass k = .releasing result) :
      Step f w (.call k none)
        { w with
          store := w.store.unlock (Store.OwnedBy (f.machine k))
          pass := update w.pass k (.finished result) }
  | failed {k e} : Step f w (.call k (some e)) { w with pass := update w.pass k (.releasing (.error e)) }
  | stuck {k e result} (hp : w.pass k = .releasing result) :
      Step f w (.call k (some e)) { w with pass := update w.pass k (.finished result) }
  | crashed {k} :
      Step f w (.crash k)
        { w with awaiting := update w.awaiting k false, pass := update w.pass k .halted }

namespace World

variable {f : Fleet} {w : World}

theorem step_publish (tx : Nat) (id : RecordId) (m : Message) (now : Instant)
    (fault : Option OutboxError) :
    Step f w (.publish tx id m now fault) (w.step f (.publish tx id m now fault)) := by
  simp only [step]
  split
  · exact .still
  · rename_i t ht
    split
    · exact .still
    · rename_i new
      cases fault with
      | some e => exact .wasted new
      | none => exact .added ht new

theorem step_commit (tx : Nat) : Step f w (.commit tx) (w.step f (.commit tx)) := by
  simp only [step]
  split
  · exact .still
  · rename_i t ht
    rcases Store.commit_cases w.store t with ⟨e, he⟩ | ⟨he, new⟩
    · rw [he]; exact .dropped rfl
    · rw [he]; exact .committed ht new

theorem step_sweep (s : Sweep) (now : Instant) (fault : Option OutboxError) :
    Step f w (.sweep s now fault) (w.step f (.sweep s now fault)) := by
  simp only [step]
  cases fault with
  | some e =>
      rw [Store.run_fault, Store.lost_self]
      exact .still
  | none =>
      cases s with
      | unlocking age =>
          rw [Store.run_unlocking, Store.lost_unlock]
          exact .expired
      | cleaning age finishedOnly =>
          rw [Store.run_cleaning, Store.lost_remove]
          exact .cleaned

theorem step_read (k : Nat) (now : Instant) : Step f w (.read k now) (w.step f (.read k now)) := by
  simp only [step]
  cases hp : w.pass k with
  | opening => exact .clocked hp
  | starting report r rest =>
      simp only [Pass.next, Pass.started]
      split
      · rename_i r' hr; exact .attempted hp hr
      · rename_i hr; exact .jammed hp hr
  | accepted report r rest =>
      simp only [Pass.next, Pass.delivered]
      split
      · rename_i r' hr; exact .delivered hp hr
      · rename_i x hr; exact .barredDelivery hp hr
  | _ => exact .still

theorem step_call (k : Nat) (fault : Option OutboxError) :
    Step f w (.call k fault) (w.step f (.call k fault)) := by
  simp only [step]
  cases fault with
  | some e =>
      cases hp : w.pass k with
      | claiming | fetching | saving => exact .failed
      | releasing result => exact .stuck hp
      | _ => exact .still
  | none =>
      cases hp : w.pass k with
      | claiming now => exact .claimed hp
      | fetching n => exact .fetched hp
      | saving report r failure rest =>
          simp only [Pass.next, Store.call, Store.perform]
          cases hv : w.store.get? r.id with
          | some v => exact .saved hp hv
          | none => exact .missed hp hv
      | releasing result => exact .released hp
      | _ => exact .still

theorem step_handOver (k : Nat) : Step f w (.handOver k) (w.step f (.handOver k)) := by
  simp only [step]
  cases hp : w.pass k with
  | sending report r rest =>
      simp only [Pass.next, Pass.underWay?]
      split
      · exact .still
      · rename_i ha; exact .handedOver hp (by simpa using ha)
  | _ => exact .still

theorem step_answer (k : Nat) (a : Except BrokerError Unit) :
    Step f w (.answer k a) (w.step f (.answer k a)) := by
  simp only [step]
  cases hp : w.pass k with
  | sending report r rest =>
      simp only [Pass.next, Pass.underWay?]
      split
      · rename_i ha
        cases a with
        | ok => exact .accepted hp ha
        | error e =>
            simp only [Pass.sent]
            split
            · rename_i r' hr; exact .refused hp ha hr
            · rename_i x hr; exact .barredFailure hp ha hr
      · exact .still
  | _ => exact .still

theorem step_spec (w : World) (a : Action) : Step f w a (w.step f a) := by
  cases a with
  | begin tx => exact .begun
  | publish tx id m now fault => exact step_publish tx id m now fault
  | commit tx => exact step_commit tx
  | drop tx => exact .dropped rfl
  | sweep s now fault => exact step_sweep s now fault
  | start k =>
      simp only [step]
      split
      · rename_i hp; exact .started (by simpa using hp)
      · exact .still
  | read k now => exact step_read k now
  | call k fault => exact step_call k fault
  | handOver k => exact step_handOver k
  | answer k a => exact step_answer k a
  | crash k => exact .crashed

/-- What every step keeps under a condition holds after every run that meets it. -/
theorem run_induction {P : World → Prop} {ok : World → Action → Prop}
    (hstep : ∀ {w w' a}, Step f w a w' → ok w a → P w → P w') {as : List Action}
    (hok : w.Along f ok as) (hw : P w) : P (w.run f as) := by
  induction as generalizing w with
  | nil => exact hw
  | cons a as ih => exact ih hok.2 (hstep (step_spec w a) hok.1 hw)

/-- What every step keeps holds of all worlds on the way. -/
theorem scanl_induction {P : World → Prop} {ok : World → Action → Prop}
    (hstep : ∀ {w w' a}, Step f w a w' → ok w a → P w → P w') {as : List Action}
    (hok : w.Along f ok as) (hw : P w) : ∀ w' ∈ as.scanl (World.step f) w, P w' := by
  induction as generalizing w with
  | nil =>
      intro w' hw'
      rw [List.scanl_nil, List.mem_singleton] at hw'
      rw [hw']
      exact hw
  | cons a as ih =>
      intro w' hw'
      rw [List.scanl_cons, List.mem_cons] at hw'
      rcases hw' with rfl | hw'
      · exact hw
      · exact ih hok.2 (hstep (step_spec w a) hok.1 hw) w' hw'

theorem along_true (w : World) (as : List Action) : w.Along f (fun _ _ => True) as := by
  induction as generalizing w with
  | nil => trivial
  | cons a as ih => exact ⟨trivial, ih _⟩

end World

end Outbox

import Outbox.Proofs.Fleet.Copies
import Outbox.Proofs.Pass.Solo

/-!
# The turns of a pass

A pass on a store in memory whose calls may fail, and which others use while a message is with the
broker. `Turn` lists what a pass can do before its release, and what runs of turns keep is proved by
cases on it (`exists_end`).
-/

namespace Outbox

/-! ## The surroundings -/

/-- What a pass does. A call notes the store that it finds. -/
inductive Deed where
  | called (found : Store) {a : Answer} (c : Call a) (answer : Except OutboxError a.Val)
  | sent (m : Message) (answer : Except BrokerError Unit)
  | logged (entry : LogEntry)

/-- The store, and what was done so far, the latest first. -/
structure Scene where
  store : Store
  deeds : List Deed := []

/-- What a pass meets with at each moment. Moments are counted by the deeds before them. -/
structure Surroundings where
  clock : Nat → Instant
  answers : Nat → Except BrokerError Unit
  /-- The errors of the calls that fail. -/
  faults : Operation → Nat → Option OutboxError
  /-- What others do to the store while the broker has a message. -/
  meanwhile : Nat → Store → Store := fun _ s => s

namespace Scene

variable (w : Scene)

def now : Nat := w.deeds.length

def after {a : Answer} (fault : Option OutboxError) (c : Call a) : Scene :=
  ⟨(w.store.call fault c).2, .called w.store c (w.store.call fault c).1 :: w.deeds⟩

def logging (entries : List LogEntry) : Scene :=
  { w with deeds := entries.reverse.map .logged ++ w.deeds }

variable {w}

@[simp] theorem store_logging {entries : List LogEntry} : (w.logging entries).store = w.store := rfl

@[simp] theorem deeds_logging {entries : List LogEntry} :
    (w.logging entries).deeds = entries.reverse.map .logged ++ w.deeds := rfl

@[simp] theorem store_after_none {a : Answer} {c : Call a} :
    (w.after none c).store = (w.store.perform c).2 := rfl

end Scene

namespace Surroundings

variable (e : Surroundings)

def sending (m : Message) (w : Scene) : Scene :=
  ⟨e.meanwhile w.now w.store, .sent m (e.answers w.now) :: w.deeds⟩

def host : Host Scene where
  now w := some (e.clock w.now)
  call c w := ((w.store.call (e.faults c.operation w.now) c).1, w.after (e.faults c.operation w.now) c)
  send m w := (some (e.answers w.now), e.sending m w)
  log w entry := { w with deeds := .logged entry :: w.deeds }

/-- The same, but for the faults of one operation. -/
def withFaults (op : Operation) (faults : Nat → Option OutboxError) : Surroundings :=
  { e with faults := Function.update e.faults op faults }

theorem faults_withFaults {op op' : Operation} {faults : Nat → Option OutboxError} :
    (e.withFaults op faults).faults op' = if op' = op then faults else e.faults op' := by
  rw [← Function.update_apply]
  rfl

theorem withFaults_self (op : Operation) : e.withFaults op (e.faults op) = e := by
  rw [withFaults, Function.update_eq_self]

theorem logAll_host (w : Scene) (entries : List LogEntry) :
    e.host.logAll w entries = w.logging entries := by
  induction entries generalizing w with
  | nil => rfl
  | cons entry entries ih =>
      refine (ih _).trans ?_
      simp [Scene.logging, host]

end Surroundings

/-! ## Turns -/

namespace Pass

/-- One turn of a pass that is not at its release. -/
inductive Turn (e : Surroundings) (s : Settings) (w : Scene) : Pass → Pass → Scene → Prop where
  | opened : Turn e s w .opening (.claiming (e.clock w.now)) w
  | claimed {now} (hf : e.faults .claim w.now = none) :
      Turn e s w (.claiming now) (.fetching (w.store.count (Store.Claimable .pending)))
        (w.after none (.claim s.machine now .pending))
  | fetched {n} (hf : e.faults .fetch w.now = none) :
      Turn e s w (.fetching n) (proceed ⟨n, 0⟩ (w.store.fetch s.machine))
        ((w.after none (.fetch s.machine)).logging
          [.recordsClaimed s.machine n (w.store.fetch s.machine).length])
  | attempted {report r rest r'} (hr : r.startAttempt (e.clock w.now) = some r') :
      Turn e s w (.starting report r rest) (.sending report r' rest) w
  /-- The attempt counter is full. -/
  | jammed {report r rest} (hr : r.startAttempt (e.clock w.now) = none) :
      Turn e s w (.starting report r rest) .halted w
  | accepted {report r rest} (ha : e.answers w.now = .ok ()) :
      Turn e s w (.sending report r rest) (.accepted report r rest) (e.sending r.message w)
  | refused {report r rest cause r'} (ha : e.answers w.now = .error cause)
      (hr : r.markFailed cause.message s.policy = .ok r') :
      Turn e s w (.sending report r rest) (.saving report r' (some cause) rest) (e.sending r.message w)
  | barredFailure {report r rest cause x} (ha : e.answers w.now = .error cause)
      (hr : r.markFailed cause.message s.policy = .error x) :
      Turn e s w (.sending report r rest) (.releasing (.error x)) (e.sending r.message w)
  | delivered {report r rest r'} (hr : r.markDelivered (e.clock w.now) = .ok r') :
      Turn e s w (.accepted report r rest) (.saving report r' none rest) w
  | barredDelivery {report r rest x} (hr : r.markDelivered (e.clock w.now) = .error x) :
      Turn e s w (.accepted report r rest) (.releasing (.error x)) w
  | saved {report r failure rest v} (hf : e.faults .save w.now = none) (hv : w.store.get? r.id = some v) :
      Turn e s w (.saving report r failure rest) (saved report r failure rest (.ok ())).1
        ((w.after none (.save r)).logging (saved report r failure rest (.ok ())).2)
  /-- Others have deleted the record. -/
  | missed {report r failure rest} (hf : e.faults .save w.now = none) (hv : w.store.get? r.id = none) :
      Turn e s w (.saving report r failure rest)
        (.releasing (.error (.store "outbox.memory.update_record_by_id" (.recordNotFound r.id))))
        (w.after none (.save r))
  | failed {p a} {c : Call a} {resume x} (hp : p.next s = some (.call c resume))
      (hc : c.operation ≠ .release) (hf : e.faults c.operation w.now = some x) :
      Turn e s w p (.releasing (.error x)) (w.after (some x) c)

/-- A pass that has no turn left. -/
def AtEnd (s : Settings) (p : Pass) : Prop := (∃ result, p = .releasing result) ∨ p.next s = none

variable {e : Surroundings} {s : Settings} {w w' : Scene} {p p' : Pass}

theorem resume_error {a : Answer} {c : Call a} {resume : Except OutboxError a.Val → Pass × List LogEntry}
    (hp : p.next s = some (.call c resume)) (hc : c.operation ≠ .release) (x : OutboxError) :
    resume (.error x) = (.releasing (.error x), []) := by
  cases p with
  | claiming | fetching | saving => cases hp; rfl
  | releasing => cases hp; exact absurd rfl hc
  | _ => cases hp

theorem Turn.before (ht : Turn e s w p p' w') : p'.Before p := by
  cases ht with
  | opened => exact before_of_stage (by simp [rank])
  | claimed => exact before_of_stage (by simp [rank])
  | fetched => exact proceed_before_fetching ..
  | @attempted report r rest r' hr | @jammed report r rest hr =>
      have h := started_before report r rest (e.clock w.now)
      rwa [started, hr] at h
  | accepted => exact .right _ (by omega)
  | refused => exact .right _ (by omega)
  | barredFailure => exact before_of_stage (by simp [rank])
  | delivered => exact .right _ (by omega)
  | barredDelivery => exact before_of_stage (by simp [rank])
  | saved => exact saved_before ..
  | missed => exact before_of_stage (by simp [rank])
  | @failed p a c resume x hp hc =>
      have h := call_before hp (.error x)
      rwa [resume_error hp hc] at h

theorem exists_turn (hp : ¬ p.AtEnd s) : ∃ p' w', Turn e s w p p' w' := by
  have failing : ∀ {a} {c : Call a} {resume x}, p.next s = some (.call c resume) →
      c.operation ≠ .release → e.faults c.operation w.now = some x → ∃ p' w', Turn e s w p p' w' :=
    fun hp hc hf => ⟨_, _, .failed hp hc hf⟩
  cases p with
  | opening => exact ⟨_, _, .opened⟩
  | claiming now =>
      cases hf : e.faults .claim w.now with
      | none => exact ⟨_, _, .claimed hf⟩
      | some x => exact failing rfl (fun h => nomatch h) hf
  | fetching n =>
      cases hf : e.faults .fetch w.now with
      | none => exact ⟨_, _, .fetched hf⟩
      | some x => exact failing rfl (fun h => nomatch h) hf
  | starting report r rest =>
      cases hr : r.startAttempt (e.clock w.now) with
      | some r' => exact ⟨_, _, .attempted hr⟩
      | none => exact ⟨_, _, .jammed hr⟩
  | sending report r rest =>
      cases ha : e.answers w.now with
      | ok => exact ⟨_, _, .accepted ha⟩
      | error cause =>
          cases hr : r.markFailed cause.message s.policy with
          | ok r' => exact ⟨_, _, .refused ha hr⟩
          | error x => exact ⟨_, _, .barredFailure ha hr⟩
  | accepted report r rest =>
      cases hr : r.markDelivered (e.clock w.now) with
      | ok r' => exact ⟨_, _, .delivered hr⟩
      | error x => exact ⟨_, _, .barredDelivery hr⟩
  | saving report r failure rest =>
      cases hf : e.faults .save w.now with
      | none =>
          cases hv : w.store.get? r.id with
          | some v => exact ⟨_, _, .saved hf hv⟩
          | none => exact ⟨_, _, .missed hf hv⟩
      | some x => exact failing rfl (fun h => nomatch h) hf
  | releasing result => exact absurd (.inl ⟨result, rfl⟩) hp
  | finished | halted => exact absurd (.inr rfl) hp

/-- Faults of the release do not show before it. -/
theorem Turn.advance_eq (ht : Turn e s w p p' w') (g : Nat → Option OutboxError) :
    advance (e.withFaults .release g).host s p w = advance (e.withFaults .release g).host s p' w' := by
  have clock : (e.withFaults .release g).host.now w = some (e.clock w.now) := rfl
  have broker : ∀ m, (e.withFaults .release g).host.send m w = (some (e.answers w.now), e.sending m w) :=
    fun _ => rfl
  have called : ∀ {p a} {c : Call a} {resume fault}, p.next s = some (.call c resume) →
      c.operation ≠ .release → e.faults c.operation w.now = fault →
      advance (e.withFaults .release g).host s p w = advance (e.withFaults .release g).host s
        (resume (w.store.call fault c).1).1 ((w.after fault c).logging (resume (w.store.call fault c).1).2) := by
    intro p a c resume fault hp hc hf
    have hf : (e.withFaults .release g).faults c.operation w.now = fault := by
      rw [Surroundings.faults_withFaults, if_neg hc, hf]
    rw [advance_call hp, Surroundings.logAll_host]
    simp only [Surroundings.host, hf]
  cases ht with
  | opened => exact advance_now rfl clock
  | @claimed now hf =>
      exact called (p := .claiming now) (c := .claim s.machine now .pending) rfl (by simp [Call.operation]) hf
  | @fetched n hf =>
      exact called (p := .fetching n) (c := .fetch s.machine) rfl (by simp [Call.operation]) hf
  | attempted hr | jammed hr => rw [advance_now rfl clock, started, hr]
  | accepted ha => rw [advance_send rfl (broker _), ha, sent]
  | refused ha hr | barredFailure ha hr => rw [advance_send rfl (broker _), ha, sent, hr]
  | delivered hr | barredDelivery hr => rw [advance_now rfl clock, Pass.delivered, hr]
  | @saved report r failure rest v hf hv =>
      have hanswer : (w.store.call none (.save r)).1 = .ok () := by simp [Store.call, Store.perform, hv]
      rw [called (c := .save r) rfl (by simp [Call.operation]) hf, hanswer]
  | @missed report r failure rest hf hv =>
      have hanswer : (w.store.call none (.save r)).1 =
          .error (.store "outbox.memory.update_record_by_id" (.recordNotFound r.id)) := by
        simp [Store.call, Store.perform, hv]
      rw [called (c := .save r) rfl (by simp [Call.operation]) hf, hanswer]
      rfl
  | @failed _ a c resume x hp hc hf =>
      rw [called hp hc hf]
      show advance _ s (resume (.error x)).1 ((w.after (some x) c).logging (resume (.error x)).2) = _
      rw [resume_error hp hc]
      rfl

/-- Where a pass stands that has not fetched its batch. -/
def Opens (e : Surroundings) (s : Settings) (store : Store) : Pass → Scene → Prop
  | opening, w | claiming _, w => w = ⟨store, []⟩
  | fetching n, w => n = store.count (Store.Claimable .pending) ∧ e.faults .claim 0 = none ∧
      ∃ now, w = Scene.after ⟨store, []⟩ none (.claim s.machine now .pending)
  | _, _ => True

variable {store : Store}

theorem opens_proceed {report : Report} {batch : List Record} : (proceed report batch).Opens e s store w := by
  cases batch <;> trivial

theorem opens_saved {report : Report} {r : Record} {failure : Option BrokerError} {rest : List Record}
    {a : Except OutboxError Unit} : (Pass.saved report r failure rest a).1.Opens e s store w := by
  cases a with
  | error => trivial
  | ok =>
      cases failure with
      | none => exact opens_proceed
      | some => trivial

theorem Turn.opens (ht : Turn e s w p p' w') (h : p.Opens e s store w) : p'.Opens e s store w' := by
  cases ht with
  | opened => exact h
  | claimed hf =>
      obtain rfl := h
      exact ⟨rfl, hf, _, rfl⟩
  | fetched => exact opens_proceed
  | saved => exact opens_saved
  | _ => trivial

/-- What a pass fetches is the batch under its own lock. -/
theorem Opens.fetch {n : Nat} (h : (fetching n).Opens e s store w) :
    w.now = 1 ∧ ∃ now, w.store = store.claim s.machine now .pending ∧
      w.store.fetch s.machine = (store.batch s.machine).map (Store.claimed s.machine now) := by
  obtain ⟨-, -, now, rfl⟩ := h
  exact ⟨rfl, now, rfl, Store.fetch_claim⟩

/-! ## The whole pass -/

/-- What holds at the opening and is kept by each turn holds when the pass comes to its end. -/
theorem exists_end {P : Pass → Scene → Prop}
    (step : ∀ {p w p' w'}, P p w → Turn e s w p p' w' → P p' w') (p : Pass) (w : Scene) (h : P p w) :
    ∃ p' w', P p' w' ∧ p'.AtEnd s ∧ ∀ g, advance (e.withFaults .release g).host s p w =
      advance (e.withFaults .release g).host s p' w' := by
  by_cases hend : p.AtEnd s
  · exact ⟨p, w, h, hend, fun _ => rfl⟩
  · obtain ⟨p₁, w₁, ht⟩ := exists_turn (e := e) (w := w) hend
    have := ht.before
    obtain ⟨p', w', hP, hend, heq⟩ := exists_end step p₁ w₁ (step h ht)
    exact ⟨p', w', hP, hend, fun g => (ht.advance_eq g).trans (heq g)⟩
termination_by p.rank
decreasing_by exact this

end Pass

/-- The release, which is a pass's last call. -/
def Scene.release (s : Pass.Settings) (result : Except OutboxError Report) (fault : Option OutboxError)
    (w : Scene) : Scene :=
  (w.after fault (.release s.machine)).logging
    (Pass.released s result (w.store.call fault (.release s.machine)).1).2

theorem Pass.advance_releasing (e : Surroundings) (s : Settings) (result : Except OutboxError Report)
    (w : Scene) : advance e.host s (.releasing result) w =
      (.finished result, w.release s result (e.faults .release w.now)) := by
  rw [advance_release, Surroundings.logAll_host]
  rfl

/-- A pass that never stops short comes to its release, and the faults of that call do not change its
result. -/
theorem deliverBatch_of_turns {e : Surroundings} {s : Pass.Settings} {store : Store}
    {P : Pass → Scene → Prop}
    (step : ∀ {p w p' w'}, p.Opens e s store w → P p w → Pass.Turn e s w p p' w' → P p' w')
    (goesOn : ∀ {p w}, P p w → p.next s ≠ none) (h : P .opening ⟨store, []⟩) :
    ∃ result w, P (.releasing result) w ∧ ∀ g,
      deliverBatch (e.withFaults .release g).host s ⟨store, []⟩ =
        (some result, w.release s result (g w.now)) := by
  obtain ⟨p, w, ⟨-, hP⟩, hend, heq⟩ := Pass.exists_end (P := fun p w => p.Opens e s store w ∧ P p w)
    (fun h ht => ⟨ht.opens h.1, step h.1 h.2 ht⟩) .opening ⟨store, []⟩ ⟨rfl, h⟩
  obtain ⟨result, rfl⟩ : ∃ result, p = .releasing result := hend.resolve_right (goesOn hP)
  refine ⟨result, w, hP, fun g => ?_⟩
  rw [deliverBatch, heq g, Pass.advance_releasing, Surroundings.faults_withFaults, if_pos rfl]
  rfl

end Outbox

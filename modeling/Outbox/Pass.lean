import Outbox.Request

/-!
A delivery pass: one machine claims what is waiting, sends it message by message in age order until
the first failure, stores how each attempt went, and releases its locks whatever happened before.
-/

namespace Outbox

structure Report where
  claimed : Nat
  delivered : Nat
deriving DecidableEq

inductive Pass where
  | opening
  | claiming (now : Instant)
  /-- The claim is made, the batch not yet fetched. -/
  | fetching (claimed : Nat)
  | starting (report : Report) (record : Record) (rest : List Record)
  | sending (report : Report) (record : Record) (rest : List Record)
  | accepted (report : Report) (record : Record) (rest : List Record)
  /-- The outcome is on `record`, and not yet in the store. -/
  | saving (report : Report) (record : Record) (failure : Option BrokerError) (rest : List Record)
  /-- All that is left is to release the locks. -/
  | releasing (result : Except OutboxError Report)
  | finished (result : Except OutboxError Report)
  /-- Broken off, with its locks still held. -/
  | halted

namespace Pass

structure Settings where
  machine : MachineId
  policy : RetrialPolicy

def proceed (report : Report) : (batch : List Record) → Pass
  | [] => releasing (.ok report)
  | r :: rest => starting report r rest

def claimed : Except OutboxError Nat → Pass
  | .ok n => fetching n
  | .error e => releasing (.error e)

def fetched (s : Settings) (n : Nat) : Except OutboxError (List Record) → Pass × List LogEntry
  | .ok batch => (proceed ⟨n, 0⟩ batch, [.recordsClaimed s.machine n batch.length])
  | .error e => (releasing (.error e), [])

/-- A full attempt counter breaks the pass off. -/
def started (report : Report) (r : Record) (rest : List Record) (now : Instant) : Pass :=
  match r.startAttempt now with
  | some r => sending report r rest
  | none => halted

/-- A refusal is put on the record at once. -/
def sent (s : Settings) (report : Report) (r : Record) (rest : List Record) :
    Except BrokerError Unit → Pass
  | .ok () => accepted report r rest
  | .error failure =>
    match r.markFailed failure.message s.policy with
    | .ok r => saving report r (some failure) rest
    | .error e => releasing (.error e)

def delivered (report : Report) (r : Record) (rest : List Record) (now : Instant) : Pass :=
  match r.markDelivered now with
  | .ok r => saving report r none rest
  | .error e => releasing (.error e)

/-- A delivery that is saved counts; a failure that is saved ends the batch. -/
def saved (report : Report) (r : Record) (failure : Option BrokerError) (rest : List Record)
    (answer : Except OutboxError Unit) : Pass × List LogEntry :=
  match answer, failure with
  | .ok (), none =>
    (proceed ⟨report.claimed, report.delivered + 1⟩ rest, [.recordDelivered r.id r.attempts])
  | .ok (), some cause =>
    (releasing (.error (.delivery r.id r.attempts cause)),
      if r.state = .exhausted then [.recordGivenUp r.id r.attempts] else [])
  | .error e, _ => (releasing (.error e), [])

/-- A failed release is only logged. -/
def released (s : Settings) (result : Except OutboxError Report) :
    Except OutboxError Nat → Pass × List LogEntry
  | .ok n => (finished result, if n = 0 then [] else [.locksReleased s.machine n])
  | .error e => (finished result, [.releaseFailed s.machine e])

def next (s : Settings) : Pass → Option (Request Pass)
  | opening => some (.now claiming)
  | claiming now => some (.call (.claim s.machine now .pending) fun a => (claimed a, []))
  | fetching n => some (.call (.fetch s.machine) (fetched s n))
  | starting report r rest => some (.now (started report r rest))
  | sending report r rest => some (.send r.message (sent s report r rest))
  | accepted report r rest => some (.now (delivered report r rest))
  | saving report r failure rest => some (.call (.save r) (saved report r failure rest))
  | releasing result => some (.call (.release s.machine) (released s result))
  | finished _ | halted => none

/-! ## Running a pass -/

/-- Stages left, then the steps left with the batch; each answer lowers it. -/
def rank : Pass → Nat × Nat
  | opening => (5, 0)
  | claiming _ => (4, 0)
  | fetching _ => (3, 0)
  | starting _ _ rest => (2, 4 * rest.length + 3)
  | sending _ _ rest => (2, 4 * rest.length + 2)
  | accepted _ _ rest => (2, 4 * rest.length + 1)
  | saving _ _ _ rest => (2, 4 * rest.length)
  | releasing _ => (1, 0)
  | finished _ | halted => (0, 0)

def Before (p q : Pass) : Prop := Prod.Lex (· < ·) (· < ·) p.rank q.rank

theorem before_of_stage {p q : Pass} (h : p.rank.1 < q.rank.1) : p.Before q := by
  unfold Before
  rw [← Prod.eta p.rank, ← Prod.eta q.rank]
  exact .left _ _ h

theorem proceed_before_fetching (report : Report) (batch : List Record) (n : Nat) :
    (proceed report batch).Before (fetching n) := by
  cases batch <;> exact before_of_stage (by simp [rank, proceed])

theorem proceed_before_saving (report report' : Report) (r : Record) (failure : Option BrokerError)
    (rest : List Record) : (proceed report rest).Before (saving report' r failure rest) := by
  cases rest with
  | nil => exact before_of_stage (by simp [rank, proceed])
  | cons => exact .right _ (by simp only [List.length_cons]; omega)

theorem claimed_before (a : Except OutboxError Nat) (now : Instant) :
    (claimed a).Before (claiming now) := by
  cases a <;> exact before_of_stage (by simp [rank, claimed])

theorem fetched_before (s : Settings) (n : Nat) (a : Except OutboxError (List Record)) :
    (fetched s n a).1.Before (fetching n) := by
  cases a with
  | error => exact before_of_stage (by simp [rank, fetched])
  | ok batch => exact proceed_before_fetching ..

theorem started_before (report : Report) (r : Record) (rest : List Record) (now : Instant) :
    (started report r rest now).Before (starting report r rest) := by
  unfold started
  split
  · exact .right _ (by omega)
  · exact before_of_stage (by simp [rank])

theorem sent_before (s : Settings) (report : Report) (r : Record) (rest : List Record)
    (a : Except BrokerError Unit) : (sent s report r rest a).Before (sending report r rest) := by
  unfold sent
  split
  · exact .right _ (by omega)
  · split
    · exact .right _ (by omega)
    · exact before_of_stage (by simp [rank])

theorem delivered_before (report : Report) (r : Record) (rest : List Record) (now : Instant) :
    (delivered report r rest now).Before (accepted report r rest) := by
  unfold delivered
  split
  · exact .right _ (by omega)
  · exact before_of_stage (by simp [rank])

theorem saved_before (report : Report) (r : Record) (failure : Option BrokerError)
    (rest : List Record) (a : Except OutboxError Unit) :
    (saved report r failure rest a).1.Before (saving report r failure rest) := by
  unfold saved
  split
  · exact proceed_before_saving ..
  · exact before_of_stage (by simp [rank])
  · exact before_of_stage (by simp [rank])

theorem released_before (s : Settings) (result : Except OutboxError Report)
    (a : Except OutboxError Nat) : (released s result a).1.Before (releasing result) := by
  cases a <;> exact before_of_stage (by simp [rank, released])

theorem now_before {s : Settings} {p : Pass} {resume : Instant → Pass}
    (h : p.next s = some (.now resume)) (now : Instant) : (resume now).Before p := by
  cases p <;> cases h
  · exact before_of_stage (by simp [rank])
  · exact started_before ..
  · exact delivered_before ..

theorem call_before {s : Settings} {p : Pass} {k : Answer} {c : Call k}
    {resume : Except OutboxError k.Val → Pass × List LogEntry}
    (h : p.next s = some (.call c resume)) (a : Except OutboxError k.Val) :
    (resume a).1.Before p := by
  cases p <;> cases h
  · exact claimed_before ..
  · exact fetched_before ..
  · exact saved_before ..
  · exact released_before ..

theorem send_before {s : Settings} {p : Pass} {m : Message}
    {resume : Except BrokerError Unit → Pass} (h : p.next s = some (.send m resume))
    (a : Except BrokerError Unit) : (resume a).Before p := by
  cases p <;> cases h
  exact sent_before ..

/-- Goes on with a pass until it is over, or until something that it asks for is not given. -/
def advance {ω : Type} (h : Host ω) (s : Settings) (p : Pass) (w : ω) : Pass × ω :=
  match hp : p.next s with
  | none => (p, w)
  | some (.now resume) =>
    match h.now w with
    | none => (p, w)
    | some now =>
      have := now_before hp now
      advance h s (resume now) w
  | some (.call c resume) =>
    let (a, w) := h.call c w
    have := call_before hp a
    advance h s (resume a).1 (h.logAll w (resume a).2)
  | some (.send m resume) =>
    match h.send m w with
    | (none, w) => (p, w)
    | (some a, w) =>
      have := send_before hp a
      advance h s (resume a) w
termination_by p.rank
decreasing_by all_goals assumption

def result? : Pass → Option (Except OutboxError Report)
  | finished result => some result
  | _ => none

def receive (s : Settings) (a : Except BrokerError Unit) : Pass → Pass
  | sending report r rest => sent s report r rest a
  | p => p

def waiting : Pass → Nat
  | starting _ _ rest | sending _ _ rest => rest.length + 1
  | accepted _ _ rest | saving _ _ _ rest => rest.length
  | _ => 0

end Pass

/-- One whole pass, and its result if it was not broken off. -/
def deliverBatch {ω : Type} (h : Host ω) (s : Pass.Settings) (w : ω) :
    Option (Except OutboxError Report) × ω :=
  let (p, w) := Pass.advance h s .opening w
  (p.result?, w)

end Outbox

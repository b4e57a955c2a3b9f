import Mathlib.Data.List.Induction
import Outbox.Proofs.Record.Transitions
import Outbox.Record.Method

/-!
# The life of a record

What any sequence of method calls makes of a new record: what it keeps, how often it was tried, which state
it has come to and by which call, and what it knows of its last failure.
-/

namespace Outbox

theorem State.isTerminal_iff {s : State} : s.isTerminal = true ↔ s ≠ .pending := by
  cases s <;> simp [isTerminal]

namespace Record

/-! ## In place and at once

The methods come, field by field, to what the transitions of a record give at once. -/

namespace Method

variable (r : Record) (now : Instant)

theorem run_startAttempt :
    (startAttempt now).run r =
      match r.startAttempt now with
      | some r' => (.ok (), r')
      | none => (.error .counterFull, { r with lastAttemptOn := some now }) := by
  by_cases h : r.attempts < maxAttempts
  · simp [run, body, Record.startAttempt, h]
  · simp [run, body, Record.startAttempt, h]

theorem run_markDelivered :
    (markDelivered now).run r =
      match r.markDelivered now with
      | .ok r' => (.ok (), r')
      | .error e => (.error (.refused e), r) := by
  by_cases h : r.state = .pending
  · rw [markDelivered_eq_ok_iff.2 ⟨h, rfl⟩]
    simp [run, body, checkPending, ensurePending_of_pending h, unlocked]
  · rw [markDelivered_of_terminal h]
    simp [run, body, checkPending, ensurePending_of_terminal h]

theorem run_markFailed (error : String) (policy : RetrialPolicy) :
    (markFailed error policy).run r =
      match r.markFailed error policy with
      | .ok r' => (.ok (), r')
      | .error e => (.error (.refused e), r) := by
  by_cases h : r.state = .pending
  · rw [markFailed_eq_ok_iff.2 ⟨h, rfl⟩]
    simp [run, body, checkPending, ensurePending_of_pending h, unlocked]
  · rw [markFailed_of_terminal h]
    simp [run, body, checkPending, ensurePending_of_terminal h]

end Method

/-! ## Steps -/

/-- One call of a method: how it ended, and the record before and after it. -/
structure Step where
  method : Method
  before : Record
  result : Except Stop Unit
  after : Record

def Method.step (m : Method) (r : Record) : Step := ⟨m, r, (m.run r).1, (m.run r).2⟩

def Method.isAttempt : Method → Bool
  | startAttempt _ => true
  | _ => false

namespace Step

/-- The ways in which a call can go. -/
inductive Goes : Step → Prop where
  | lock (r owner takenOn) : Goes ⟨.lock owner takenOn, r, .ok (), r.locked owner takenOn⟩
  | releaseLock (r) : Goes ⟨.releaseLock, r, .ok (), r.unlocked⟩
  | attempted (r now) (h : r.attempts < maxAttempts) :
      Goes ⟨.startAttempt now, r, .ok (),
        { r with lastAttemptOn := some now, attempts := r.attempts + 1 }⟩
  | full (r now) (h : maxAttempts ≤ r.attempts) :
      Goes ⟨.startAttempt now, r, .error .counterFull, { r with lastAttemptOn := some now }⟩
  | delivered (r now) (h : r.state = .pending) :
      Goes ⟨.markDelivered now, r, .ok (),
        { r with state := .delivered, processedOn := some now, lock := none }⟩
  | failed (r error policy) (h : r.state = .pending) :
      Goes ⟨.markFailed error policy, r, .ok (),
        { r with lock := none, error := some error, state := r.stateAfterFailure policy }⟩
  | notDelivered (r now) (h : r.state ≠ .pending) :
      Goes ⟨.markDelivered now, r, .error (.refused (.invalidTransition r.id r.state .delivered)), r⟩
  | notFailed (r error policy) (h : r.state ≠ .pending) :
      Goes ⟨.markFailed error policy, r,
        .error (.refused (.invalidTransition r.id r.state (r.stateAfterFailure policy))), r⟩

theorem goes (m : Method) (r : Record) : (m.step r).Goes := by
  unfold Method.step
  cases m with
  | lock owner takenOn => exact .lock r owner takenOn
  | releaseLock => exact .releaseLock r
  | startAttempt now =>
      rw [Method.run_startAttempt]
      by_cases h : r.attempts < maxAttempts
      · rw [startAttempt_eq_some_iff.2 ⟨h, rfl⟩]
        exact .attempted r now h
      · rw [startAttempt_eq_none_iff.2 (Nat.le_of_not_lt h)]
        exact .full r now (Nat.le_of_not_lt h)
  | markDelivered now =>
      rw [Method.run_markDelivered]
      by_cases h : r.state = .pending
      · rw [markDelivered_eq_ok_iff.2 ⟨h, rfl⟩]
        exact .delivered r now h
      · rw [markDelivered_of_terminal h]
        exact .notDelivered r now h
  | markFailed error policy =>
      rw [Method.run_markFailed]
      by_cases h : r.state = .pending
      · rw [markFailed_eq_ok_iff.2 ⟨h, rfl⟩]
        exact .failed r error policy h
      · rw [markFailed_of_terminal h]
        exact .notFailed r error policy h

/-- The state that the call is to bring about. -/
def target? (s : Step) : Option State :=
  match s.method with
  | .markDelivered _ => some .delivered
  | .markFailed _ policy => some (s.before.stateAfterFailure policy)
  | _ => none

/-- The terminal state that a successful call has brought about. -/
def verdict? (s : Step) : Option State :=
  match s.method, s.result with
  | .markDelivered _, .ok () => some .delivered
  | .markFailed _ policy, .ok () =>
    if policy.isExhausted s.before.attempts then some .exhausted else none
  | _, _ => none

/-- The text of the failure that a successful call has put down. -/
def failure? (s : Step) : Option String :=
  match s.method, s.result with
  | .markFailed error _, .ok () => some error
  | _, _ => none

/-- A call that is to bring about `target` is refused in a terminal state and only there, and then it
leaves the record as it was. -/
structure Marks (s : Step) (target : State) : Prop where
  refused : s.before.state.isTerminal = true →
    s.result = .error (.refused (.invalidTransition s.before.id s.before.state target)) ∧
      s.after = s.before
  accepted : s.before.state.isTerminal = false →
    s.result = .ok () ∧ s.after.state = target ∧ s.after.lock = none

variable {s : Step}

theorem isTerminal_of_verdict {state : State} (h : s.verdict? = some state) :
    state.isTerminal = true := by
  unfold verdict? at h
  split at h
  · cases h; rfl
  · split at h <;> cases h; rfl
  · cases h

namespace Goes

theorem kept (h : s.Goes) : s.after.id = s.before.id ∧ s.after.message = s.before.message ∧
    s.after.createdOn = s.before.createdOn := by
  cases h <;> exact ⟨rfl, rfl, rfl⟩

theorem marks (h : s.Goes) {target : State} (ht : s.target? = some target) : s.Marks target := by
  cases h with
  | delivered r now hp | failed r _ _ hp =>
      cases ht
      exact ⟨fun h => absurd hp (State.isTerminal_iff.1 h), fun _ => ⟨rfl, rfl, rfl⟩⟩
  | notDelivered r now hp | notFailed r _ _ hp =>
      cases ht
      exact ⟨fun _ => ⟨rfl, rfl⟩, fun h => absurd (State.isTerminal_iff.2 hp) (by simp [h])⟩
  | _ => cases ht

theorem result_of_room (h : s.Goes) (hm : s.method.isAttempt = true)
    (hroom : s.before.attempts < maxAttempts) : s.result = .ok () := by
  cases h with
  | attempted => rfl
  | full _ _ hfull => exact absurd hroom (Nat.not_lt.2 hfull)
  | _ => cases hm

theorem attempts_eq (h : s.Goes) (hroom : s.method.isAttempt = true → s.before.attempts < maxAttempts) :
    s.after.attempts = s.before.attempts + if s.method.isAttempt then 1 else 0 := by
  cases h with
  | full _ _ hfull => exact absurd (hroom rfl) (Nat.not_lt.2 hfull)
  | _ => rfl

/-- A terminal state stays; a pending record takes the state of the verdict, if there is one. -/
theorem state_eq (h : s.Goes) : s.after.state =
    if s.before.state.isTerminal then s.before.state else s.verdict?.getD .pending := by
  cases h with
  | delivered r now hp => simp [hp, State.isTerminal, verdict?]
  | failed r error policy hp =>
      simp only [hp, State.isTerminal, verdict?, stateAfterFailure]
      split <;> rfl
  | notDelivered r now hp | notFailed r _ _ hp => simp [State.isTerminal_iff.2 hp]
  | lock r | releaseLock r | attempted r | full r =>
      split
      · rfl
      · rename_i ht
        have hp : r.state = .pending := by simpa [State.isTerminal_iff] using ht
        exact hp

theorem error_eq (h : s.Goes) : s.after.error = s.failure?.or s.before.error := by
  cases h <;> rfl

theorem processed_iff (h : s.Goes)
    (hb : s.before.processedOn.isSome = true ↔ s.before.state = .delivered) :
    s.after.processedOn.isSome = true ↔ s.after.state = .delivered := by
  cases h with
  | delivered => simp
  | failed r _ _ hp =>
      rw [hp] at hb
      simpa [stateAfterFailure_ne_delivered] using hb
  | _ => exact hb

end Goes

end Step

/-! ## Histories -/

/-- The record after these calls, whatever became of each. -/
def after (r : Record) (ms : List Method) : Record := ms.foldl (fun r m => (m.run r).2) r

def history (r : Record) : List Method → List Step
  | [] => []
  | m :: ms => m.step r :: history (m.run r).2 ms

variable {r fresh : Record} {past : List Step} {s : Step} {ms : List Method} {m : Method}

theorem countP_history :
    (r.history ms).countP (·.method.isAttempt) = ms.countP Method.isAttempt := by
  induction ms generalizing r with
  | nil => rfl
  | cons m ms ih => rw [history, List.countP_cons, List.countP_cons, ih]; rfl

theorem after_concat : r.after (ms ++ [m]) = (m.run (r.after ms)).2 := by
  simp [after]

theorem history_concat : r.history (ms ++ [m]) = r.history ms ++ [m.step (r.after ms)] := by
  induction ms generalizing r with
  | nil => rfl
  | cons m' ms ih => exact congrArg (m'.step r :: ·) ih

/-- What the calls so far have made of a new record. -/
structure Lifecycle (fresh : Record) (past : List Step) (r : Record) : Prop where
  kept : r.id = fresh.id ∧ r.message = fresh.message ∧ r.createdOn = fresh.createdOn
  attempts_eq : r.attempts = past.countP (·.method.isAttempt)
  /-- The counter has room for each of them. -/
  started : ∀ s ∈ past, s.method.isAttempt = true → s.result = .ok ()
  /-- The first verdict decides. -/
  state_eq : r.state = (past.findSome? Step.verdict?).getD .pending
  /-- A terminal state is never left. -/
  settled : ∀ s ∈ past, s.after.state.isTerminal = true → r.state = s.after.state
  marks : ∀ s ∈ past, ∀ target, s.target? = some target → s.Marks target
  processed_iff : r.processedOn.isSome = true ↔ r.state = .delivered
  /-- The last failure is remembered. -/
  error_eq : r.error = past.reverse.findSome? Step.failure?

namespace Lifecycle

theorem start (id : RecordId) (message : Message) (createdOn : Instant) :
    Lifecycle (.new id message createdOn) [] (.new id message createdOn) where
  kept := ⟨rfl, rfl, rfl⟩
  attempts_eq := rfl
  started := by simp
  state_eq := rfl
  settled := by simp
  marks := by simp
  processed_iff := by simp [Record.new]
  error_eq := rfl

theorem step (h : Lifecycle fresh past s.before) (hs : s.Goes)
    (hroom : s.method.isAttempt = true → s.before.attempts < maxAttempts) :
    Lifecycle fresh (past ++ [s]) s.after where
  kept := by
    obtain ⟨hid, hmessage, hcreated⟩ := hs.kept
    obtain ⟨hid', hmessage', hcreated'⟩ := h.kept
    exact ⟨hid.trans hid', hmessage.trans hmessage', hcreated.trans hcreated'⟩
  attempts_eq := by
    rw [hs.attempts_eq hroom, h.attempts_eq, List.countP_append, List.countP_singleton]
  started := by
    intro s' hmem hm
    rcases List.mem_append.1 hmem with hmem | hmem
    · exact h.started s' hmem hm
    · cases List.mem_singleton.1 hmem
      exact hs.result_of_room hm (hroom hm)
  state_eq := by
    rw [hs.state_eq, List.findSome?_append, h.state_eq]
    cases hv : past.findSome? Step.verdict? with
    | none =>
        rw [Option.none_or, List.findSome?_singleton]
        rfl
    | some state =>
        obtain ⟨s', -, hs'⟩ := List.exists_of_findSome?_eq_some hv
        rw [Option.getD_some, if_pos (Step.isTerminal_of_verdict hs')]
        rfl
  settled := by
    intro s' hmem ht
    rcases List.mem_append.1 hmem with hmem | hmem
    · have hkept := h.settled s' hmem ht
      rw [hs.state_eq, hkept, if_pos ht]
    · cases List.mem_singleton.1 hmem
      rfl
  marks := by
    intro s' hmem target ht
    rcases List.mem_append.1 hmem with hmem | hmem
    · exact h.marks s' hmem target ht
    · cases List.mem_singleton.1 hmem
      exact hs.marks ht
  processed_iff := hs.processed_iff h.processed_iff
  error_eq := by
    rw [hs.error_eq, h.error_eq, List.reverse_concat, List.findSome?_cons]
    cases s.failure? <;> rfl

end Lifecycle

variable (id : RecordId) (message : Message) (createdOn : Instant)

/-- The life of every record, up to the number of attempts that its counter can hold. -/
theorem lifecycle (ms : List Method) (hroom : ms.countP Method.isAttempt ≤ maxAttempts) :
    Lifecycle (.new id message createdOn) ((new id message createdOn).history ms)
      ((new id message createdOn).after ms) := by
  -- from the last call on: it finds the record that the calls before it have left
  induction ms using List.reverseRecOn with
  | nil => exact .start id message createdOn
  | append_singleton ms m ih =>
      rw [List.countP_append, List.countP_singleton] at hroom
      have hpast := ih (Nat.le_of_add_right_le hroom)
      rw [history_concat, after_concat]
      refine hpast.step (Step.goes m _) fun hm => ?_
      have hattempt : m.isAttempt = true := hm
      rw [if_pos hattempt, ← countP_history, ← hpast.attempts_eq] at hroom
      exact hroom

/-- Two failed attempts under a limit of two, and a delivery that comes too late. -/
def exhausting : List Method :=
  [.lock ⟨"a"⟩ default, .startAttempt default, .markFailed "refused" (.limited 2), .startAttempt default,
    .markFailed "refused again" (.limited 2), .markDelivered default]

theorem lifecycle_exhausting : exhausting.countP Method.isAttempt ≤ maxAttempts ∧
    Lifecycle (.new (.nth 1) default default) ((new (.nth 1) default default).history exhausting)
      ((new (.nth 1) default default).after exhausting) := by
  have hroom : exhausting.countP Method.isAttempt ≤ maxAttempts := by decide
  exact ⟨hroom, lifecycle (.nth 1) default default exhausting hroom⟩

end Record

end Outbox

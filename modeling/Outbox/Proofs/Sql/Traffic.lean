import Outbox.Proofs.Pass.Solo
import Outbox.Proofs.Sql.Written

/-!
# Passes on a database

A pass over the relational store, with every statement that it sends to the database and every message that
it hands to the broker.
-/

namespace Outbox.Sql

/-! ## The statements of a pass -/

namespace Statement

def claim (owner : MachineId) (now : Instant) : Statement :=
  .update [(.lockedBy, .param (.text owner.text)), (.lockedOn, .param (.time now))]
    (.and (.compare .state .equal (.int State.pending.number)) (.isNull .lockedBy))

def fetch (owner : MachineId) : Statement :=
  .select (.compare .lockedBy .equal (.text owner.text)) [.createdOn, .id]

def save (row : Row) : Statement := .update (saving row) (.compare .id .equal (.uuid row.id))

def release (owner : MachineId) : Statement :=
  .update [(.lockedBy, .null), (.lockedOn, .null)] (.compare .lockedBy .equal (.text owner.text))

end Statement

/-- Whatever the reply, the database has been asked. -/
theorem call_snd {ω : Type} {execute : Statement → ω → Reply × ω} {e : Message.Encoding} {w : ω} {a : Answer}
    {k : Call a} {st : Statement} (h : statement e k = .ok st) : (call execute e k w).2 = (execute st w).2 := by
  rcases hreply : execute st w with ⟨_ | reply, w'⟩ <;> simp only [call, h, executeFor, hreply]

/-! ## The surroundings -/

/-- What was sent so far, the earliest first. -/
structure Traffic where
  statements : List Statement := []
  sent : List Message := []

/-- What the clock, the database and the broker give in turn. At each call the headers of a message may be
written in another order. -/
structure Deployment where
  clock : Nat → Instant
  replies : Nat → Statement → Reply
  answers : Nat → Except BrokerError Unit
  encoding : Nat → Message.Encoding

namespace Deployment

variable (d : Deployment)

def execute (st : Statement) (w : Traffic) : Reply × Traffic :=
  (d.replies w.statements.length st, { w with statements := w.statements ++ [st] })

def host : Host Traffic where
  now w := some (d.clock (w.statements.length + w.sent.length))
  call c w := call d.execute (d.encoding w.statements.length) c w
  send m w := (some (d.answers w.sent.length), { w with sent := w.sent ++ [m] })
  log w _ := w

theorem logAll_host (w : Traffic) (entries : List LogEntry) : d.host.logAll w entries = w :=
  Host.logAll_of_silent (fun _ _ => rfl) w entries

/-! ## One request -/

variable {d} {w : Traffic} {s : Pass.Settings} {reply : Answered} {report : Report} {r : Record}
  {failure : Option BrokerError} {rest : List Record}

theorem call_host {a : Answer} {k : Call a} {st : Statement}
    (hst : statement (d.encoding w.statements.length) k = .ok st)
    (h : d.replies w.statements.length st = .ok reply) :
    d.host.call k w = (answer k reply, { w with statements := w.statements ++ [st] }) :=
  call_eq hst (Prod.ext h rfl)

theorem advance_opening (h : d.replies 0 (.claim s.machine (d.clock 0)) = .ok reply) :
    Pass.advance d.host s .opening {} =
      Pass.advance d.host s (.fetching reply.affected) ⟨[.claim s.machine (d.clock 0)], []⟩ := by
  have hclaim : d.host.call (.claim s.machine (d.clock 0) .pending) {} =
      (.ok reply.affected, ⟨[.claim s.machine (d.clock 0)], []⟩) := call_host rfl h
  rw [Pass.advance_now rfl rfl, Pass.advance_call rfl]
  show Pass.advance d.host s (Pass.claimed (d.host.call (.claim s.machine (d.clock 0) .pending) {}).1)
    (d.host.logAll (d.host.call (.claim s.machine (d.clock 0) .pending) {}).2 []) = _
  rw [hclaim, logAll_host, Pass.claimed]

theorem advance_fetching {n : Nat} (h : d.replies w.statements.length (.fetch s.machine) = .ok reply) :
    Pass.advance d.host s (.fetching n) w =
      Pass.advance d.host s (Pass.fetched s n (reply.rows.mapM Row.record)).1
        { w with statements := w.statements ++ [.fetch s.machine] } := by
  rw [Pass.advance_call rfl, call_host rfl h, logAll_host, answer]

/-- The locks are released at the end, whatever the reply. -/
theorem advance_releasing {result : Except OutboxError Report} :
    Pass.advance d.host s (.releasing result) w =
      (.finished result, { w with statements := w.statements ++ [.release s.machine] }) := by
  have hcall : (d.host.call (.release s.machine) w).2 =
      { w with statements := w.statements ++ [.release s.machine] } := call_snd rfl
  rw [Pass.advance_release, logAll_host, hcall]

theorem advance_saving (hr : r.attempts ≤ maxAttempts)
    (h : d.replies w.statements.length (.save (written (d.encoding w.statements.length) r)) = .ok reply)
    (hfound : 0 < reply.affected) :
    Pass.advance d.host s (.saving report r failure rest) w =
      Pass.advance d.host s (Pass.saved report r failure rest (.ok ())).1
        { w with statements := w.statements ++ [.save (written (d.encoding w.statements.length) r)] } := by
  have hanswer : answer (.save r) reply = .ok () := if_neg (Nat.ne_of_gt hfound)
  rw [Pass.advance_call rfl, call_host (statement_save hr) h, logAll_host, hanswer]
  rfl

/-- The column has no room for the attempts: the pass ends without a statement for the record. -/
theorem advance_saving_of_overflow (hr : maxAttempts < r.attempts) :
    Pass.advance d.host s (.saving report r failure rest) w =
      (.finished (.error (.store "outbox.postgres.update_record_by_id" (.attemptsOverflow r.attempts))),
        { w with statements := w.statements ++ [.release s.machine] }) := by
  have hcall : d.host.call (.save r) w =
      (.error (.store (opName Operation.save.name) (.attemptsOverflow r.attempts)), w) :=
    call_of_error (statement_save_of_overflow hr)
  rw [Pass.advance_call rfl, hcall, logAll_host]
  exact advance_releasing

end Deployment

end Outbox.Sql

import Outbox.Proofs.Dispatcher.Schedule
import Outbox.Proofs.Fleet.Lone

/-!
# A dispatcher as a worker

What the loops of a dispatcher do in a simulation, a worker of a fleet can do on its own, with the same
messages and answers: each loop takes a few of its actions at a time. So the sweeps of a dispatcher do no
harm to its own deliveries.
-/

namespace Outbox

/-! ## What is sent -/

namespace Broker

/-- No outcome lets others at the store. -/
def Silent : Broker → Prop
  | scripted s => s.otherwise.effects = [] ∧ ∀ o ∈ s.outcomes, o.effects = []
  | logging _ => True

/-- What comes of messages that are sent one after the other. -/
def outcomes (b : Broker) : List Message → List Outcome
  | [] => []
  | m :: ms => (b.take m).1 :: (b.take m).2.2.outcomes ms

/-- When these messages have been sent. -/
def after (b : Broker) (ms : List Message) : Broker := ms.foldl (fun b m => (b.take m).2.2) b

variable {b : Broker}

theorem Silent.take (h : b.Silent) (m : Message) : (b.take m).1.effects = [] ∧ (b.take m).2.2.Silent := by
  cases b with
  | logging sent => exact ⟨rfl, trivial⟩
  | scripted s =>
      obtain ⟨outcomes, otherwise⟩ := s
      obtain ⟨hother, hall⟩ := h
      cases outcomes with
      | nil => exact ⟨hother, hother, hall⟩
      | cons o os =>
          obtain ⟨ho, hos⟩ := List.forall_mem_cons.1 hall
          exact ⟨ho, hother, hos⟩

theorem after_concat (b : Broker) (ms : List Message) (m : Message) :
    b.after (ms ++ [m]) = ((b.after ms).take m).2.2 := by
  simp [after]

theorem outcomes_concat (b : Broker) (ms : List Message) (m : Message) :
    b.outcomes (ms ++ [m]) = b.outcomes ms ++ [((b.after ms).take m).1] := by
  induction ms generalizing b with
  | nil => rfl
  | cons m' ms ih => exact congrArg (_ :: ·) (ih _)

end Broker

def Event.message? : Event → Option Message
  | send _ m => some m
  | _ => none

/-- The messages that the owner of that name has handed over, the earliest first. -/
def Trial.sent (name : String) (t : Trial) : List Message :=
  (t.deeds name .processor).filterMap Event.message?

def Simulation.sent (name : String) (s : Simulation) : List Message :=
  (s.deeds name .processor).filterMap fun x => x.2.message?

namespace Occurrence

def message? : Occurrence → Option Message
  | handedOver _ _ m => some m
  | _ => none

def answer? : Occurrence → Option (Except BrokerError Unit)
  | answered _ _ _ a => some a
  | _ => none

end Occurrence

namespace World

/-- The messages that workers have handed over, the earliest first. -/
def sent (w : World) : List Message := (w.history.filterMap Occurrence.message?).reverse

def answers (w : World) : List (Except BrokerError Unit) := (w.history.filterMap Occurrence.answer?).reverse

/-- The store is the same, and so are the messages of the dispatcher of that name. The broker has answered as
it does. -/
structure Shows (b : Broker) (name : String) (w : World) (s : Simulation) : Prop where
  store : w.store = s.store
  sent : w.sent = s.sent name
  answers : w.answers <+: (b.outcomes w.sent).map Outcome.answer

/-! ## What is alike -/

/-- The store is the same, and so is what was sent since `old`. Nothing keeps calls from succeeding, and the
broker is at the next message. -/
structure Follows (b : Broker) (name : String) (old : List Message) (w : World) (t : Trial) : Prop where
  store : w.store = t.store
  sent : w.sent = old ++ t.sent name
  faults : t.faults = []
  silent : t.broker.Silent
  broker : t.broker = b.after w.sent

/-- The broker has answered every message. -/
def Answered (b : Broker) (w : World) : Prop := w.answers = (b.outcomes w.sent).map Outcome.answer

/-- Worker 0 is between two passes. -/
structure Idle (b : Broker) (s : Pass.Settings) (w : World) : Prop where
  pass : (w.pass 0).next s = none
  awaiting : w.awaiting 0 = false
  answered : w.Answered b

/-- Worker 0 has handed a message over, and `o` will come of it. -/
structure Awaits (b : Broker) (s : Pass.Settings) (w : World) (p : Pass) (o : Outcome) : Prop where
  pass : w.pass 0 = p
  awaiting : w.awaiting 0 = true
  sends : ∃ m resume, p.next s = some (.send m resume)
  silent : o.effects = []
  answers : w.answers ++ [o.answer] = (b.outcomes w.sent).map Outcome.answer

/-- How worker 0 stands when the loop of the processor stands so. A loop that has ended does not go on. -/
def Stands (b : Broker) (s : Pass.Settings) (w : World) : Loop Flight → Prop
  | .waiting _ => w.Idle b s
  | .inFlight _ f _ => w.Awaits b s f.pass f.outcome
  | .ended => w.Answered b

/-- How worker 0 stands when an iteration has come so far. One that is broken off does not go on. -/
def Reached (b : Broker) (s : Pass.Settings) (w : World) : Job.Progress Flight → Prop
  | .awaits f => w.Awaits b s f.pass f.outcome
  | .over (some _) => w.Idle b s
  | .over none => w.Answered b

/-- The worker is left where it was. -/
structure Unmoved (w w' : World) : Prop where
  pass : w'.pass = w.pass
  awaiting : w'.awaiting = w.awaiting
  sent : w'.sent = w.sent
  answers : w'.answers = w.answers

/-- A worker on its own gets from one world to the other, and nothing is published meanwhile. -/
def Works (f : Fleet) (w w' : World) : Prop :=
  ∃ as : List Action, (∀ a ∈ as, a.IsLone) ∧ w.run f as = w' ∧ w'.issued = w.issued

variable {f : Fleet} {b : Broker} {s : Pass.Settings} {w w' w'' : World} {name : String} {old : List Message}
  {t u : Trial} {l : Loop Flight}

theorem run_append (f : Fleet) (w : World) (as bs : List Action) :
    w.run f (as ++ bs) = (w.run f as).run f bs := List.foldl_append

theorem Works.refl (w : World) : Works f w w := ⟨[], List.forall_mem_nil _, rfl, rfl⟩

theorem Works.trans (h : Works f w w') (h' : Works f w' w'') : Works f w w'' := by
  obtain ⟨as, hok, rfl, hi⟩ := h
  obtain ⟨bs, hok', rfl, hi'⟩ := h'
  exact ⟨as ++ bs, List.forall_mem_append.2 ⟨hok, hok'⟩, run_append .., hi'.trans hi⟩

theorem Works.of_step {a : Action} (ok : a.IsLone) (h : w.step f a = w') (hi : w'.issued = w.issued) :
    Works f w w' := ⟨[a], List.forall_mem_singleton.2 ok, h, hi⟩

theorem Unmoved.refl (w : World) : Unmoved w w := ⟨rfl, rfl, rfl, rfl⟩

theorem Unmoved.trans (h : Unmoved w w') (h' : Unmoved w' w'') : Unmoved w w'' :=
  ⟨h'.pass.trans h.pass, h'.awaiting.trans h.awaiting, h'.sent.trans h.sent, h'.answers.trans h.answers⟩

theorem Follows.did (h : w.Follows b name old t) (hd : Trial.Did name [] t u) (hstore : u.store = t.store)
    (hfaults : u.faults = t.faults) (hbroker : u.broker = t.broker) : w.Follows b name old u where
  store := h.store.trans hstore.symm
  sent := by rw [h.sent, Trial.sent, Trial.sent, hd.deeds, List.filter_nil, List.append_nil]
  faults := hfaults.trans h.faults
  silent := hbroker ▸ h.silent
  broker := hbroker.trans h.broker

theorem Follows.logged (h : w.Follows b name old t) (hl : Trial.Logged t u) : w.Follows b name old u := by
  obtain ⟨entries, rfl⟩ := hl
  induction entries generalizing t with
  | nil => exact h
  | cons e es ih => exact ih (h.did (.log t e) rfl rfl rfl)

theorem Follows.frame (h : w.Follows b name old t) (hstore : w'.store = w.store) (hsent : w'.sent = w.sent) :
    w'.Follows b name old t :=
  ⟨hstore.trans h.store, hsent.trans h.sent, h.faults, h.silent, hsent ▸ h.broker⟩

theorem Answered.frame (h : w.Answered b) (hu : Unmoved w w') : w'.Answered b := by
  unfold Answered
  rw [hu.answers, hu.sent]
  exact h

theorem Stands.frame (h : w.Stands b s l) (hu : Unmoved w w') : w'.Stands b s l := by
  cases l with
  | waiting => exact ⟨hu.pass ▸ h.pass, hu.awaiting ▸ h.awaiting, h.answered.frame hu⟩
  | inFlight =>
      refine ⟨hu.pass ▸ h.pass, hu.awaiting ▸ h.awaiting, h.sends, h.silent, ?_⟩
      rw [hu.answers, hu.sent]
      exact h.answers
  | ended => exact Answered.frame h hu

theorem Stands.answers_prefix (h : w.Stands b s l) : w.answers <+: (b.outcomes w.sent).map Outcome.answer := by
  cases l with
  | waiting => exact h.answered ▸ List.prefix_rfl
  | inFlight => exact ⟨_, h.answers⟩
  | ended => exact (show w.Answered b from h) ▸ List.prefix_rfl

end World

/-! ## A pass -/

theorem Pass.sending_of_next {s : Settings} {p : Pass} {m : Message} {resume : Except BrokerError Unit → Pass}
    (h : p.next s = some (.send m resume)) : ∃ report r rest, p = .sending report r rest ∧ m = r.message := by
  cases p with
  | sending report r rest => cases h; exact ⟨report, r, rest, rfl, rfl⟩
  | _ => cases h

namespace Trial

theorem call_of_faultless {t : Trial} (name : String) (h : t.faults = []) {a : Answer} (c : Call a) :
    (t.call name c).1 = (t.store.perform c).1 ∧ (t.call name c).2.store = (t.store.perform c).2 ∧
      (t.call name c).2.faults = [] ∧ (t.call name c).2.broker = t.broker := by
  unfold call
  rw [h]
  exact ⟨rfl, rfl, rfl, rfl⟩

theorem Did.sent_call {name : String} {t u : Trial} {a : Answer} {c : Call a}
    {result : Except OutboxError a.Val} (h : Did name [.call name c result] t u) :
    u.sent name = t.sent name := by
  rw [sent, sent, h.deeds, List.filterMap_append]
  by_cases hc : (Event.call name c result).task? name = some .processor <;> simp [hc, Event.message?]

theorem Did.sent_send {name : String} {t u : Trial} {m : Message} (h : Did name [.send name m] t u) :
    u.sent name = t.sent name ++ [m] := by
  rw [sent, sent, h.deeds, List.filterMap_append]
  simp [Event.task?, Event.message?]

end Trial

namespace World

theorem setPass_pass (w : World) (p : Pass) : (w.setPass 0 p).pass 0 = p := by simp [setPass]

theorem setAwaiting_awaiting (w : World) (a : Bool) : (w.setAwaiting 0 a).awaiting 0 = a := by
  simp [setAwaiting]

theorem ofCall_sent (w : World) {a : Answer} (c : Call a) (result : Except OutboxError a.Val) :
    (w.note (Occurrence.ofCall 0 c result)).sent = w.sent := by
  cases c <;> cases result <;> rfl

theorem ofCall_answers (w : World) {a : Answer} (c : Call a) (result : Except OutboxError a.Val) :
    (w.note (Occurrence.ofCall 0 c result)).answers = w.answers := by
  cases c <;> cases result <;> rfl

theorem handedOver_sent (w : World) (id : RecordId) (m : Message) :
    (w.note [.handedOver 0 id m]).sent = w.sent ++ [m] := by
  simp [sent, note, Occurrence.message?]

theorem answered_answers (w : World) (id : RecordId) (m : Message) (a : Except BrokerError Unit) :
    (w.note [.answered 0 id m a]).answers = w.answers ++ [a] := by
  simp [answers, note, Occurrence.answer?]

section Actions

variable {f : Fleet} {w : World} {report : Report} {r : Record} {rest : List Record}

theorem works_start (hp : (w.pass 0).next (f.settings 0) = none) : Works f w (w.setPass 0 .opening) :=
  .of_step (a := .start 0) rfl (by simp [step, hp]) rfl

theorem works_read {resume : Instant → Pass} (hp : (w.pass 0).next (f.settings 0) = some (.now resume))
    (now : Instant) : Works f w (w.setPass 0 (resume now)) :=
  .of_step (a := .read 0 now) rfl (by simp only [step, hp]) rfl

theorem works_call {a : Answer} {c : Call a} {resume : Except OutboxError a.Val → Pass × List LogEntry}
    (hp : (w.pass 0).next (f.settings 0) = some (.call c resume)) :
    Works f w (({ w with store := (w.store.perform c).2 }.setPass 0 (resume (w.store.perform c).1).1).note
      (Occurrence.ofCall 0 c (w.store.perform c).1)) :=
  .of_step (a := .call 0 none) ⟨rfl, rfl⟩ (by simp only [step, hp, Store.call]) rfl

theorem works_handOver (hp : w.pass 0 = .sending report r rest) (ha : w.awaiting 0 = false) :
    Works f w ((w.setAwaiting 0 true).note [.handedOver 0 r.id r.message]) :=
  .of_step (a := .handOver 0) rfl (by simp [step, hp, Pass.next, Pass.underWay?, ha]) rfl

theorem works_answer (hp : w.pass 0 = .sending report r rest) (ha : w.awaiting 0 = true)
    (a : Except BrokerError Unit) :
    Works f w (((w.setAwaiting 0 false).setPass 0 (Pass.sent (f.settings 0) report r rest a)).note
      [.answered 0 r.id r.message a]) :=
  .of_step (a := .answer 0 a) rfl (by simp [step, hp, Pass.next, Pass.underWay?, ha]) rfl

end Actions

/-- The worker can get to where the pass is, with all of its messages answered. -/
def Pursues (f : Fleet) (b : Broker) (name : String) (old : List Message) (w : World) (p : Pass) (t : Trial) :
    Prop :=
  ∃ w', Works f w w' ∧ w'.pass 0 = p ∧ w'.awaiting 0 = false ∧ w'.Answered b ∧ w'.Follows b name old t

namespace Pursues

variable {f : Fleet} {b : Broker} {w w' : World} {name : String} {old : List Message} {t : Trial} {p : Pass}

theorem now (h : w.Pursues f b name old p t) {resume : Instant → Pass}
    (hp : p.next (f.settings 0) = some (.now resume)) (time : Instant) :
    w.Pursues f b name old (resume time) t := by
  obtain ⟨w', hworks, hpass, ha, hanswered, hf⟩ := h
  have hread : Works f w' (w'.setPass 0 (resume time)) := works_read (by rw [hpass]; exact hp) time
  exact ⟨_, hworks.trans hread, setPass_pass .., ha, hanswered, hf.frame rfl rfl⟩

theorem call (h : w.Pursues f b name old p t) {a : Answer} {c : Call a}
    {resume : Except OutboxError a.Val → Pass × List LogEntry}
    (hp : p.next (f.settings 0) = some (.call c resume)) :
    w.Pursues f b name old (resume (t.call name c).1).1 (t.call name c).2 := by
  obtain ⟨w', hworks, hpass, ha, hanswered, hf⟩ := h
  have hcall : Works f w' _ := works_call (by rw [hpass]; exact hp)
  obtain ⟨hanswer, hstore, hfaults, hbroker⟩ := Trial.call_of_faultless name hf.faults c
  rw [hf.store, ← hanswer, ← hstore] at hcall
  let w'' : World := { w' with store := (t.call name c).2.store }
  refine ⟨_, hworks.trans hcall, setPass_pass w'' _, ha, ?_, rfl, ?_, hfaults, ?_, ?_⟩
  · rw [Answered, ofCall_answers, ofCall_sent]
    exact hanswered
  · have hdid : Trial.Did name _ t (t.call name c).2 := .call t c
    rw [ofCall_sent, hdid.sent_call]
    exact hf.sent
  · exact hbroker ▸ hf.silent
  · rw [ofCall_sent, hbroker]
    exact hf.broker

theorem send (h : w.Pursues f b name old p t) {m : Message} {resume : Except BrokerError Unit → Pass}
    (hp : p.next (f.settings 0) = some (.send m resume)) :
    ∃ w', Works f w w' ∧ w'.Awaits b (f.settings 0) p (t.handOver name m).1 ∧
      w'.Follows b name old (t.handOver name m).2 := by
  obtain ⟨w', hworks, hpass, ha, hanswered, hf⟩ := h
  obtain ⟨report, r, rest, rfl, rfl⟩ := Pass.sending_of_next hp
  obtain ⟨heffects, hsilent⟩ := hf.silent.take r.message
  have hsent := handedOver_sent (w'.setAwaiting 0 true) r.id r.message
  refine ⟨_, hworks.trans (works_handOver hpass ha), ?_, ?_⟩
  · refine ⟨hpass, setAwaiting_awaiting w' true, ⟨_, _, hp⟩, heffects, ?_⟩
    rw [hsent]
    show w'.answers ++ [(t.broker.take r.message).1.answer] = _
    rw [hanswered, hf.broker]
    simp [World.sent, setAwaiting, Broker.outcomes_concat]
  · let u : Trial := { t with broker := (t.broker.take r.message).2.2 }
    have hdid : Trial.Did name _ t (u.see (.send name r.message)) := .see t u rfl rfl (.send name r.message)
    have hfollows : ((w'.setAwaiting 0 true).note [.handedOver 0 r.id r.message]).Follows b name old
        (u.see (.send name r.message)) := by
      refine ⟨hf.store, ?_, hf.faults, hsilent, ?_⟩
      · rw [hsent, hdid.sent_send, ← List.append_assoc, ← hf.sent]
        rfl
      · rw [hsent, Broker.after_concat]
        show (t.broker.take r.message).2.2 = _
        rw [hf.broker]
        rfl
    exact hfollows.logged ⟨_, rfl⟩

theorem of_answer {o : Outcome} (hw : Works f w w') (h : w'.Awaits b (f.settings 0) p o)
    (hf : w'.Follows b name old t) : w.Pursues f b name old (p.receive (f.settings 0) o.answer) t := by
  obtain ⟨m, resume, hp⟩ := h.sends
  obtain ⟨report, r, rest, rfl, -⟩ := Pass.sending_of_next hp
  have hanswer := works_answer (f := f) h.pass h.awaiting o.answer
  refine ⟨_, hw.trans hanswer, setPass_pass (w'.setAwaiting 0 false) _, setAwaiting_awaiting w' false, ?_,
    hf.frame rfl rfl⟩
  rw [Answered, answered_answers]
  exact h.answers

/-- A pass is pursued until it waits for the broker or gets no further. -/
theorem advance (h : w.Pursues f b name old p t) (ha : t.awaited = none) {p' : Pass} {t' : Trial}
    (hadv : p.advance (Trial.patientHost name) (f.settings 0) t = (p', t')) :
    (t'.awaited = none ∧ w.Pursues f b name old p' t') ∨
      ∃ o w', t'.awaited = some o ∧ Works f w w' ∧ w'.Awaits b (f.settings 0) p' o ∧
        w'.Follows b name old t' := by
  obtain ⟨u, ⟨hu, hnone⟩, hstop⟩ := Pass.advance_induction (h := Trial.patientHost name) (s := f.settings 0)
    (p := p) (P := fun q u => w.Pursues f b name old q u ∧ u.awaited = none)
    (fun {q u resume time} hq _ h => ⟨h.1.now hq time, h.2⟩)
    (fun {q u a c resume} hq h => by
      obtain ⟨w', hworks, hpass, hawaiting, hanswered, hf⟩ := h.1.call hq
      refine ⟨⟨w', hworks, hpass, hawaiting, hanswered, hf.logged ⟨_, rfl⟩⟩, ?_⟩
      exact Trial.awaited_foldl_log.trans (Trial.awaited_call.trans h.2))
    (fun {q u m resume a u'} hq hsend h => by
      obtain ⟨w', hworks, hawaits, hf⟩ := h.1.send hq
      rcases Trial.sendOrWait_cases u m with ⟨-, he⟩ | he
      · cases he.symm.trans hsend
      · rw [hawaits.silent] at he
        cases he.symm.trans hsend
        have hnext := of_answer hworks hawaits hf
        rw [Pass.receive_of_next hq] at hnext
        exact ⟨hnext, Trial.awaited_handOver.trans h.2⟩)
    (w := t) ⟨h, ha⟩
  rw [hadv] at hu hstop
  cases hstop with
  | ended | timeless => exact Or.inl ⟨hnone, hu⟩
  | @unanswered m resume _ hq hsend =>
      obtain ⟨w', hworks, hawaits, hf⟩ := hu.send hq
      rcases Trial.sendOrWait_cases u m with ⟨-, he⟩ | he
      · cases he.symm.trans hsend
        exact Or.inr ⟨_, w', rfl, hworks, hawaits, hf.did (.await _ _) rfl rfl rfl⟩
      · cases he.symm.trans hsend

end Pursues

end World

/-! ## Iterations -/

theorem Store.run_host (sw : Sweep) (now : Instant) (s : Store) :
    (sw.run (host now none) s).2 = (s.perform (sw.call (now.before sw.age))).2 := by
  simp only [Sweep.run, host, Store.call]
  split <;> simp [*]

theorem World.unmoved_sweep (f : Fleet) (w : World) (sw : Sweep) (now : Instant) :
    Unmoved w (w.step f (.sweep sw now none)) where
  pass := rfl
  awaiting := rfl
  sent := by simp [step, note, World.sent, Occurrence.message?, List.filterMap_map, Function.comp_def]
  answers := by simp [step, note, World.answers, Occurrence.answer?, List.filterMap_map, Function.comp_def]

namespace Dispatcher

open World

variable {f : Fleet} {b : Broker} {w : World} {old : List Message} {t : Trial} {d : Dispatcher} {p : Pass}
  {o : Outcome} {task : Task}

theorem logged_afterBatch (d : Dispatcher) (t : Trial) (result : Except OutboxError Report) :
    Trial.Logged t (d.afterBatch t result) := by
  unfold afterBatch
  split
  · exact .refl t
  · split
    · exact .log t _
    · exact .refl t

theorem logged_report (task : Task) (t : Trial) (ending : Except OutboxError Unit) :
    Trial.Logged t (report task t ending) := by
  cases ending with
  | ok => exact .refl t
  | error e => exact .log t _

theorem logged_sweep (sw : Sweep) {time : Instant} (hnow : t.now = some time) :
    Trial.Logged (t.call d.name (sw.call (time.before sw.age))).2 (d.sweep sw t).2 := by
  unfold sweep Sweep.run
  simp only [Trial.patientHost, hnow]
  cases t.call d.name (sw.call (time.before sw.age)) with
  | mk answer u =>
      cases answer with
      | error e => exact .refl u
      | ok n =>
          dsimp only
          split
          · exact .refl u
          · exact .log u _

theorem deliver_works (hs : f.settings 0 = d.settings) (h : w.Pursues f b d.name old p t) :
    ∃ w', Works f w w' ∧ w'.Reached b d.settings (d.deliver p t).1 ∧
      w'.Follows b d.name old (d.deliver p t).2 := by
  obtain ⟨w', hworks, hpass, ha, hanswered, hf⟩ := h
  have hstart : w.Pursues f b d.name old p { t with awaited := none } :=
    ⟨w', hworks, hpass, ha, hanswered, hf.did (.await t none) rfl rfl rfl⟩
  cases hadv : p.advance (Trial.patientHost d.name) d.settings { t with awaited := none } with
  | mk p' t' =>
  obtain ⟨hawaits, hbroken, hover⟩ := deliver_of_advance hadv
  rw [← hs] at hadv
  rcases hstart.advance rfl hadv with
    ⟨hnone, w'', hworks, hpass, ha, hanswered, hf⟩ | ⟨o, w'', ho, hworks, haw, hf⟩
  · cases hr : p'.result? with
    | none =>
        rw [hbroken hnone hr]
        exact ⟨w'', hworks, hanswered, hf⟩
    | some result =>
        obtain ⟨ending, he⟩ := hover result hnone hr
        rw [he]
        refine ⟨w'', hworks, ⟨?_, ha, hanswered⟩, hf.logged (d.logged_afterBatch t' result)⟩
        rw [hpass]
        cases p' with
        | finished => rfl
        | _ => cases hr
  · rw [hawaits o ho]
    exact ⟨w'', hworks, hs ▸ haw, hf⟩

theorem iterate_works (hs : f.settings 0 = d.settings) (h : w.Idle b d.settings)
    (hf : w.Follows b d.name old t) :
    ∃ w', Works f w w' ∧ w'.Reached b d.settings (d.iterate .processor t).1 ∧
      w'.Follows b d.name old (d.iterate .processor t).2 := by
  have hstart : Works f w (w.setPass 0 .opening) := works_start (by rw [hs]; exact h.pass)
  exact deliver_works hs ⟨_, hstart, setPass_pass .., h.awaiting, h.answered, hf.frame rfl rfl⟩

theorem resume_works (hs : f.settings 0 = d.settings) (h : w.Awaits b d.settings p o)
    (hf : w.Follows b d.name old t) :
    ∃ w', Works f w w' ∧ w'.Reached b d.settings (d.resume p o t).1 ∧
      w'.Follows b d.name old (d.resume p o t).2 := by
  have hanswer : w.Pursues f b d.name old (p.receive d.settings o.answer) t := by
    rw [← hs] at h ⊢
    exact .of_answer (.refl w) h hf
  rw [resume, h.silent]
  exact deliver_works hs hanswer

theorem sweep_works (hf : w.Follows b d.name old t) (sw : Sweep) :
    ∃ w', Works f w w' ∧ Unmoved w w' ∧ w'.Follows b d.name old (d.sweep sw t).2 := by
  cases hnow : t.now with
  | none =>
      have he : (d.sweep sw t).2 = t := by simp [sweep, Sweep.run, Trial.patientHost, hnow]
      rw [he]
      exact ⟨w, .refl w, .refl w, hf⟩
  | some time =>
      have hworks : Works f w (w.step f (.sweep sw time none)) :=
        .of_step (a := .sweep sw time none) trivial rfl rfl
      have hunmoved := unmoved_sweep f w sw time
      obtain ⟨-, hstore, hfaults, hbroker⟩ :=
        Trial.call_of_faultless d.name hf.faults (sw.call (time.before sw.age))
      have hdid : Trial.Did d.name _ t (t.call d.name (sw.call (time.before sw.age))).2 := .call t _
      refine ⟨_, hworks, hunmoved, Follows.logged ⟨?_, ?_, hfaults, ?_, ?_⟩ (logged_sweep sw hnow)⟩
      · rw [hstore, ← hf.store]
        exact Store.run_host ..
      · rw [hunmoved.sent, hdid.sent_call]
        exact hf.sent
      · exact hbroker ▸ hf.silent
      · rw [hunmoved.sent, hbroker]
        exact hf.broker

theorem iterate_sweep_works (ht : task ≠ .processor) (hf : w.Follows b d.name old t) :
    ∃ w', Works f w w' ∧ Unmoved w w' ∧ w'.Follows b d.name old (d.iterate task t).2 := by
  cases task with
  | processor => exact absurd rfl ht
  | unlocker | cleaner => exact sweep_works hf _

end Dispatcher

/-! ## Loops -/

namespace Settles

open World

variable {f : Fleet} {b : Broker} {w : World} {old : List Message} {d : Dispatcher} {task : Task} {now : Nat}
  {l l' : Loop Flight} {t t' : Trial}

theorem works (h : Settles d .processor now l t l' t') (hs : f.settings 0 = d.settings)
    (hl : w.Stands b d.settings l) (hf : w.Follows b d.name old t) :
    ∃ w', Works f w w' ∧ w'.Stands b d.settings l' ∧ w'.Follows b d.name old t' := by
  induction h generalizing w with
  | ended | waits | flies => exact ⟨w, .refl w, hl, hf⟩
  | stopped => exact ⟨w, .refl w, hl.answered, hf.logged (.log ..)⟩
  | begins _ hi | breaksOff _ hi =>
      obtain ⟨w', hworks, hreached, hf⟩ := Dispatcher.iterate_works hs hl hf
      rw [hi] at hreached hf
      exact ⟨w', hworks, hreached, hf⟩
  | iterates _ hi _ ih =>
      obtain ⟨w', hworks, hreached, hf⟩ := Dispatcher.iterate_works hs hl hf
      rw [hi] at hreached hf
      obtain ⟨w'', hworks', hl, hf⟩ := ih hreached (hf.logged (Dispatcher.logged_report ..))
      exact ⟨w'', hworks.trans hworks', hl, hf⟩
  | goesOn _ hr | crashes _ hr =>
      obtain ⟨w', hworks, hreached, hf⟩ := Dispatcher.resume_works hs hl hf
      rw [hr] at hreached hf
      exact ⟨w', hworks, hreached, hf⟩
  | lands _ hr _ ih =>
      obtain ⟨w', hworks, hreached, hf⟩ := Dispatcher.resume_works hs hl hf
      rw [hr] at hreached hf
      obtain ⟨w'', hworks', hl, hf⟩ := ih hreached (hf.logged (Dispatcher.logged_report ..))
      exact ⟨w'', hworks.trans hworks', hl, hf⟩

theorem sweep_works (h : Settles d task now l t l' t') (ht : task ≠ .processor) (hl : l.isInFlight = false)
    (hf : w.Follows b d.name old t) : ∃ w', Works f w w' ∧ Unmoved w w' ∧ w'.Follows b d.name old t' := by
  induction h generalizing w with
  | ended | waits => exact ⟨w, .refl w, .refl w, hf⟩
  | stopped => exact ⟨w, .refl w, .refl w, hf.logged (.log ..)⟩
  | begins _ hi | breaksOff _ hi =>
      have hworks := Dispatcher.iterate_sweep_works (f := f) ht hf
      rwa [hi] at hworks
  | iterates _ hi _ ih =>
      obtain ⟨w', hworks, hunmoved, hf⟩ := Dispatcher.iterate_sweep_works (f := f) ht hf
      rw [hi] at hf
      obtain ⟨w'', hworks', hunmoved', hf⟩ := ih rfl (hf.logged (Dispatcher.logged_report ..))
      exact ⟨w'', hworks.trans hworks', hunmoved.trans hunmoved', hf⟩
  | flies | goesOn | crashes | lands => cases hl

end Settles

/-- What the loops do in turn, with log entries in between, is the work of one worker. -/
theorem works_of_settles (f : Fleet) {b : Broker} {w : World} {old : List Message} {d : Dispatcher}
    (d' : Dispatcher) {now : Nat} {t t₀ t₁ u₀ u₁ c₀ t' : Trial} (hs : f.settings 0 = d.settings)
    (hl : w.Stands b d.settings d.processor)
    (hgrounded : ∀ task, task ≠ .processor → (d.loop task).isInFlight = false)
    (hf : w.Follows b d.name old t)
    (hp : Trial.Logged t t₀) (sp : Settles d .processor now d.processor t₀ d'.processor t₁)
    (hu : Trial.Logged t₁ u₀) (su : Settles d .unlocker now d.unlocker u₀ d'.unlocker u₁)
    (hc : Trial.Logged u₁ c₀) (sc : Settles d .cleaner now d.cleaner c₀ d'.cleaner t') :
    ∃ w', World.Works f w w' ∧ w'.Stands b d.settings d'.processor ∧ w'.Follows b d.name old t' := by
  obtain ⟨w₁, hw₁, hl₁, hf₁⟩ := sp.works hs hl (hf.logged hp)
  obtain ⟨w₂, hw₂, hunmoved₂, hf₂⟩ :=
    su.sweep_works (f := f) (nomatch ·) (hgrounded .unlocker (nomatch ·)) (hf₁.logged hu)
  obtain ⟨w₃, hw₃, hunmoved₃, hf₃⟩ :=
    sc.sweep_works (f := f) (nomatch ·) (hgrounded .cleaner (nomatch ·)) (hf₂.logged hc)
  exact ⟨w₃, hw₁.trans (hw₂.trans hw₃), hl₁.frame (hunmoved₂.trans hunmoved₃), hf₃⟩

section Loops

variable {b : Broker} {w : World} {old : List Message} {d : Dispatcher} {t : Trial}

theorem works_settleLoops (f : Fleet) (now : Nat) (hs : f.settings 0 = d.settings)
    (hl : w.Stands b d.settings d.processor)
    (hgrounded : ∀ task, task ≠ .processor → (d.loop task).isInFlight = false)
    (hf : w.Follows b d.name old t) :
    ∃ w', World.Works f w w' ∧ w'.Stands b d.settings (d.settleLoops now t).1.processor ∧
      w'.Follows b d.name old (d.settleLoops now t).2 :=
  works_of_settles f (d.settleLoops now t).1 hs hl hgrounded hf (.refl _) (settles ..) (.refl _) (settles ..)
    (.refl _) (settles ..)

theorem works_startLoops (f : Fleet) (now : Nat) (hs : f.settings 0 = d.settings)
    (hl : w.Stands b d.settings d.processor)
    (hgrounded : ∀ task, task ≠ .processor → (d.loop task).isInFlight = false)
    (hf : w.Follows b d.name old t) :
    ∃ w', World.Works f w w' ∧ w'.Stands b d.settings (d.startLoops now t).1.processor ∧
      w'.Follows b d.name old (d.startLoops now t).2 :=
  works_of_settles f (d.startLoops now t).1 hs hl hgrounded hf (.log ..) (settles ..) (.log ..) (settles ..)
    (.log ..) (settles ..)

end Loops

/-! ## Publications -/

/-- A record is published in a transaction of its own. -/
def publication (r : Record) : List Action :=
  [.begin 0, .publish 0 r.id r.message r.createdOn none, .commit 0]

theorem World.run_publication (f : Fleet) {w : World} {r : Record}
    (hnew : r = .new r.id r.message r.createdOn) (hid : r.id ∉ w.issued) (hstore : w.store.get? r.id = none) :
    w.run f (publication r) =
      { w with
        store := w.store.put r
        issued := r.id :: w.issued
        staged := Function.update w.staged 0 none
        history := .committed r :: w.history } := by
  have hcommit : w.store.commit ⟨[r]⟩ = (.ok (), w.store.put r) := by
    simp [Store.commit, hstore, Store.putAll]
  simp only [run, publication, List.foldl_cons, List.foldl_nil, step, setStaged, Function.update_self, hid,
    if_false, publish, Transaction.tryAdd, Transaction.add, bind, Except.bind, pure, Except.pure,
    List.nil_append, ← hnew, hcommit, Function.update_idem, note, List.map_cons, List.map_nil,
    List.singleton_append]

/-! ## Simulations -/

/-- All workers have the name and the policy of the dispatcher. -/
def Identity.fleet (i : Identity) : Fleet := ⟨fun _ => i.machine, i.config.retrialPolicy⟩

namespace Simulation

/-- Records are published, anyone looks at the store, and time passes. -/
def Step.IsPublic : Step → Prop
  | .access (.insert r) => r = .new r.id r.message r.createdOn
  | .access (.get _) | .access .all | .access .size | .advance _ => True
  | _ => False

def Step.newIds : Step → List RecordId
  | .access (.insert r) => [r.id]
  | _ => []

theorem performAll_append (s : Simulation) (ks ks' : List Step) :
    s.performAll (ks ++ ks') = (s.performAll ks).performAll ks' := List.foldl_append

/-- Worker 0 has done what the only dispatcher has done. -/
structure Matches (b : Broker) (i : Identity) (w : World) (s : Simulation) (r : Running) : Prop where
  store : w.store = s.store
  sent : w.sent = s.sent i.name
  faults : r.dispatcher.faults = []
  silent : r.dispatcher.broker.Silent
  broker : r.dispatcher.broker = b.after w.sent
  stands : w.Stands b i.settings r.dispatcher.processor

variable {b : Broker} {i : Identity} {signal : StopSignal} {s : Simulation} {r : Running} {w : World}

theorem sent_afterVisit (name : String) (r : Running) (t : Trial) :
    (s.afterVisit r t).sent name = s.sent name ++ t.sent name := by
  rw [sent, deeds_afterVisit_eq, List.filterMap_append]
  simp [sent, Trial.sent, stampedAt, List.filterMap_map]

namespace Matches

theorem shows (h : Matches b i w s r) : w.Shows b i.name s := ⟨h.store, h.sent, h.stands.answers_prefix⟩

theorem afterVisit {t : Trial} (hf : w.Follows b i.name (s.sent i.name) t)
    (hstands : w.Stands b i.settings r.dispatcher.processor) (hfaults : r.dispatcher.faults = t.faults)
    (hbroker : r.dispatcher.broker = t.broker) : Matches b i w (s.afterVisit r t) (attend r t).1 := by
  obtain ⟨hdispatcher, -, hlog⟩ := attend_spec r t
  have hstore : (s.afterVisit r t).store = t.store := hlog.store
  refine ⟨hf.store.trans hstore.symm, hf.sent.trans (sent_afterVisit ..).symm, ?_, ?_, ?_, ?_⟩
  all_goals rw [hdispatcher]
  · exact hfaults.trans hf.faults
  · exact hbroker ▸ hf.silent
  · exact hbroker.trans hf.broker
  · exact hstands

theorem settle (h : Matches b i w s r) (hr : s.running = [r]) (hi : r.dispatcher.identity = i)
    (hgrounded : ∀ task, task ≠ .processor → (r.dispatcher.loop task).isInFlight = false) :
    ∃ w', World.Works i.fleet w w' ∧ Matches b i w' s.settle (s.visit r) := by
  subst hi
  have hf : w.Follows b r.dispatcher.name (s.sent r.dispatcher.name) (r.dispatcher.trial s.store s.now) :=
    ⟨h.store, h.sent.trans (List.append_nil _).symm, h.faults, h.silent, h.broker⟩
  obtain ⟨w', hworks, hstands, hf'⟩ :=
    works_settleLoops r.dispatcher.identity.fleet s.time rfl h.stands hgrounded hf
  rw [settle_eq_afterVisit hr]
  exact ⟨w', hworks, .afterVisit hf' hstands rfl rfl⟩

theorem atTime (h : Matches b i w s r) (time : Nat) : Matches b i w (s.atTime time) r :=
  ⟨h.store, h.sent, h.faults, h.silent, h.broker, h.stands⟩

theorem advanceTo {target : Nat} (h : Matches b i w s r) (hk : Keeps i signal s r) (hle : s.time ≤ target) :
    ∃ w' r', World.Works i.fleet w w' ∧ Keeps i signal (s.advanceTo target) r' ∧
      Matches b i w' (s.advanceTo target) r' := by
  refine advanceTo_induction
    (P := fun s => ∃ w' r', World.Works i.fleet w w' ∧ Keeps i signal s r' ∧ Matches b i w' s r')
    (fun {s v} _ _ _ ⟨w', r', hworks, hk, h⟩ => ?_) (fun {s} _ hwake ⟨w', r', hworks, hk, h⟩ => ?_) hle
    ⟨w, r, .refl w, hk, h⟩
  · obtain ⟨w'', hworks', h⟩ := (h.atTime v).settle hk.running hk.identity hk.poised.grounded
    exact ⟨w'', _, hworks.trans hworks', hk.wakes v, h⟩
  · exact ⟨w', r', hworks, hk.atTime hwake, h.atTime target⟩

theorem publish (h : Matches b i w s r) {v : Record} (hid : v.id ∉ w.issued) (hstore : w.store.get? v.id = none)
    (hnew : v = .new v.id v.message v.createdOn) :
    Matches b i (w.run i.fleet (publication v)) { s with store := s.store.put v } r := by
  rw [World.run_publication i.fleet hnew hid hstore]
  refine ⟨congrArg (·.put v) h.store, h.sent, h.faults, h.silent, h.broker, ?_⟩
  exact h.stands.frame ⟨rfl, rfl, rfl, rfl⟩

/-- Publishers do their part, and the worker that of the dispatcher. -/
theorem perform (h : Matches b i w s r) (hk : Keeps i signal s r) (hf : Fresh w) {k : Step}
    (hpublic : k.IsPublic) (hnew : ∀ id ∈ k.newIds, id ∉ w.issued) :
    ∃ as r', (∀ a ∈ as, a.IsLone) ∧ (w.run i.fleet as).issued = k.newIds ++ w.issued ∧
      Keeps i signal (s.perform k).2 r' ∧ Matches b i (w.run i.fleet as) (s.perform k).2 r' := by
  cases k with
  | access a =>
      cases a with
      | insert v =>
          have hid : v.id ∉ w.issued := hnew _ (List.mem_singleton_self _)
          have hstore : w.store.get? v.id = none := by
            by_contra hsome
            obtain ⟨u, hu, he⟩ := hf.stored_committed (Option.isSome_iff_ne_none.2 hsome)
            exact hid (he ▸ hf.committed_issued hu)
          refine ⟨publication v, r, by simp [publication, Action.IsLone], ?_, ?_, h.publish hid hstore hpublic⟩
          · rw [World.run_publication i.fleet hpublic hid hstore]
            rfl
          · exact ⟨hk.running, hk.identity, hk.signal, hk.poised⟩
      | get | all | size => exact ⟨[], r, List.forall_mem_nil _, rfl, hk, h⟩
      | call => exact hpublic.elim
  | advance n =>
      obtain ⟨w', r', ⟨as, hok, rfl, hi⟩, hk, h⟩ := h.advanceTo hk s.timer.le_wake
      exact ⟨as, r', hok, hi, hk, h⟩
  | start | signal | drop | finished | join => exact hpublic.elim

theorem performAll {ks : List Step} (h : Matches b i w s r) (hk : Keeps i signal s r) (hf : Fresh w)
    (hpublic : ∀ k ∈ ks, k.IsPublic) (hnew : (w.issued ++ ks.flatMap Step.newIds).Nodup) :
    ∃ as r', (∀ a ∈ as, a.IsLone) ∧ (w.run i.fleet as).issued.Perm (w.issued ++ ks.flatMap Step.newIds) ∧
      Keeps i signal (s.performAll ks) r' ∧ Matches b i (w.run i.fleet as) (s.performAll ks) r' := by
  induction ks generalizing s r w with
  | nil => exact ⟨[], r, List.forall_mem_nil _, by simp [World.run], hk, h⟩
  | cons k ks ih =>
      obtain ⟨hkp, hpublic⟩ := List.forall_mem_cons.1 hpublic
      rw [List.flatMap_cons] at hnew ⊢
      have hfirst : ∀ id ∈ k.newIds, id ∉ w.issued := fun id hid hold =>
        (List.nodup_append.1 hnew).2.2 id hold id (List.mem_append_left _ hid) rfl
      obtain ⟨as, r', hok, hissued, hk, h⟩ := h.perform hk hf hkp hfirst
      have hperm : ((w.run i.fleet as).issued ++ ks.flatMap Step.newIds).Perm
          (w.issued ++ (k.newIds ++ ks.flatMap Step.newIds)) := by
        rw [hissued, ← List.append_assoc]
        exact List.perm_append_comm.append_right _
      have hf : Fresh (w.run i.fleet as) :=
        World.run_induction (fun hs _ h => h.step hs) (World.along_true ..) hf
      obtain ⟨bs, r'', hok', hissued', hk, h⟩ := ih h hk hf hpublic (hperm.nodup_iff.2 hnew)
      rw [← World.run_append] at hissued' h
      exact ⟨as ++ bs, r'', List.forall_mem_append.2 ⟨hok, hok'⟩, hissued'.trans hperm, hk, h⟩

end Matches

end Simulation

/-! ## From the start -/

namespace Opening

open Simulation

variable {o : Opening}

theorem plan_of_dispatcher? {d : Dispatcher}
    (hd : o.fresh.dispatcher? o.name o.machine o.config o.clock o.faults o.broker = .ok d) :
    d.faults = o.faults ∧ d.broker = o.broker := by
  unfold dispatcher? at hd
  split at hd
  · cases hd
  · cases hd
    exact ⟨rfl, rfl⟩

theorem start_sent (s : Store) : (World.start s).sent = [] := by
  simp [World.sent, World.start, Occurrence.message?, List.filterMap_map, Function.comp_def]

theorem start_answers (s : Store) : (World.start s).answers = [] := by
  simp [World.answers, World.start, Occurrence.answer?, List.filterMap_map, Function.comp_def]

theorem matches_start {d : Dispatcher} (hi : d.identity = o.identity) (hfaults : d.faults = [])
    (hbroker : d.broker = o.broker) (hsilent : o.broker.Silent)
    (hloop : ∀ task, ∃ ticker, d.loop task = .waiting ticker) :
    ∃ w r, World.Works o.identity.fleet (.start o.store) w ∧ (o.fresh.start d o.mode).running = [r] ∧
      r.dispatcher = (d.startLoops o.time (o.trial d)).1 ∧
      Matches o.broker o.identity w (o.fresh.start d o.mode) r := by
  have hf : (World.start o.store).Follows o.broker d.name [] (o.trial d) := by
    have hplain : (World.start o.store).Follows o.broker d.name [] (d.trial o.fresh.store o.fresh.now) := by
      refine ⟨rfl, start_sent _, hfaults, by show d.broker.Silent; rw [hbroker]; exact hsilent, ?_⟩
      rw [start_sent]
      exact hbroker
    unfold trial
    split
    · exact hplain
    · exact hplain.logged (.log ..)
  have hl : (World.start o.store).Stands o.broker d.settings d.processor := by
    obtain ⟨ticker, hl⟩ : ∃ ticker, d.processor = .waiting ticker := hloop .processor
    rw [hl]
    refine ⟨rfl, rfl, ?_⟩
    rw [World.Answered, start_answers, start_sent]
    rfl
  have hgrounded : ∀ task, task ≠ .processor → (d.loop task).isInFlight = false := by
    intro task _
    obtain ⟨ticker, hl⟩ := hloop task
    rw [hl]
    rfl
  rw [← hi]
  obtain ⟨w, hworks, hstands, hf⟩ := works_startLoops d.identity.fleet o.time rfl hl hgrounded hf
  exact ⟨w, _, hworks, rfl, (attend_spec ..).1, .afterVisit (s := o.fresh) hf hstands rfl rfl⟩

theorem matches_begun (hc : o.config.validate = .ok ()) (initial : Bool) (hfaults : o.faults = [])
    (hsilent : o.broker.Silent) :
    ∃ w r, World.Works o.identity.fleet (.start o.store) w ∧
      Keeps o.identity ⟨initial, false⟩ (o.begun initial) r ∧
      Matches o.broker o.identity w (o.begun initial) r := by
  obtain ⟨d, hd, hi, hloop⟩ := dispatcher?_eq hc
  obtain ⟨hdfaults, hdbroker⟩ := plan_of_dispatcher? hd
  obtain ⟨r, hkeeps, -⟩ := keeps_begun hc initial
  rw [begun_of_dispatcher? initial hd] at hkeeps ⊢
  have hwaiting : ∀ task, ∃ ticker,
      Dispatcher.loop { d with signal := { value := initial } } task = .waiting ticker := by
    intro task
    obtain ⟨hpos, hl⟩ := hloop task
    cases task with
    | processor | unlocker | cleaner => exact ⟨_, hl⟩
  obtain ⟨w, r₀, hworks, hr₀, hdispatcher, hmatches⟩ :=
    matches_start (d := { d with signal := { value := initial } }) hi (hdfaults.trans hfaults) hdbroker hsilent
      hwaiting
  have hgrounded : ∀ task, task ≠ .processor → (r₀.dispatcher.loop task).isInFlight = false := by
    rw [hdispatcher]
    exact (Dispatcher.poised_startLoops hwaiting).grounded
  obtain ⟨w', hworks', hmatches'⟩ := hmatches.settle hr₀ (by rw [hdispatcher]; exact hi) hgrounded
  have hrunning := hkeeps.running
  rw [settle_eq_afterVisit hr₀] at hrunning
  cases hrunning
  exact ⟨w', _, hworks.trans hworks', hkeeps, hmatches'⟩

/-- Whatever a dispatcher does in a simulation while records are published, a worker on its own can do, with
the same store at each moment, the same messages and the same answers. -/
theorem worksAlone (o : Opening) (initial : Bool) {ks ks' : List Simulation.Step}
    (hc : o.config.validate = .ok ()) (hfaults : o.faults = []) (hsilent : o.broker.Silent)
    (hpublic : ∀ k ∈ ks ++ ks', k.IsPublic)
    (hnew : (o.store.records.map Record.id ++ (ks ++ ks').flatMap Step.newIds).Nodup) :
    ∃ as as' : List Action, (∀ a ∈ as ++ as', a.IsLone) ∧
      ((World.start o.store).run o.identity.fleet as).Shows o.broker o.name
        ((o.begun initial).performAll ks) ∧
      ((World.start o.store).run o.identity.fleet (as ++ as')).Shows o.broker o.name
        ((o.begun initial).performAll (ks ++ ks')) := by
  obtain ⟨w, r, ⟨bs, hbs, rfl, hissued⟩, hk, h⟩ := matches_begun hc initial hfaults hsilent
  obtain ⟨hks, hks'⟩ := List.forall_mem_append.1 hpublic
  have fresh : ∀ cs, Fresh ((World.start o.store).run o.identity.fleet cs) := .run o.store
  have hids : ((World.start o.store).run o.identity.fleet bs).issued = o.store.records.map Record.id := hissued
  rw [List.flatMap_append, ← hids, ← List.append_assoc] at hnew
  obtain ⟨as, r', has, hperm, hk', h'⟩ := h.performAll hk (fresh _) hks (List.nodup_append.1 hnew).1
  have hnew' := (hperm.append_right (ks'.flatMap Step.newIds)).nodup_iff.2 hnew
  rw [← World.run_append] at h' hnew'
  obtain ⟨as', r'', has', -, -, h''⟩ := h'.performAll hk' (fresh _) hks' hnew'
  rw [← World.run_append, ← performAll_append] at h''
  refine ⟨bs ++ as, as', ?_, h'.shows, h''.shows⟩
  exact List.forall_mem_append.2 ⟨List.forall_mem_append.2 ⟨hbs, has⟩, has'⟩

/-- A dispatcher does no harm to itself by its sweeps: a worker on its own does none, however soon the sweeps
come, whatever the broker answers and however long it takes, and whoever publishes; and what the dispatcher
does in a simulation, such a worker does. -/
theorem sweeps_do_no_harm (o : Opening) (hc : o.config.validate = .ok ())
    (hstore : ∀ v ∈ o.store.records, v.lock = none ∨ v.state = .pending) :
    (∀ as : List Action, (∀ a ∈ as, a.IsLone) →
        (as.scanl (World.step o.identity.fleet) (.start o.store)).Pairwise World.Unharmed ∧
          ∀ id, ((World.start o.store).run o.identity.fleet as).acceptances id ≤ 1) ∧
      ∀ (initial : Bool) (ks ks' : List Simulation.Step), o.faults = [] → o.broker.Silent →
        (∀ k ∈ ks ++ ks', k.IsPublic) →
        (o.store.records.map Record.id ++ (ks ++ ks').flatMap Step.newIds).Nodup →
        ∃ as as' : List Action, (∀ a ∈ as ++ as', a.IsLone) ∧
          ((World.start o.store).run o.identity.fleet as).Shows o.broker o.name
            ((o.begun initial).performAll ks) ∧
          ((World.start o.store).run o.identity.fleet (as ++ as')).Shows o.broker o.name
            ((o.begun initial).performAll (ks ++ ks')) :=
  ⟨fun _ => World.run_unharmed o.identity.fleet hstore, fun initial _ _ => worksAlone o initial hc⟩

/-- A record that somebody else locked and left behind. -/
def leftLocked (id : RecordId) (t : Instant) : Store :=
  Store.empty.put { Record.new id default default with lock := some ⟨⟨"gone"⟩, t⟩ }

/-- Locks are released while the broker has the message, which it refuses, and again while it has it the
second time. The abandoned record is deleted while it is sent. -/
def undermined (id : RecordId) (t t' : Instant) : List Action :=
  [.begin 0, .publish 0 id default default none, .commit 0,
    .start 0, .read 0 default, .call 0 none, .call 0 none, .read 0 t, .handOver 0,
    .sweep (.unlocking 0) t none, .answer 0 (.error { message := "nack" }), .call 0 none, .call 0 none,
    .start 0, .read 0 t, .call 0 none, .call 0 none, .read 0 t, .handOver 0,
    .sweep (.unlocking 0) t' none, .answer 0 (.ok ()), .read 0 t', .call 0 none, .call 0 none,
    .start 0, .read 0 t', .call 0 none, .call 0 none, .read 0 t', .handOver 0,
    .sweep (.cleaning 0 false) t' none, .answer 0 (.ok ()), .read 0 t', .call 0 none, .call 0 none]

/-- The dispatcher whose broker is slow finds such a record. -/
def undermining (t : Instant) : Opening := { slow with store := leftLocked (.nth 2) t }

theorem sweeps_do_no_harm_undermining :
    let t : Instant := ⟨1, by decide, by decide⟩
    let o : Opening := undermining t
    let as : List Action := undermined (.nth 1) t ⟨2, by decide, by decide⟩
    o.config.validate = .ok () ∧ (∀ v ∈ o.store.records, v.lock = none ∨ v.state = .pending) ∧
      (∀ a ∈ as, a.IsLone) ∧
      ((as.scanl (World.step o.identity.fleet) (.start o.store)).Pairwise World.Unharmed ∧
        ∀ id, ((World.start o.store).run o.identity.fleet as).acceptances id ≤ 1) ∧
      ((World.start o.store).run o.identity.fleet as).keptSends (.nth 1) = 2 ∧
      ((World.start o.store).run o.identity.fleet as).keptSends (.nth 2) = 0 ∧
      ((World.start o.store).run o.identity.fleet as).acceptances (.nth 2) = 1 ∧
      ∃ bs bs' : List Action, (∀ a ∈ bs ++ bs', a.IsLone) ∧
        ((World.start o.store).run o.identity.fleet bs).Shows o.broker o.name
          ((o.begun false).performAll [.advance 100]) ∧
        ((World.start o.store).run o.identity.fleet (bs ++ bs')).Shows o.broker o.name
          ((o.begun false).performAll [.advance 100, .advance 4000]) := by
  intro t o as
  have hc : o.config.validate = .ok () := rfl
  have hstore : ∀ v ∈ o.store.records, v.lock = none ∨ v.state = .pending := by decide
  have hok : ∀ a ∈ as, a.IsLone := by simp [as, undermined, Action.IsLone]
  obtain ⟨hlone, hsimulated⟩ := sweeps_do_no_harm o hc hstore
  refine ⟨hc, hstore, hok, hlone as hok, by decide +kernel, by decide +kernel, by decide +kernel, ?_⟩
  exact hsimulated false [.advance 100] [.advance 4000] rfl ⟨rfl, List.forall_mem_nil _⟩
    (by simp [Step.IsPublic]) (by decide)

end Opening

end Outbox

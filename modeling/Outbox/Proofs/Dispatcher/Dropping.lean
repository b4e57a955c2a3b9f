import Outbox.Proofs.Dispatcher.Modes

/-!
# Senders that are dropped

A dispatcher that nobody can stop any more, beside the same dispatcher told to stop at that time: they do the
same unless an iteration that was in flight ends when the next is due already, and the loop goes on.
-/

namespace Outbox

theorem eq_of_append_cons {α : Type} {xs ys zs : List α} {a b : α} (h : xs ++ a :: zs = ys ++ b :: zs) :
    a = b := by
  have hlast : (xs ++ [a]) ++ zs = (ys ++ [b]) ++ zs := by simpa using h
  simpa using congrArg List.getLast? (List.append_cancel_right hlast)

/-! ## Who reports that a loop has stopped -/

/-- A loop has stopped. -/
abbrev Event.stopOf (task : Task) : Event := .log (.taskStopped task)

namespace Trial

variable {task : Task} {t : Trial} {name : String}

theorem stop_of_log {e : LogEntry} (he : e ≠ .taskStopped task) (h : .stopOf task ∈ (t.log e).seen) :
    .stopOf task ∈ t.seen := by
  rcases List.mem_cons.1 h with h | h
  · cases h
    exact absurd rfl he
  · exact h

theorem stop_of_foldl_log {es : List LogEntry} (he : ∀ e ∈ es, e ≠ .taskStopped task)
    (h : .stopOf task ∈ (es.foldl log t).seen) : .stopOf task ∈ t.seen := by
  induction es generalizing t with
  | nil => exact h
  | cons e es ih =>
      obtain ⟨he, hes⟩ := List.forall_mem_cons.1 he
      exact stop_of_log he (ih hes h)

theorem stop_of_foldl_effect {as : List Access} (h : .stopOf task ∈ (as.foldl effect t).seen) :
    .stopOf task ∈ t.seen := by
  induction as generalizing t with
  | nil => exact h
  | cons a as ih =>
      rcases List.mem_cons.1 (ih h) with h | h
      · cases h
      · exact h

theorem stop_of_call {a : Answer} {c : Call a} (h : .stopOf task ∈ (t.call name c).2.seen) :
    .stopOf task ∈ t.seen := by
  unfold call at h
  split at h
  · rcases List.mem_cons.1 h with h | h
    · cases h
    · exact h
  · rcases List.mem_cons.1 h with h | h
    · cases h
    · exact h

theorem stop_of_handOver {m : Message} (h : .stopOf task ∈ (t.handOver name m).2.seen) :
    .stopOf task ∈ t.seen := by
  have hentries : ∀ e ∈ (t.broker.take m).2.1, e ≠ .taskStopped task := by
    cases t.broker with
    | scripted s => exact fun e he => nomatch he
    | logging sent => exact List.forall_mem_singleton.2 (nomatch ·)
  rcases List.mem_cons.1 (stop_of_foldl_log hentries h) with h | h
  · cases h
  · exact h

theorem stop_of_sendOrWait (t : Trial) (name : String) (m : Message)
    (h : .stopOf task ∈ (t.sendOrWait name m).2.seen) :
    .stopOf task ∈ t.seen := by
  rcases sendOrWait_cases t m with ⟨-, he⟩ | he
  · rw [he] at h
    exact stop_of_handOver h
  · rw [he] at h
    exact stop_of_handOver (stop_of_foldl_effect h)

end Trial

namespace Pass

variable {s : Settings} {p : Pass} {task : Task}

/-- What a pass logs is about records and locks. -/
theorem ne_stop_of_next {a : Answer} {c : Call a} {resume : Except OutboxError a.Val → Pass × List LogEntry}
    (hp : p.next s = some (.call c resume)) (answer : Except OutboxError a.Val) :
    ∀ e ∈ (resume answer).2, e ≠ .taskStopped task := by
  cases p with
  | claiming => cases hp; exact fun e he => nomatch he
  | fetching => cases hp; cases answer <;> simp [fetched]
  | saving report r failure rest =>
      cases hp
      unfold saved
      split
      · simp
      · split <;> simp
      · simp
  | releasing =>
      cases hp
      unfold released
      split
      · split <;> simp
      · simp
  | _ => cases hp

theorem stop_of_advance {name : String} {t : Trial}
    (h : .stopOf task ∈ (p.advance (Trial.patientHost name) s t).2.seen) : .stopOf task ∈ t.seen := by
  obtain ⟨u, hu, hstop⟩ := advance_induction (h := Trial.patientHost name) (s := s) (p := p)
    (P := fun _ u => .stopOf task ∈ u.seen → .stopOf task ∈ t.seen) (fun _ _ h => h)
    (fun {p u a c resume} hp ih h => ih (Trial.stop_of_call
      (Trial.stop_of_foldl_log (ne_stop_of_next hp _) h)))
    (fun {p u m resume a u'} _ ha ih h => by
      have hs : u.sendOrWait name m = (some a, u') := ha
      refine ih (Trial.stop_of_sendOrWait u name m ?_)
      rwa [hs])
    (w := t) id
  cases hstop with
  | ended | timeless => exact hu h
  | @unanswered m resume u' _ ha =>
      have hs : u.sendOrWait name m = (none, _) := ha
      refine hu (Trial.stop_of_sendOrWait u name m ?_)
      rwa [hs]

end Pass

namespace Dispatcher

variable {d : Dispatcher} {task task' : Task} {p : Pass} {t : Trial}

theorem stop_of_deliver (h : .stopOf task ∈ (d.deliver p t).2.seen) : .stopOf task ∈ t.seen := by
  cases hadv : p.advance (Trial.patientHost d.name) d.settings { t with awaited := none } with
  | mk q u =>
  have hu : .stopOf task ∈ u.seen → .stopOf task ∈ t.seen := by
    intro hu
    have hstop : .stopOf task ∈
        (p.advance (Trial.patientHost d.name) d.settings { t with awaited := none }).2.seen := by
      rwa [hadv]
    exact Pass.stop_of_advance (t := { t with awaited := none }) hstop
  obtain ⟨hawaits, hbroken, hover⟩ := deliver_of_advance hadv
  cases ha : u.awaited with
  | some o => rw [hawaits o ha] at h; exact hu h
  | none =>
      cases hr : q.result? with
      | none => rw [hbroken ha hr] at h; exact hu h
      | some result =>
          obtain ⟨ending, he⟩ := hover result ha hr
          rw [he] at h
          refine hu ?_
          cases result with
          | error e => exact h
          | ok report =>
              unfold afterBatch at h
              dsimp only at h
              split at h
              · exact Trial.stop_of_log (e := .batchDelivered ..) (nomatch ·) h
              · exact h

theorem stop_of_sweep {s : Sweep} (h : .stopOf task ∈ (d.sweep s t).2.seen) : .stopOf task ∈ t.seen := by
  unfold sweep Sweep.run at h
  cases ht : t.now with
  | none =>
      simp only [Trial.patientHost, ht] at h
      exact h
  | some time =>
      simp only [Trial.patientHost, ht] at h
      have hcall : .stopOf task ∈ (t.call d.name (s.call (time.before s.age))).2.seen → .stopOf task ∈ t.seen :=
        Trial.stop_of_call
      revert h hcall
      cases t.call d.name (s.call (time.before s.age)) with
      | mk answer u =>
          intro h hcall
          cases answer with
          | error e => exact hcall h
          | ok n =>
              dsimp only at h
              split at h
              · exact hcall h
              · refine hcall (Trial.stop_of_log ?_ h)
                cases s <;> rintro ⟨⟩

theorem stop_of_iterate (d : Dispatcher) (task' : Task) (h : .stopOf task ∈ (d.iterate task' t).2.seen) :
    .stopOf task ∈ t.seen := by
  cases task' with
  | processor => exact stop_of_deliver h
  | unlocker | cleaner => exact stop_of_sweep h

theorem stop_of_resume {o : Outcome} (h : .stopOf task ∈ (d.resume p o t).2.seen) : .stopOf task ∈ t.seen :=
  Trial.stop_of_foldl_effect (stop_of_deliver h)

theorem stop_of_report {ending : Except OutboxError Unit} (h : .stopOf task ∈ (report task' t ending).seen) :
    .stopOf task ∈ t.seen := by
  cases ending with
  | ok => exact h
  | error e => exact Trial.stop_of_log (e := .iterationFailed ..) (nomatch ·) h

end Dispatcher

theorem Loop.signal_of_stop {signal : StopSignal} {lingers : Bool} {ticker : Ticker} {now : Nat}
    (hc : choose signal lingers ticker now = .stop) : (signal.value || signal.dropped) = true := by
  cases hd : signal.dropped with
  | true => exact Bool.or_true _
  | false => rw [value_of_stop hd hc, Bool.true_or]

/-- A loop reports that it has stopped only when it has, and was to. -/
theorem Settles.stop {d : Dispatcher} {task task' : Task} {now : Nat} {l l' : Loop Flight} {t t' : Trial}
    (h : Settles d task' now l t l' t') (hstop : .stopOf task ∈ t'.seen) :
    .stopOf task ∈ t.seen ∨ task = task' ∧ l' = .ended ∧ (d.signal.value || d.signal.dropped) = true := by
  induction h with
  | ended | waits | flies => exact Or.inl hstop
  | @stopped ticker t hc =>
      rcases List.mem_cons.1 hstop with he | hold
      · cases he
        exact Or.inr ⟨rfl, rfl, Loop.signal_of_stop hc⟩
      · exact Or.inl hold
  | begins _ hi | breaksOff _ hi =>
      refine Or.inl (d.stop_of_iterate task' ?_)
      rwa [hi]
  | iterates _ hi _ ih =>
      refine (ih hstop).imp_left fun h => d.stop_of_iterate task' ?_
      rw [hi]
      exact Dispatcher.stop_of_report h
  | @goesOn ticker p o wake t p' o' t' _ hr =>
      refine Or.inl (Dispatcher.stop_of_resume (d := d) (p := p) (o := o) ?_)
      rwa [hr]
  | @crashes ticker p o wake t t' _ hr =>
      refine Or.inl (Dispatcher.stop_of_resume (d := d) (p := p) (o := o) ?_)
      rwa [hr]
  | @lands ticker p o wake t ending t' l u _ hr _ ih =>
      refine (ih hstop).imp_left fun h => Dispatcher.stop_of_resume (d := d) (p := p) (o := o) ?_
      rw [hr]
      exact Dispatcher.stop_of_report h

/-! ## What an iteration shows -/

namespace Dispatcher

variable {d : Dispatcher} {task : Task} {t : Trial}

theorem seen_report (task : Task) (t : Trial) (ending : Except OutboxError Unit) :
    ∃ es, (report task t ending).seen = es ++ t.seen := by
  cases ending with
  | ok => exact ⟨[], rfl⟩
  | error e => exact ⟨[_], rfl⟩

/-- A delivery without the time breaks off before it does anything. -/
theorem iterate_of_timeless (d : Dispatcher) (h : t.now = none) :
    d.iterate .processor t = (.over none, { t with awaited := none }) := by
  show d.deliver .opening t = _
  have hadvance := Pass.advance_timeless (h := Trial.patientHost d.name) (s := d.settings) (p := .opening)
    (w := { t with awaited := none }) rfl h
  exact (deliver_of_advance hadvance).2.1 rfl rfl

theorem seen_afterBatch (d : Dispatcher) (t : Trial) (result : Except OutboxError Report) :
    ∃ es, (d.afterBatch t result).seen = es ++ t.seen := by
  cases result with
  | error e => exact ⟨[], rfl⟩
  | ok report =>
      unfold afterBatch
      dsimp only
      split
      · exact ⟨[_], rfl⟩
      · exact ⟨[], rfl⟩

/-- A delivery begins with a call. -/
theorem seen_iterate_of_timed (d : Dispatcher) {now : Instant} (h : t.now = some now) :
    ∃ es result, (d.iterate .processor t).2.seen =
      es ++ .call d.name (.claim d.machine now .pending) result :: t.seen := by
  have hcall : ∀ u : Trial, (u.call d.name (.claim d.machine now .pending)).2.seen =
      .call d.name (.claim d.machine now .pending) (u.call d.name (.claim d.machine now .pending)).1 ::
        u.seen := by
    intro u
    unfold Trial.call
    split <;> rfl
  have hopening := Pass.advance_now (h := Trial.patientHost d.name) (s := d.settings) (p := .opening)
    (w := { t with awaited := none }) rfl h
  rw [Pass.advance_call (p := .claiming now) rfl] at hopening
  -- From the claim on the pass only adds to what was seen.
  obtain ⟨es, hes⟩ := Trial.seen_of_since
    (fun es => Pass.advance_blind (Trial.patientHost_blind d.name es) d.settings _)
    (({ t with awaited := none } : Trial).call d.name (.claim d.machine now .pending)).2
  rw [hcall] at hes
  show ∃ es result, (d.deliver .opening t).2.seen = _
  cases hadv : Pass.opening.advance (Trial.patientHost d.name) d.settings { t with awaited := none } with
  | mk p u =>
  rw [hadv] at hopening
  have hu : u.seen = _ := (congrArg (fun x => x.2.seen) hopening).trans hes
  obtain ⟨hawaits, hbroken, hover⟩ := deliver_of_advance hadv
  cases ha : u.awaited with
  | some o => rw [hawaits o ha]; exact ⟨es, _, hu⟩
  | none =>
      cases hr : p.result? with
      | none => rw [hbroken ha hr]; exact ⟨es, _, hu⟩
      | some result =>
          obtain ⟨ending, he⟩ := hover result ha hr
          obtain ⟨es', hes'⟩ := d.seen_afterBatch u result
          rw [he]
          exact ⟨es' ++ es, _, hes'.trans (by rw [hu, List.append_assoc])⟩

end Dispatcher

/-- A loop that goes on goes on from what the iteration comes to. -/
theorem Settles.seen_of_iterate {d : Dispatcher} {task : Task} {now : Nat} {ticker : Ticker} {l' : Loop Flight}
    {t t' : Trial} (h : Settles d task now (.waiting ticker) t l' t')
    (hc : Loop.choose d.signal (d.lingers task now) ticker now = .iterate) :
    ∃ es, t'.seen = es ++ (d.iterate task t).2.seen := by
  cases h with
  | stopped hc' | waits hc' => cases hc.symm.trans hc'
  | begins _ hi | breaksOff _ hi =>
      rw [hi]
      exact ⟨[], rfl⟩
  | @iterates _ _ ending t₁ _ _ _ hi hs =>
      obtain ⟨es, hreport⟩ := Dispatcher.seen_report task t₁ ending
      obtain ⟨es', hsettle⟩ := Trial.seen_of_since
        (fun es => d.settleLoop_since task now (.waiting (ticker.take now)) es)
        (Dispatcher.report task t₁ ending)
      rw [hs.eq, hreport] at hsettle
      rw [hi]
      exact ⟨es' ++ es, hsettle.trans (List.append_assoc ..).symm⟩

theorem Settles.of_timeless {d : Dispatcher} {now : Nat} {ticker : Ticker} {l' : Loop Flight} {t t' : Trial}
    (h : Settles d .processor now (.waiting ticker) t l' t')
    (hc : Loop.choose d.signal (d.lingers .processor now) ticker now = .iterate) (ht : t.now = none) :
    l' = .ended ∧ t'.seen = t.seen := by
  have hbroken := d.iterate_of_timeless ht
  cases h with
  | stopped hc' | waits hc' => cases hc.symm.trans hc'
  | begins _ hi | iterates _ hi => cases hi.symm.trans hbroken
  | breaksOff _ hi =>
      cases hi.symm.trans hbroken
      exact ⟨rfl, rfl⟩

/-! ## Nobody is left -/

/-- When a loop waits for its next tick, or will. -/
def Loop.ticker? : Loop Flight → Option Ticker
  | waiting ticker | inFlight ticker _ _ => some ticker
  | ended => none

namespace Dispatcher

/-- The same, if nobody is left who could stop it, and the loops go on by `choice`. -/
def abandoned (choice : Task → Nat → Bool) (d : Dispatcher) : Dispatcher :=
  { d with signal := { dropped := true }, lingers := choice }

end Dispatcher

section Abandoned

variable {choice : Task → Nat → Bool} {d : Dispatcher} {task : Task} {now : Nat} {l l' : Loop Flight} {t t' : Trial}

/-- A loop that nobody can stop any more does what it does if it is told to stop, unless it comes to wait for
a tick that is due, and goes on. -/
theorem Settles.abandoned (h : Settles d task now l t l' t') (hv : d.signal.value = true)
    (hc : ∀ ticker ∈ l.ticker?, ticker.due ≤ now → .stopOf task ∈ t'.seen → choice task now = false) :
    Settles (d.abandoned choice) task now l t l' t' := by
  induction h with
  | ended => exact .ended
  | @stopped ticker t _ =>
      refine .stopped ?_
      have hc : ticker.due ≤ now → choice task now = false := fun hdue => hc ticker rfl hdue List.mem_cons_self
      show Loop.choose { dropped := true } (choice task now) ticker now = .stop
      unfold Loop.choose
      rw [if_neg Bool.false_ne_true]
      split
      · rename_i hdue
        rw [hc hdue]
        rfl
      · rfl
  | waits hw => cases (if_pos hv).symm.trans hw
  | begins hw | breaksOff hw | iterates hw => cases (if_pos hv).symm.trans hw
  | flies hw => exact .flies hw
  | goesOn hw hr => exact .goesOn hw hr
  | crashes hw hr => exact .crashes hw hr
  | lands hw hr _ ih => exact .lands hw hr (ih hc)

/-- Once it is told to stop, no other tick is waited for. -/
theorem Settles.ticker?_eq (h : Settles d task now l t l' t') (hv : d.signal.value = true) {ticker : Ticker}
    (hl : l'.ticker? = some ticker) : l.ticker? = some ticker := by
  induction h with
  | ended | stopped | crashes => cases hl
  | waits hc | begins hc | breaksOff hc | iterates hc => cases (if_pos hv).symm.trans hc
  | flies | goesOn => exact hl
  | lands _ _ _ ih => exact ih hl

theorem Dispatcher.settleLoops_of_ended (hu : d.unlocker = .ended) (hc : d.cleaner = .ended) :
    d.settleLoops now t =
      ({ d with
          processor := (d.settleLoop .processor now d.processor t).1
          faults := (d.settleLoop .processor now d.processor t).2.faults
          broker := (d.settleLoop .processor now d.processor t).2.broker },
        (d.settleLoop .processor now d.processor t).2) := by
  have hended : ∀ task t, d.settleLoop task now .ended t = (.ended, t) := fun _ _ => Settles.ended.eq
  unfold settleLoops
  simp only [hu, hc, hended]

theorem Dispatcher.settleLoops_abandoned
    (hp : (d.abandoned choice).settleLoop .processor now d.processor t =
      d.settleLoop .processor now d.processor t)
    (hu : ∀ t, (d.abandoned choice).settleLoop .unlocker now d.unlocker t =
      d.settleLoop .unlocker now d.unlocker t)
    (hc : ∀ t, (d.abandoned choice).settleLoop .cleaner now d.cleaner t =
      d.settleLoop .cleaner now d.cleaner t) :
    (d.abandoned choice).settleLoops now t =
      ((d.settleLoops now t).1.abandoned choice, (d.settleLoops now t).2) := by
  have hp : (d.abandoned choice).settleLoop .processor now (d.abandoned choice).processor t = _ := hp
  have hu : ∀ t, (d.abandoned choice).settleLoop .unlocker now (d.abandoned choice).unlocker t = _ := hu
  have hc : ∀ t, (d.abandoned choice).settleLoop .cleaner now (d.abandoned choice).cleaner t = _ := hc
  unfold settleLoops
  simp only [hp, hu, hc]
  rfl

end Abandoned

/-- Nobody can name any more what was spawned. -/
def Running.abandoned (choice : Task → Nat → Bool) (r : Running) : Running :=
  { r with dispatcher := r.dispatcher.abandoned choice, named := r.named && decide (r.mode ≠ .spawned) }

namespace Simulation

def abandoned (choice : Task → Nat → Bool) (s : Simulation) : Simulation :=
  { s with running := s.running.map (·.abandoned choice) }

variable {choice : Task → Nat → Bool} {i : Identity} {s : Simulation} {r : Running}

theorem running_abandoned (h : s.running = [r]) : (s.abandoned choice).running = [r.abandoned choice] := by
  simp [abandoned, h]

theorem wake?_abandoned : (s.abandoned choice).wake? = s.wake? := by
  unfold abandoned wake?
  simp only [List.filterMap_map]
  rfl

/-- Whoever waits takes a dropped sender for a signal. -/
theorem attend_abandoned (choice : Task → Nat → Bool) (hsignal : r.dispatcher.signal = ⟨true, false⟩)
    (t : Trial) :
    attend (r.abandoned choice) t = ((attend r t).1.abandoned choice, (attend r t).2) := by
  obtain ⟨d, mode, named⟩ := r
  have hsignal : d.signal = ⟨true, false⟩ := hsignal
  cases mode with
  | running told =>
      have hended : (d.abandoned choice).isEnded = d.isEnded := rfl
      show attend ⟨d.abandoned choice, .running told, _⟩ t = _
      rw [attend_waits, attend_waits, hsignal, hended]
      simp only [Dispatcher.abandoned, Bool.or_true, Bool.or_false, Bool.true_and]
      split <;> rfl
  | spawned | stopped => rfl

theorem settle_abandoned (hr : s.running = [r]) (hsignal : r.dispatcher.signal = ⟨true, false⟩)
    (hloops : (r.dispatcher.abandoned choice).settleLoops s.time (r.dispatcher.trial s.store s.now) =
      ((r.dispatcher.settleLoops s.time (r.dispatcher.trial s.store s.now)).1.abandoned choice,
        (r.dispatcher.settleLoops s.time (r.dispatcher.trial s.store s.now)).2)) :
    (s.abandoned choice).settle = s.settle.abandoned choice := by
  have hloops : (r.abandoned choice).dispatcher.settleLoops (s.abandoned choice).time
      ((r.abandoned choice).dispatcher.trial (s.abandoned choice).store (s.abandoned choice).now) = _ := hloops
  have hattend := attend_abandoned choice
    (r := { r with dispatcher := (r.dispatcher.settleLoops s.time (r.dispatcher.trial s.store s.now)).1 }) hsignal
    (r.dispatcher.settleLoops s.time (r.dispatcher.trial s.store s.now)).2
  rw [settle_eq_afterVisit hr, settle_eq_afterVisit (running_abandoned hr), hloops]
  unfold afterVisit
  unfold Running.abandoned at hattend ⊢
  dsimp only at hattend ⊢
  rw [hattend]
  rfl

/-! ## When the processor stops -/

/-- What whoever waits reports after a visit. -/
def reported (r : Running) (ended : Bool) : List Event :=
  match r.mode with
  | .running told =>
    if (told || r.dispatcher.signal.value || r.dispatcher.signal.dropped) && ended then
      [.log (.dispatcherStopped r.dispatcher.machine)]
    else []
  | .spawned | .stopped => []

theorem seen_attend (r : Running) (t : Trial) :
    (attend r t).2.seen = reported r r.dispatcher.isEnded ++ t.seen := by
  obtain ⟨d, mode, named⟩ := r
  cases mode with
  | running told =>
      rw [attend_waits]
      unfold reported
      dsimp only
      split <;> rfl
  | spawned | stopped => rfl

theorem reported_abandoned (hsignal : r.dispatcher.signal = ⟨true, false⟩) (ended : Bool) :
    reported (r.abandoned choice) ended = reported r ended := by
  unfold reported
  show (match r.mode with | .running told => _ | .spawned | .stopped => _) = _
  cases r.mode with
  | running told => simp [hsignal, Running.abandoned, Dispatcher.abandoned]
  | spawned | stopped => rfl

theorem seen_settle (hr : s.running = [r]) :
    s.settle.seen = s.stamp (attend
      { r with dispatcher := (r.dispatcher.settleLoops s.time (r.dispatcher.trial s.store s.now)).1 }
      (r.dispatcher.settleLoops s.time (r.dispatcher.trial s.store s.now)).2).2 ++ s.seen := by
  rw [settle_eq_afterVisit hr]
  rfl

/-- When the sweeps have ended, all that is done is done by the processor. -/
theorem seen_settle_of_ended {l : Loop Flight} {t : Trial} (hr : s.running = [r])
    (hu : r.dispatcher.unlocker = .ended) (hc : r.dispatcher.cleaner = .ended)
    (h : r.dispatcher.settleLoop .processor s.time r.dispatcher.processor
      (r.dispatcher.trial s.store s.now) = (l, t)) :
    s.settle.seen = (reported r l.isEnded ++ t.seen).map (s.time, ·) ++ s.seen := by
  rw [seen_settle hr, Dispatcher.settleLoops_of_ended hu hc, h, stamp, seen_attend]
  unfold Dispatcher.isEnded reported
  simp [hu, hc, Loop.isEnded]

/-- In the visit at this time the processor's loop stops. -/
def Halts (s : Simulation) (r : Running) : Prop :=
  .stopOf .processor ∈ (r.dispatcher.settleLoop .processor s.time r.dispatcher.processor
    (r.dispatcher.trial s.store s.now)).2.seen

theorem stop_of_afterVisit {e : Nat} {task : Task} {t : Trial}
    (h : (e, .stopOf task) ∈ (s.afterVisit r t).seen) :
    (e, .stopOf task) ∈ s.seen ∨ e = s.time ∧ .stopOf task ∈ t.seen := by
  refine (List.mem_append.1 h).symm.imp_right fun h => ?_
  obtain ⟨x, hx, he⟩ := List.mem_map.1 h
  cases he
  refine ⟨rfl, ?_⟩
  unfold attend at hx
  split at hx
  · dsimp only at hx
    split at hx
    · exact Trial.stop_of_log (e := .dispatcherStopped _) (nomatch ·) hx
    · exact hx
  · exact hx

theorem stop_of_settle {e : Nat} (hr : s.running = [r]) (h : (e, .stopOf .processor) ∈ s.settle.seen) :
    (e, .stopOf .processor) ∈ s.seen ∨ e = s.time ∧ s.Halts r := by
  rw [settle_eq_afterVisit hr] at h
  refine (stop_of_afterVisit h).imp_right (And.imp_right fun h => ?_)
  rcases (settles _ .cleaner _ _ _).stop h with hunlocker | ⟨h, -⟩
  · rcases (settles _ .unlocker _ _ _).stop hunlocker with hprocessor | ⟨h, -⟩
    · exact hprocessor
    · cases h
  · cases h

theorem mem_settle_of_halts (hr : s.running = [r]) (h : s.Halts r) :
    (s.time, .stopOf .processor) ∈ s.settle.seen := by
  obtain ⟨-, -, hlog⟩ := attend_spec
    { r with dispatcher := (r.dispatcher.settleLoops s.time (r.dispatcher.trial s.store s.now)).1 }
    (r.dispatcher.settleLoops s.time (r.dispatcher.trial s.store s.now)).2
  have hattend : Trial.Did "" [] _ _ := hlog.did
  have hunlocker := (settles r.dispatcher .unlocker s.time r.dispatcher.unlocker _).seen h
  have hcleaner := (settles r.dispatcher .cleaner s.time r.dispatcher.cleaner _).seen hunlocker
  rw [seen_settle hr]
  exact List.mem_append_left _ (List.mem_map_of_mem (hattend.seen hcleaner))

/-! ## Told and dropped -/

namespace Told

variable {ticker : Ticker} {p : Pass} {o : Outcome} {w : Nat}

theorem settleLoop_of_ne (h : Told i s r) (task : Task) (ht : task ≠ .processor) (d : Dispatcher) (now : Nat)
    (t : Trial) : d.settleLoop task now (r.dispatcher.loop task) t = (.ended, t) := by
  rw [h.ended_of_ne ht]
  exact Settles.ended.eq

theorem settle_abandoned (h : Told i s r) (hp : r.dispatcher.processor = .inFlight ticker ⟨p, o⟩ w)
    (hc : (s.atTime w).Halts r → ticker.due ≤ w → choice .processor w = false) :
    ((s.abandoned choice).atTime w).settle = (s.atTime w).settle.abandoned choice := by
  refine Simulation.settle_abandoned (s := s.atTime w) h.running h.signal
    (Dispatcher.settleLoops_abandoned ?_ ?_ ?_)
  · refine ((settles r.dispatcher .processor w r.dispatcher.processor _).abandoned (by rw [h.signal]) ?_).eq
    rw [hp]
    intro ticker' ht hdue hstop
    cases ht
    exact hc (by unfold Halts; rw [hp]; exact hstop) hdue
  · intro t
    exact (h.settleLoop_of_ne .unlocker (nomatch ·) _ w t).trans
      (h.settleLoop_of_ne .unlocker (nomatch ·) _ w t).symm
  · intro t
    exact (h.settleLoop_of_ne .cleaner (nomatch ·) _ w t).trans
      (h.settleLoop_of_ne .cleaner (nomatch ·) _ w t).symm

end Told

/-- From now on the same is seen and stored, whether the dispatcher was told to stop or nobody is left who
could stop it. -/
def Agrees (choice : Task → Nat → Bool) (s : Simulation) : Prop :=
  ∀ t, s.time ≤ t → ((s.abandoned choice).advanceTo t).seen = (s.advanceTo t).seen ∧
    ((s.abandoned choice).advanceTo t).store = (s.advanceTo t).store

/-- The processor does not go on if it is late when it stops. -/
def Heeds (choice : Task → Nat → Bool) (s : Simulation) (r : Running) : Prop :=
  ∀ ticker p o w, r.dispatcher.processor = .inFlight ticker ⟨p, o⟩ w →
    ∀ e, s.time ≤ e → (e, .stopOf .processor) ∈ (s.advanceTo e).seen → ticker.due ≤ e →
      choice .processor e = false

/-- The processor has not stopped yet. -/
def Unstopped (s : Simulation) : Prop := ∀ e, (e, .stopOf .processor) ∉ s.seen

/-- As long as nothing is due nothing happens. -/
theorem agrees_iff {w : Nat} (hw : s.wake? = some w) (hlt : s.time < w) :
    Agrees choice s ↔ ∀ t, w ≤ t →
      (((s.abandoned choice).atTime w).settle.advanceTo t).seen = ((s.atTime w).settle.advanceTo t).seen ∧
        (((s.abandoned choice).atTime w).settle.advanceTo t).store =
          ((s.atTime w).settle.advanceTo t).store := by
  have hw' : (s.abandoned choice).wake? = some w := wake?_abandoned.trans hw
  constructor
  · intro h t ht
    have hsame := h t (Nat.le_trans (Nat.le_of_lt hlt) ht)
    rwa [advanceTo_of_le hw hlt ht, advanceTo_of_le hw' hlt ht] at hsame
  · intro h t _
    rcases Nat.lt_or_ge t w with hearly | hlate
    · rw [advanceTo_of_lt hw hearly, advanceTo_of_lt hw' hearly]
      exact ⟨rfl, rfl⟩
    · rw [advanceTo_of_le hw hlt hlate, advanceTo_of_le hw' hlt hlate]
      exact h t hlate

theorem stop_iff {w : Nat} (hun : s.Unstopped) (hw : s.wake? = some w) (hlt : s.time < w) (e : Nat) :
    (e, .stopOf .processor) ∈ (s.advanceTo e).seen ↔
      w ≤ e ∧ (e, .stopOf .processor) ∈ ((s.atTime w).settle.advanceTo e).seen := by
  rcases Nat.lt_or_ge e w with hearly | hlate
  · rw [advanceTo_of_lt hw hearly]
    exact iff_of_false (hun e) fun h => absurd h.1 (Nat.not_le_of_lt hearly)
  · rw [advanceTo_of_le hw hlt hlate]
    exact (and_iff_right hlate).symm

namespace Told

variable {ticker : Ticker} {p : Pass} {o : Outcome} {w : Nat}

theorem agrees_of_ended (h : Told i s r) (hend : r.dispatcher.isEnded = true) : Agrees choice s := by
  intro t _
  have hnone : s.wake? = none := (wake?_eq h.running).trans (Dispatcher.wake?_eq_none hend _)
  rw [advanceTo_of_none hnone, advanceTo_of_none (wake?_abandoned.trans hnone)]
  exact ⟨rfl, rfl⟩

/-- What happens when the processor stops. -/
theorem lands_of_halts (choice : Task → Nat → Bool) (h : Told i s r)
    (hp : r.dispatcher.processor = .inFlight ticker ⟨p, o⟩ w) (hh : (s.atTime w).Halts r) :
    ∃ u, r.dispatcher.settleLoop .processor w r.dispatcher.processor
        (r.dispatcher.trial s.store (s.atTime w).now) = (.ended, u.log (.taskStopped .processor)) ∧
      (r.dispatcher.abandoned choice).settleLoop .processor w r.dispatcher.processor
          (r.dispatcher.trial s.store (s.atTime w).now) =
        (r.dispatcher.abandoned choice).settleLoop .processor w (.waiting ticker) u := by
  have hh : .stopOf .processor ∈ (r.dispatcher.settleLoop .processor w r.dispatcher.processor
    (r.dispatcher.trial s.store (s.atTime w).now)).2.seen := hh
  have hs := settles r.dispatcher .processor w r.dispatcher.processor
    (r.dispatcher.trial s.store (s.atTime w).now)
  rw [hp] at hh hs ⊢
  revert hh hs
  cases r.dispatcher.settleLoop .processor w (.inFlight ticker ⟨p, o⟩ w)
    (r.dispatcher.trial s.store (s.atTime w).now) with
  | mk l' t' =>
  intro hh hs
  have hold : .stopOf .processor ∉ (r.dispatcher.trial s.store (s.atTime w).now).seen := (nomatch ·)
  cases hs with
  | flies hw => exact absurd (Nat.le_refl w) hw
  | goesOn _ hr =>
      refine absurd (Dispatcher.stop_of_resume (d := r.dispatcher) (p := p) (o := o) ?_) hold
      rwa [hr]
  | crashes _ hr =>
      refine absurd (Dispatcher.stop_of_resume (d := r.dispatcher) (p := p) (o := o) ?_) hold
      rwa [hr]
  | @lands _ _ _ _ _ ending t₁ _ _ hw hr hs =>
      refine ⟨Dispatcher.report .processor t₁ ending, ?_, ?_⟩
      · have hv : r.dispatcher.signal.value = true := by rw [h.signal]
        cases hs with
        | stopped => rfl
        | waits hc | begins hc | breaksOff hc | iterates hc => cases (if_pos hv).symm.trans hc
      · exact (Settles.lands (d := r.dispatcher.abandoned choice) hw hr (settles ..)).eq

/-- If the processor goes on although it is late, that is seen. -/
theorem seen_ne (h : Told i s r) (hp : r.dispatcher.processor = .inFlight ticker ⟨p, o⟩ w)
    (hh : (s.atTime w).Halts r) (hdue : ticker.due ≤ w) (hgo : choice .processor w = true) :
    ((s.abandoned choice).atTime w).settle.seen ≠ (s.atTime w).settle.seen := by
  obtain ⟨u, htold, hdropped⟩ := h.lands_of_halts choice hp hh
  have hu : r.dispatcher.loop .unlocker = .ended := h.ended_of_ne (nomatch ·)
  have hc : r.dispatcher.loop .cleaner = .ended := h.ended_of_ne (nomatch ·)
  have hiterates : Loop.choose (r.dispatcher.abandoned choice).signal
      ((r.dispatcher.abandoned choice).lingers .processor w) ticker w = .iterate := by
    show Loop.choose { dropped := true } (choice .processor w) ticker w = .iterate
    unfold Loop.choose
    rw [if_neg Bool.false_ne_true, if_pos hdue, hgo]
    rfl
  have hs := settles (r.dispatcher.abandoned choice) .processor w (.waiting ticker) u
  have hseen := seen_settle_of_ended (s := s.atTime w) h.running hu hc htold
  have hseen' := seen_settle_of_ended (s := (s.abandoned choice).atTime w) (running_abandoned h.running) hu hc
    (hdropped.trans Prod.mk.eta.symm)
  rw [reported_abandoned h.signal] at hseen'
  rw [hseen, hseen']
  intro hsame
  have hsame := List.map_injective_iff.2 (Prod.mk_right_injective w) (List.append_cancel_right hsame)
  cases ht : u.now with
  | none =>
      -- The iteration breaks off at once, and then it is not seen that the loop has stopped.
      obtain ⟨hended, hnothing⟩ := hs.of_timeless hiterates ht
      rw [hended, hnothing] at hsame
      have hlength := congrArg List.length (List.append_cancel_left hsame)
      simp [Trial.log, Trial.see] at hlength
  | some now =>
      -- In the place of that there is the call with which the iteration begins.
      obtain ⟨es, hes⟩ := hs.seen_of_iterate hiterates
      obtain ⟨es', result, hcall⟩ := (r.dispatcher.abandoned choice).seen_iterate_of_timed ht
      rw [hes, hcall] at hsame
      rw [← List.append_assoc, ← List.append_assoc] at hsame
      cases eq_of_append_cons hsame

theorem processor_visit (s : Simulation) (r : Running) (w : Nat) :
    ((s.atTime w).visit r).dispatcher.processor = (r.dispatcher.settleLoop .processor w r.dispatcher.processor
      (r.dispatcher.trial s.store (s.atTime w).now)).1 := by
  rw [dispatcher_visit]
  rfl

theorem stop_of_ended {e : Nat} (h : Told i s r) (hend : r.dispatcher.isEnded = true)
    (hstop : (e, .stopOf .processor) ∈ (s.advanceTo e).seen) : (e, .stopOf .processor) ∈ s.seen := by
  rwa [advanceTo_of_none ((wake?_eq h.running).trans (Dispatcher.wake?_eq_none hend _))] at hstop

/-- When the processor stops, all depends on whether it is late. -/
theorem agrees_iff_heeds_of_halts (h : Told i s r) (hun : s.Unstopped)
    (hp : r.dispatcher.processor = .inFlight ticker ⟨p, o⟩ w) (hlt : s.time < w)
    (hwake : r.dispatcher.wake? s.time = some w) (hh : (s.atTime w).Halts r) :
    Agrees choice s ↔ Heeds choice s r := by
  have hw : s.wake? = some w := (wake?_eq h.running).trans hwake
  have hend : ((s.atTime w).visit r).dispatcher.isEnded = true := by
    obtain ⟨u, htold, -⟩ := h.lands_of_halts choice hp hh
    rcases (h.wakes w).cases with hend | ⟨ticker', p', o', w', hp', -⟩
    · exact hend
    · rw [processor_visit, htold] at hp'
      cases hp'
  have hheeds : Heeds choice s r ↔ (ticker.due ≤ w → choice .processor w = false) := by
    constructor
    · intro heeds hdue
      refine heeds ticker p o w hp w (Nat.le_of_lt hlt) ?_ hdue
      rw [advanceTo_of_le hw hlt (Nat.le_refl w)]
      exact (advanceTo_time (s.atTime w).settle).symm ▸ mem_settle_of_halts (s := s.atTime w) h.running hh
    · intro hlate ticker' p' o' w' hp' e _ hstop
      cases hp.symm.trans hp'
      obtain ⟨-, hstop⟩ := (stop_iff hun hw hlt e).1 hstop
      have hstop' := (h.wakes w).stop_of_ended hend hstop
      rcases stop_of_settle (s := s.atTime w) h.running hstop' with hold | ⟨rfl, -⟩
      · exact absurd hold (hun e)
      · exact hlate
  rw [hheeds, agrees_iff hw hlt]
  by_cases hlate : ticker.due ≤ w → choice .processor w = false
  · rw [h.settle_abandoned hp fun _ => hlate]
    exact iff_of_true ((h.wakes w).agrees_of_ended hend) hlate
  · refine iff_of_false (fun hsame => ?_) hlate
    obtain ⟨hdue, hgo⟩ := Classical.not_imp.1 hlate
    have hseen := (hsame w (Nat.le_refl w)).1
    rw [show ((s.atTime w).settle.advanceTo w) = _ from advanceTo_time (s.atTime w).settle,
      show (((s.abandoned choice).atTime w).settle.advanceTo w) = _ from
        advanceTo_time ((s.abandoned choice).atTime w).settle] at hseen
    exact h.seen_ne hp hh hdue (Bool.eq_true_of_not_eq_false hgo) hseen

/-- When the processor does not stop, all is still open. -/
theorem heeds_iff (h : Told i s r) (hun : s.Unstopped) (hp : r.dispatcher.processor = .inFlight ticker ⟨p, o⟩ w)
    (hw : s.wake? = some w) (hlt : s.time < w) (hun' : (s.atTime w).settle.Unstopped) :
    Heeds choice s r ↔ Heeds choice (s.atTime w).settle ((s.atTime w).visit r) := by
  have hs := settles r.dispatcher .processor w r.dispatcher.processor
    (r.dispatcher.trial s.store (s.atTime w).now)
  rw [← processor_visit s r w] at hs
  have hv : r.dispatcher.signal.value = true := by rw [h.signal]
  constructor
  · intro heeds ticker' p' o' w' hp' e hle hstop hdue
    have hticker : r.dispatcher.processor.ticker? = some ticker' := hs.ticker?_eq hv (by rw [hp']; rfl)
    rw [hp] at hticker
    cases hticker
    exact heeds ticker p o w hp e (Nat.le_trans (Nat.le_of_lt hlt) hle) ((stop_iff hun hw hlt e).2 ⟨hle, hstop⟩)
      hdue
  · intro heeds ticker' p' o' w' hp' e _ hstop hdue
    cases hp.symm.trans hp'
    obtain ⟨hle, hstop⟩ := (stop_iff hun hw hlt e).1 hstop
    rcases (h.wakes w).cases with hend | ⟨ticker', p', o', w', hflies, -⟩
    · exact absurd ((h.wakes w).stop_of_ended hend hstop) (hun' e)
    · have hticker : r.dispatcher.processor.ticker? = some ticker' := hs.ticker?_eq hv (by rw [hflies]; rfl)
      rw [hp] at hticker
      cases hticker
      exact heeds ticker p' o' w' hflies e hle hstop hdue

/-- The two runs agree just if the processor heeds that nobody is left. -/
theorem agrees_iff_heeds {n : Nat} (h : Told i s r) (hn : r.dispatcher.processor.pending ≤ n)
    (hun : s.Unstopped) : Agrees choice s ↔ Heeds choice s r := by
  -- Each time that it is waited for, fewer messages are left to wait for.
  induction n using Nat.strong_induction_on generalizing s r with
  | _ n ih =>
  rcases h.cases with hend | ⟨ticker, p, o, w, hp, hlt, hwake⟩
  · refine iff_of_true (h.agrees_of_ended hend) fun ticker p o w hp => ?_
    cases hp.symm.trans (Dispatcher.isEnded_iff.1 hend .processor)
  · have hw : s.wake? = some w := (wake?_eq h.running).trans hwake
    by_cases hh : (s.atTime w).Halts r
    · exact h.agrees_iff_heeds_of_halts hun hp hlt hwake hh
    · have hun' : (s.atTime w).settle.Unstopped := by
        intro e hstop
        rcases stop_of_settle (s := s.atTime w) h.running hstop with hold | ⟨-, hhalts⟩
        · exact hun e hold
        · exact hh hhalts
      have hfewer : ((s.atTime w).visit r).dispatcher.processor.pending < n :=
        Nat.lt_of_lt_of_le (h.pending_lt hp) hn
      rw [h.heeds_iff hun hp hw hlt hun', agrees_iff hw hlt,
        h.settle_abandoned hp fun hhalts => absurd hhalts hh]
      exact ih _ hfewer (h.wakes w) (Nat.le_refl _) hun'

end Told

/-! ## The sender is dropped -/

/-- Where a loop is late and nobody is left who could stop it, `choice` says whether it goes on. -/
def choosing (choice : Task → Nat → Bool) (s : Simulation) : Simulation :=
  { s with running := s.running.map fun r => { r with dispatcher := { r.dispatcher with lingers := choice } } }

/-- A sender that is dropped makes of a dispatcher what a signal does, but for what it was. -/
theorem drop_choosing {name : String} (hr : s.running = [r]) (hn : r.answersTo name = true)
    (hsignal : r.dispatcher.signal = ⟨false, false⟩) :
    (s.choosing choice).drop name =
      ((s.modify name (·.signal (StopSignal.set true))).abandoned choice).settle := by
  have hchoosing : (s.choosing choice).running =
      [{ r with dispatcher := { r.dispatcher with lingers := choice } }] := by
    simp [choosing, hr]
  rw [modify_eq hr hn]
  refine (congrArg settle (modify_eq hchoosing hn _)).trans (congrArg settle ?_)
  have hnamed : r.named = true := (Bool.and_eq_true_iff.1 hn).1
  obtain ⟨d, mode, named⟩ := r
  obtain ⟨name, machine, config, clock, faults, broker, signal, lingers, processor, unlocker, cleaner⟩ := d
  obtain rfl : named = true := hnamed
  obtain rfl : signal = ⟨false, false⟩ := hsignal
  cases mode <;> rfl

/-- Loops that wait for nothing that is due do not care whether they are told to stop or nobody is left. -/
theorem settleLoop_abandoned_of_quiet {d : Dispatcher} {now : Nat} (task : Task) (hv : d.signal.value = true)
    (hq : (d.loop task).Quiet now) (t : Trial) :
    (d.abandoned choice).settleLoop task now (d.loop task) t = d.settleLoop task now (d.loop task) t := by
  have hs := settles d task now (d.loop task) t
  revert hq hs
  cases d.loop task with
  | waiting ticker =>
      intro hq hs
      refine (hs.abandoned hv fun ticker' ht hdue _ => ?_).eq
      cases ht
      exact absurd hdue (Nat.not_le_of_lt hq)
  | inFlight ticker f w =>
      intro hq _
      have hflies := Nat.not_le_of_lt hq
      exact (Settles.flies hflies).eq.trans (Settles.flies hflies).eq.symm
  | ended => exact fun _ _ => Settles.ended.eq.trans Settles.ended.eq.symm

theorem unstopped_settle (hr : s.running = [r]) (hsignal : r.dispatcher.signal = ⟨false, false⟩)
    (hun : s.Unstopped) : s.settle.Unstopped := by
  intro e h
  rcases stop_of_settle hr h with hold | ⟨-, hhalts⟩
  · exact hun e hold
  · rcases (settles r.dispatcher .processor s.time r.dispatcher.processor _).stop hhalts with hnew | ⟨-, -, hv⟩
    · cases hnew
    · rw [hsignal] at hv
      cases hv

namespace Keeps

variable {ks : List Step}

theorem unstopped_performAll (hks : ∀ k ∈ ks, k.IsOutside) (h : Keeps i ⟨false, false⟩ s r)
    (hun : s.Unstopped) : (s.performAll ks).Unstopped := by
  refine (performAll_induction (P := fun s => Unstopped s ∧ ∃ r, Keeps i ⟨false, false⟩ s r)
    (fun {s w} _ _ ⟨hun, r, h⟩ => ?_) (fun _ hw ⟨hun, r, h⟩ => ⟨hun, r, h.atTime hw⟩)
    (fun ⟨hun, r, h⟩ => ⟨hun, r, h.running, h.identity, h.signal, h.poised⟩) hks ⟨hun, r, h⟩).1
  exact ⟨unstopped_settle (s := s.atTime w) h.running h.signal hun, _, h.wakes w⟩

/-- A delivery that is in flight when the dispatcher is told to stop has yet to see it. -/
theorem unstopped_signal (h : Keeps i ⟨false, false⟩ s r) (hn : r.named = true) (hun : s.Unstopped)
    (hlive : (s.visit (r.signal (StopSignal.set true))).dispatcher.processor ≠ .ended) :
    (s.signal i.name (StopSignal.set true)).Unstopped := by
  rw [h.signal_eq hn]
  intro e hstop
  rcases stop_of_settle rfl hstop with hold | ⟨-, hhalts⟩
  · exact hun e hold
  · rcases (settles _ .processor _ _ _).stop hhalts with hnew | ⟨-, hended, -⟩
    · cases hnew
    · rw [dispatcher_visit] at hlive
      exact hlive hended

/-- When the sender is dropped the loops do what they do if they are told to stop. -/
theorem drop_eq (h : Keeps i ⟨false, false⟩ s r) (hn : r.named = true) :
    (s.choosing choice).drop i.name = (s.signal i.name (StopSignal.set true)).abandoned choice := by
  have hsignal := h.signal_set
  have hv : (r.signal (StopSignal.set true)).dispatcher.signal.value = true := by rw [hsignal]
  have hquiet := h.poised.quiet
  have hanswers := h.answersTo hn
  rw [h.signal_eq hn, drop_choosing h.running hanswers h.signal, modify_eq h.running hanswers]
  apply settle_abandoned rfl hsignal
  apply Dispatcher.settleLoops_abandoned
  · exact settleLoop_abandoned_of_quiet .processor hv (hquiet .processor) _
  · exact settleLoop_abandoned_of_quiet .unlocker hv (hquiet .unlocker)
  · exact settleLoop_abandoned_of_quiet .cleaner hv (hquiet .cleaner)

end Keeps

/-- A claim was made after this time: the processor has begun an iteration. -/
def claimsAfter (time : Nat) (s : Simulation) : Bool :=
  s.seen.any fun
    | (t, .call _ (.claim ..) _) => time < t
    | _ => false

end Simulation

/-! ## From the start -/

namespace Opening

open Simulation

variable {o : Opening} {ks : List Simulation.Step} {choice : Task → Nat → Bool}

theorem stop_of_startLoops {d : Dispatcher} {now : Nat} {t : Trial} (hsignal : d.signal = ⟨false, false⟩)
    {task : Task} (h : .stopOf task ∈ (d.startLoops now t).2.seen) : .stopOf task ∈ t.seen := by
  have hloop : ∀ task' period l u, .stopOf task ∈ (d.startLoop task' period now l u).2.seen →
      .stopOf task ∈ u.seen := by
    intro task' period l u h
    rcases (settles d task' now l _).stop h with hold | ⟨-, -, hv⟩
    · exact Trial.stop_of_log (e := .taskStarted ..) (nomatch ·) hold
    · rw [hsignal] at hv
      cases hv
  exact hloop .processor _ _ _ (hloop .unlocker _ _ _ (hloop .cleaner _ _ _ h))

theorem unstopped_begun (hc : o.config.validate = .ok ()) : (o.begun false).Unstopped := by
  obtain ⟨d, -, hsignal, -, hbegun⟩ := begun_eq hc false
  rw [hbegun, start_eq]
  refine unstopped_settle rfl ?_ fun e h => ?_
  · rw [(attend_spec ..).1]
    exact hsignal
  · rcases stop_of_afterVisit h with hold | ⟨-, hnew⟩
    · cases hold
    · have hnew := stop_of_startLoops hsignal hnew
      unfold trial at hnew
      split at hnew
      · cases hnew
      · cases Trial.stop_of_log (e := .dispatcherStarted _) (nomatch ·) hnew

/-- After the steps of others the dispatcher is told to stop. -/
def toldAfter (o : Opening) (ks : List Simulation.Step) : Simulation :=
  ((o.begun false).performAll ks).signal o.name (StopSignal.set true)

/-- After the same steps its sender is dropped instead. -/
def droppedAfter (choice : Task → Nat → Bool) (o : Opening) (ks : List Simulation.Step) : Simulation :=
  (((o.begun false).performAll ks).choosing choice).drop o.name

/-- A dispatcher whose sender is dropped does the same as one that is told to stop then, just if the processor
does not go on when the iteration it was in ends after its next tick was due. -/
theorem drop_iff_told (o : Opening) (choice : Task → Nat → Bool) (ks : List Simulation.Step)
    (hc : o.config.validate = .ok ()) (hks : ∀ k ∈ ks, k.IsOutside) :
    (∀ t, (o.toldAfter ks).time ≤ t →
        ((o.droppedAfter choice ks).advanceTo t).seen = ((o.toldAfter ks).advanceTo t).seen ∧
          ((o.droppedAfter choice ks).advanceTo t).store = ((o.toldAfter ks).advanceTo t).store) ↔
      ∀ r ∈ (o.toldAfter ks).running, (o.toldAfter ks).Heeds choice r := by
  obtain ⟨r, hbegun, hn, -⟩ := keeps_begun hc false
  obtain ⟨r₁, hafter, hn₁, -⟩ := hbegun.performAll hks
  have htold := Told.of_signal hafter (hn₁.trans hn)
  have hdropped : o.droppedAfter choice ks = (o.toldAfter ks).abandoned choice :=
    hafter.drop_eq (hn₁.trans hn)
  have hun := hbegun.unstopped_performAll hks (unstopped_begun hc)
  have hrunning : (o.toldAfter ks).running = [_] := htold.running
  rw [hdropped, hrunning, List.forall_mem_singleton]
  show (o.toldAfter ks).Agrees choice ↔ _
  rcases htold.cases with hend | ⟨ticker, p, out, w, hp, -⟩
  · refine iff_of_true (htold.agrees_of_ended hend) fun ticker p out w hp => ?_
    cases hp.symm.trans (Dispatcher.isEnded_iff.1 hend .processor)
  · refine htold.agrees_iff_heeds (Nat.le_refl _) (hafter.unstopped_signal (hn₁.trans hn) hun ?_)
    rw [hp]
    exact (nomatch ·)

/-- The dispatcher is told to stop while its only message is with the broker, or its sender is dropped then: a
processor that does not go on comes to the same. -/
theorem drop_iff_told_slow :
    slow.config.validate = .ok () ∧ (∀ k ∈ [.advance 100], Simulation.Step.IsOutside k) ∧
      ((∀ t, (slow.toldAfter [.advance 100]).time ≤ t →
        ((slow.droppedAfter (fun _ _ => false) [.advance 100]).advanceTo t).seen =
            ((slow.toldAfter [.advance 100]).advanceTo t).seen ∧
          ((slow.droppedAfter (fun _ _ => false) [.advance 100]).advanceTo t).store =
            ((slow.toldAfter [.advance 100]).advanceTo t).store) ↔
        ∀ r ∈ (slow.toldAfter [.advance 100]).running,
          (slow.toldAfter [.advance 100]).Heeds (fun _ _ => false) r) := by
  have hc : slow.config.validate = .ok () := rfl
  have hks : ∀ k ∈ [.advance 100], Simulation.Step.IsOutside k := by
    simp [Simulation.Step.IsOutside]
  exact ⟨hc, hks, drop_iff_told slow (fun _ _ => false) [.advance 100] hc hks⟩

/-- A processor that goes on begins an iteration when the slow one is over, long after its sender was dropped
at 100; told to stop at that time, it would not have. -/
theorem late_drop_goes_on :
    ((slow.droppedAfter (fun _ _ => true) [.advance 100]).advanceTo 1500).claimsAfter 100 = true ∧
      ((slow.toldAfter [.advance 100]).advanceTo 1500).claimsAfter 100 = false ∧
      (slow.toldAfter [.advance 100]).time = 100 := by
  refine ⟨?_, ?_, ?_⟩ <;> cbv

end Opening

end Outbox

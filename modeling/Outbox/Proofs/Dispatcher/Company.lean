import Outbox.Proofs.Dispatcher.Shutdown

/-!
# Company

A dispatcher while others use its store and time passes. Whatever happens, every loop of it that is left
to itself waits for something later.
-/

namespace Outbox

/-! ## What a loop waits for -/

namespace Loop

/-- What the loop waits for comes later. -/
def Quiet (now : Nat) : Loop Flight → Prop
  | waiting ticker => now < ticker.due
  | inFlight _ _ wake => now < wake
  | ended => True

/-- A pass is in flight while its message is with the broker. -/
def Sends (s : Pass.Settings) : Loop Flight → Prop
  | inFlight _ f _ => ∃ m resume, f.pass.next s = some (.send m resume)
  | waiting _ | ended => True

theorem quiet_iff {now : Nat} {l : Loop Flight} : l.Quiet now ↔ ∀ w ∈ l.wake?, now < w := by
  cases l <;> simp [Quiet, wake?]

theorem lt_due_of_wait {signal : StopSignal} {lingers : Bool} {ticker : Ticker} {now : Nat}
    (hc : choose signal lingers ticker now = .wait) : now < ticker.due := by
  by_contra h
  unfold choose at hc
  rw [if_pos (Nat.le_of_not_lt h)] at hc
  split at hc
  · cases hc
  · split at hc <;> cases hc

end Loop

namespace Dispatcher

variable {d : Dispatcher} {task : Task} {p p' : Pass} {o o' : Outcome} {t t' : Trial}

/-- A pass that waits for an outcome has handed a message over, and the outcome takes time. -/
theorem deliver_awaits (h : d.deliver p t = (.awaits ⟨p', o⟩, t')) :
    0 < o.delayMillis ∧ (∃ m resume, p'.next d.settings = some (.send m resume)) ∧ p'.NotAfter p := by
  obtain ⟨u, ⟨hawaited, hnot⟩, hstop⟩ := Pass.advance_induction (h := Trial.patientHost d.name)
    (s := d.settings) (p := p) (P := fun q u => u.awaited = none ∧ q.NotAfter p)
    (fun hq _ h => ⟨h.1, (Pass.now_before hq _).trans_notAfter h.2⟩)
    (fun {q u a c resume} hq h => by
      refine ⟨?_, (Pass.call_before hq _).trans_notAfter h.2⟩
      exact (Trial.awaited_foldl_log).trans (Trial.awaited_call.trans h.1))
    (fun {q u m resume a u'} hq ha h => by
      rcases Trial.sendOrWait_cases u m with ⟨-, he⟩ | he
      · cases he.symm.trans ha
      · cases he.symm.trans ha
        refine ⟨?_, (Pass.send_before hq _).trans_notAfter h.2⟩
        rw [Trial.awaited_foldl_effect, Trial.awaited_handOver, h.1])
    (w := { t with awaited := none }) ⟨rfl, Or.inl rfl⟩
  cases hadv : p.advance (Trial.patientHost d.name) d.settings { t with awaited := none } with
  | mk q u' =>
  rw [hadv] at hnot hstop
  obtain ⟨hawaits, hbroken, hover⟩ := deliver_of_advance hadv
  have hnone : u'.awaited = none → d.deliver p t ≠ (.awaits ⟨p', o⟩, t') := by
    intro hn he
    cases hr : q.result? with
    | none => cases (hbroken hn hr).symm.trans he
    | some result =>
        obtain ⟨ending, ho⟩ := hover result hn hr
        cases ho.symm.trans he
  cases hstop with
  | ended | timeless => exact absurd h (hnone hawaited)
  | @unanswered m resume _ hq ha =>
      rcases Trial.sendOrWait_cases u m with ⟨hd, he⟩ | he
      · cases he.symm.trans ha
        cases (hawaits _ rfl).symm.trans h
        exact ⟨hd, ⟨m, resume, hq⟩, hnot⟩
      · cases he.symm.trans ha

theorem sweep_over (d : Dispatcher) (s : Sweep) (t : Trial) : d.sweep s t ≠ (.awaits ⟨p, o⟩, t') := by
  intro h
  rcases d.sweep_cases s t with ⟨-, he⟩ | ⟨cutoff, ending, u, he, -, -⟩ <;> cases he.symm.trans h

theorem iterate_awaits (h : d.iterate task t = (.awaits ⟨p, o⟩, t')) :
    task = .processor ∧ 0 < o.delayMillis ∧ ∃ m resume, p.next d.settings = some (.send m resume) := by
  cases task with
  | processor =>
      obtain ⟨hd, hp, -⟩ := deliver_awaits h
      exact ⟨rfl, hd, hp⟩
  | unlocker | cleaner => exact absurd h (d.sweep_over _ t)

theorem resume_awaits (h : d.resume p o t = (.awaits ⟨p', o'⟩, t')) :
    0 < o'.delayMillis ∧ (∃ m resume, p'.next d.settings = some (.send m resume)) ∧
      p'.NotAfter (p.receive d.settings o.answer) := deliver_awaits h

end Dispatcher

namespace Settles

variable {d : Dispatcher} {task : Task} {now : Nat} {l l' : Loop Flight} {t t' : Trial}

theorem quiet (h : Settles d task now l t l' t') : l'.Quiet now := by
  induction h with
  | ended | stopped | breaksOff | crashes => trivial
  | waits hc => exact Loop.lt_due_of_wait hc
  | @begins ticker _ _ _ _ _ hi => exact ticker.timer.lt_wake (Dispatcher.iterate_awaits hi).2.1
  | @goesOn ticker _ _ _ _ _ _ _ _ hr => exact ticker.timer.lt_wake (Dispatcher.resume_awaits hr).1
  | flies hw => exact Nat.lt_of_not_le hw
  | iterates _ _ _ ih | lands _ _ _ ih => exact ih

theorem sends (h : Settles d task now l t l' t') (hl : l.Sends d.settings) : l'.Sends d.settings := by
  induction h with
  | ended | stopped | waits | breaksOff | crashes => trivial
  | begins _ hi => exact (Dispatcher.iterate_awaits hi).2.2
  | goesOn _ hr => exact (Dispatcher.resume_awaits hr).2.1
  | flies => exact hl
  | iterates _ _ _ ih | lands _ _ _ ih => exact ih trivial

/-- Only a delivery is ever in flight. -/
theorem isInFlight (h : Settles d task now l t l' t') (ht : task ≠ .processor) (hl : l.isInFlight = false) :
    l'.isInFlight = false := by
  induction h with
  | ended | stopped | waits | breaksOff | crashes => rfl
  | begins _ hi => exact absurd (Dispatcher.iterate_awaits hi).1 ht
  | goesOn | flies => exact hl
  | iterates _ _ _ ih | lands _ _ _ ih => exact ih rfl

end Settles

namespace Dispatcher

variable {d : Dispatcher} {now : Nat} {t : Trial}

/-- Each loop waits for something later, and only a delivery is in flight. -/
structure Poised (d : Dispatcher) (now : Nat) : Prop where
  quiet : ∀ task, (d.loop task).Quiet now
  sends : ∀ task, (d.loop task).Sends d.settings
  grounded : ∀ task, task ≠ .processor → (d.loop task).isInFlight = false

theorem poised_of_settles {d' : Dispatcher} (hsettings : d'.settings = d.settings)
    (hsends : ∀ task, (d.loop task).Sends d.settings)
    (hgrounded : ∀ task, task ≠ .processor → (d.loop task).isInFlight = false)
    (h : ∀ task, ∃ t t', Settles d task now (d.loop task) t (d'.loop task) t') : d'.Poised now := by
  refine ⟨fun task => ?_, fun task => ?_, fun task ht => ?_⟩
  · obtain ⟨t, t', hs⟩ := h task
    exact hs.quiet
  · obtain ⟨t, t', hs⟩ := h task
    exact hsettings ▸ hs.sends (hsends task)
  · obtain ⟨t, t', hs⟩ := h task
    exact hs.isInFlight ht (hgrounded task ht)

theorem settles_settleLoops (d : Dispatcher) (now : Nat) (t : Trial) (task : Task) :
    ∃ u u', Settles d task now (d.loop task) u ((d.settleLoops now t).1.loop task) u' := by
  cases task with
  | processor | unlocker | cleaner => exact ⟨_, _, settles ..⟩

theorem settles_startLoops (d : Dispatcher) (now : Nat) (t : Trial) (task : Task) :
    ∃ u u', Settles d task now (d.loop task) u ((d.startLoops now t).1.loop task) u' := by
  cases task with
  | processor | unlocker | cleaner => exact ⟨_, _, settles ..⟩

theorem Poised.settleLoops {before : Nat} (h : d.Poised before) : (d.settleLoops now t).1.Poised now :=
  poised_of_settles (d := d) rfl h.sends h.grounded (settles_settleLoops d now t)

theorem poised_startLoops (h : ∀ task, ∃ ticker, d.loop task = .waiting ticker) :
    (d.startLoops now t).1.Poised now := by
  refine poised_of_settles (d := d) rfl (fun task => ?_) (fun task _ => ?_) (settles_startLoops d now t)
  · obtain ⟨ticker, hl⟩ := h task
    rw [hl]
    trivial
  · obtain ⟨ticker, hl⟩ := h task
    rw [hl]
    rfl

/-- Nothing is due before the time for which a dispatcher waits. -/
theorem quiet_of_wake {time : Nat} (h : ∀ w ∈ d.wake? now, now < w → time < w) {l : Loop Flight}
    (hl : l = d.processor ∨ l = d.unlocker ∨ l = d.cleaner) (hq : l.Quiet now) : l.Quiet time := by
  refine Loop.quiet_iff.2 fun w hw => ?_
  have hlt := Loop.quiet_iff.1 hq w hw
  have hmem : w ∈ [d.processor.wake?, d.unlocker.wake?, d.cleaner.wake?].filterMap
      fun w => w.filter (now < ·) := by
    refine List.mem_filterMap.2 ⟨l.wake?, by rcases hl with rfl | rfl | rfl <;> simp, ?_⟩
    rw [Option.mem_def.1 hw]
    simp [Option.filter, hlt]
  cases hmin : d.wake? now with
  | none =>
      rw [wake?, List.min?_eq_none_iff] at hmin
      rw [hmin] at hmem
      cases hmem
  | some v =>
      have hv := h v hmin (lt_of_wake hmin)
      have hle : v ≤ w := (List.min?_eq_some_iff.1 hmin).2 w hmem
      exact Nat.lt_of_lt_of_le hv hle

theorem Poised.atTime {time : Nat} (h : d.Poised now) (hw : ∀ w ∈ d.wake? now, now < w → time < w) :
    d.Poised time where
  quiet
    | .processor => quiet_of_wake hw (Or.inl rfl) (h.quiet .processor)
    | .unlocker => quiet_of_wake hw (Or.inr (Or.inl rfl)) (h.quiet .unlocker)
    | .cleaner => quiet_of_wake hw (Or.inr (Or.inr rfl)) (h.quiet .cleaner)
  sends := h.sends
  grounded := h.grounded

end Dispatcher

namespace Settles

variable {d : Dispatcher} {task : Task} {now : Nat} {l l' : Loop Flight} {t t' : Trial}

/-- A loop that was told to stop waits for no tick. -/
theorem ne_waiting (h : Settles d task now l t l' t') (hv : d.signal.value = true) (ticker : Ticker) :
    l' ≠ .waiting ticker := by
  induction h with
  | ended | stopped | begins | breaksOff | flies | goesOn | crashes => exact (nomatch ·)
  | waits hc => cases (if_pos hv).symm.trans hc
  | iterates _ _ _ ih | lands _ _ _ ih => exact ih

/-- Each time that it is waited for, fewer of its messages are left. -/
theorem pending_lt {ticker : Ticker} {p : Pass} {o : Outcome} {wake : Nat}
    (h : Settles d task now (.inFlight ticker ⟨p, o⟩ wake) t l' t') (hv : d.signal.value = true)
    (hw : wake ≤ now) (hs : (Loop.inFlight ticker ⟨p, o⟩ wake).Sends d.settings) :
    l'.pending < (Loop.inFlight ticker ⟨p, o⟩ wake).pending := by
  obtain ⟨m, resume, hp⟩ := hs
  cases h with
  | flies hnot => exact absurd hw hnot
  | goesOn _ hr =>
      obtain ⟨-, ⟨m', resume', hq⟩, hnot⟩ := Dispatcher.resume_awaits hr
      exact Pass.waiting_lt_of_notAfter hp hq hnot
  | crashes => exact Pass.waiting_pos hp
  | lands _ _ hs =>
      have hl' : l' = .ended := by
        cases hs with
        | stopped => rfl
        | waits hc | begins hc | breaksOff hc | iterates hc => cases (if_pos hv).symm.trans hc
      rw [hl']
      exact Pass.waiting_pos hp

end Settles

/-- Loops that wait for nothing that is due stay as they are. -/
theorem Dispatcher.settleLoops_of_quiet {d : Dispatcher} {now : Nat} {t : Trial}
    (hq : ∀ task, (d.loop task).Quiet now) (hw : ∀ task ticker, d.loop task ≠ .waiting ticker)
    (hf : t.faults = d.faults) (hb : t.broker = d.broker) :
    d.settleLoops now t = (d, t) := by
  have hloop : ∀ task u, d.settleLoop task now (d.loop task) u = (d.loop task, u) := by
    intro task u
    have hquiet := hq task
    have hne := hw task
    revert hquiet hne
    cases d.loop task with
    | waiting ticker => exact fun _ hne => absurd rfl (hne ticker)
    | inFlight ticker f wake => exact fun hquiet _ => (Settles.flies (Nat.not_le_of_lt hquiet)).eq
    | ended => exact fun _ _ => Settles.ended.eq
  have hp : ∀ u, d.settleLoop .processor now d.processor u = (d.processor, u) := hloop .processor
  have hu : ∀ u, d.settleLoop .unlocker now d.unlocker u = (d.unlocker, u) := hloop .unlocker
  have hc : ∀ u, d.settleLoop .cleaner now d.cleaner u = (d.cleaner, u) := hloop .cleaner
  unfold settleLoops
  simp only [hp, hu, hc, hf, hb]

/-! ## Steps of others -/

namespace Simulation

/-- Others use the store, or time passes. -/
def Step.IsOutside : Step → Prop
  | .access _ | .advance _ => True
  | .start .. | .signal .. | .drop _ | .finished _ | .join _ => False

/-- The steps are taken one after the other. -/
def performAll (s : Simulation) (ks : List Step) : Simulation := ks.foldl (fun s k => (s.perform k).2) s

/-- What every visit keeps, and all that happens in between, holds when time has passed. -/
theorem advanceTo_induction {P : Simulation → Prop} {target : Nat} {s : Simulation}
    (visit : ∀ {s w}, s.wake? = some w → s.time < w → w ≤ target → P s → P (s.atTime w).settle)
    (stay : ∀ {s}, s.time ≤ target → (∀ w ∈ s.wake?, s.time < w → target < w) → P s → P (s.atTime target))
    (hle : s.time ≤ target) (h : P s) : P (s.advanceTo target) := by
  fun_induction Simulation.advanceTo target s with
  | case1 s w hw hlt ih => exact ih hlt.2 (visit hw hlt.1 hlt.2 h)
  | case2 s w hw hnot =>
      refine stay hle (fun v hv hlt => ?_) h
      cases hw.symm.trans hv
      exact Nat.lt_of_not_le fun hle => hnot ⟨hlt, hle⟩
  | case3 s hw =>
      refine stay hle (fun v hv _ => ?_) h
      cases hw.symm.trans hv

/-- What every visit keeps, the passing of time and the steps of others, holds after such steps. -/
theorem performAll_induction {P : Simulation → Prop} {s : Simulation} {ks : List Step}
    (visit : ∀ {s w}, s.wake? = some w → s.time < w → P s → P (s.atTime w).settle)
    (stay : ∀ {s target}, s.time ≤ target → (∀ w ∈ s.wake?, s.time < w → target < w) → P s →
      P (s.atTime target))
    (access : ∀ {s store}, P s → P { s with store }) (hks : ∀ k ∈ ks, k.IsOutside) (h : P s) :
    P (s.performAll ks) := by
  induction ks generalizing s with
  | nil => exact h
  | cons k ks ih =>
      refine ih (List.forall_mem_cons.1 hks).2 ?_
      have hk := (List.forall_mem_cons.1 hks).1
      cases k with
      | access a => exact access h
      | advance n =>
          exact advanceTo_induction (fun hw hlt _ h => visit hw hlt h) stay s.timer.le_wake h
      | start | signal | drop | finished | join => exact hk.elim

variable {i : Identity} {signal : StopSignal} {s : Simulation} {r : Running}

/-- What a visit makes of the only dispatcher. -/
def visit (s : Simulation) (r : Running) : Running :=
  (attend { r with dispatcher := (r.dispatcher.settleLoops s.time (r.dispatcher.trial s.store s.now)).1 }
    (r.dispatcher.settleLoops s.time (r.dispatcher.trial s.store s.now)).2).1

theorem dispatcher_visit :
    (s.visit r).dispatcher = (r.dispatcher.settleLoops s.time (r.dispatcher.trial s.store s.now)).1 :=
  (attend_spec ..).1

theorem named_visit : (s.visit r).named = r.named := (attend_spec ..).2.1

theorem attend_spawned (h : r.mode = .spawned) (t : Trial) : attend r t = (r, t) := by
  unfold attend
  rw [h]

theorem spawned_visit (h : r.mode = .spawned) : (s.visit r).mode = .spawned := by
  unfold visit attend
  rw [h]

/-- The dispatcher is the only one, and nothing is due. -/
structure Keeps (i : Identity) (signal : StopSignal) (s : Simulation) (r : Running) : Prop where
  running : s.running = [r]
  identity : r.dispatcher.identity = i
  signal : r.dispatcher.signal = signal
  poised : r.dispatcher.Poised s.time

namespace Keeps

theorem settle_of_poised {before : Nat} (hr : s.running = [r]) (hi : r.dispatcher.identity = i)
    (hsignal : r.dispatcher.signal = signal) (hp : r.dispatcher.Poised before) :
    Keeps i signal s.settle (s.visit r) := by
  rw [settle_eq_afterVisit hr]
  refine ⟨rfl, ?_, ?_, ?_⟩
  all_goals rw [dispatcher_visit]
  · exact hi
  · exact hsignal
  · exact hp.settleLoops

theorem settle (h : Keeps i signal s r) : Keeps i signal s.settle (s.visit r) :=
  settle_of_poised h.running h.identity h.signal h.poised

theorem wakes (h : Keeps i signal s r) (w : Nat) : Keeps i signal (s.atTime w).settle ((s.atTime w).visit r) :=
  settle_of_poised (s := s.atTime w) h.running h.identity h.signal h.poised

theorem atTime {time : Nat} (h : Keeps i signal s r) (hw : ∀ w ∈ s.wake?, s.time < w → time < w) :
    Keeps i signal (s.atTime time) r where
  running := h.running
  identity := h.identity
  signal := h.signal
  poised := h.poised.atTime (wake?_eq h.running ▸ hw)

theorem performAll {ks : List Step} (hks : ∀ k ∈ ks, k.IsOutside) (h : Keeps i signal s r) :
    ∃ r', Keeps i signal (s.performAll ks) r' ∧ r'.named = r.named ∧
      (r.mode = .spawned → r'.mode = .spawned) := by
  refine performAll_induction (P := fun s => ∃ r', Keeps i signal s r' ∧ r'.named = r.named ∧
      (r.mode = .spawned → r'.mode = .spawned))
    (fun {s w} _ _ ⟨r', h, hn, hm⟩ => ?_) (fun _ hw ⟨r', h, hn⟩ => ⟨r', h.atTime hw, hn⟩)
    (fun ⟨r', h, hn⟩ => ⟨r', ⟨h.running, h.identity, h.signal, h.poised⟩, hn⟩) hks ⟨r, h, rfl, id⟩
  exact ⟨_, h.wakes w, named_visit.trans hn, fun hs => spawned_visit (hm hs)⟩

theorem answersTo (h : Keeps i signal s r) (hn : r.named = true) : r.answersTo i.name = true := by
  have hname : r.dispatcher.name = i.name := congrArg Identity.name h.identity
  simp [Running.answersTo, hn, hname]

theorem signal_eq (h : Keeps i signal s r) (hn : r.named = true) (f : StopSignal → StopSignal) :
    s.signal i.name f = ({ s with running := [r.signal f] } : Simulation).settle :=
  congrArg Simulation.settle (modify_eq h.running (h.answersTo hn) (·.signal f))

theorem signal_set {told : Bool} (h : Keeps i ⟨told, false⟩ s r) :
    (r.signal (StopSignal.set true)).dispatcher.signal = ⟨true, false⟩ := by
  show StopSignal.set true r.dispatcher.signal = _
  rw [h.signal]
  rfl

end Keeps

/-- The dispatcher has been told to stop. -/
structure Told (i : Identity) (s : Simulation) (r : Running) : Prop extends Keeps i ⟨true, false⟩ s r where
  ne_waiting : ∀ task ticker, r.dispatcher.loop task ≠ .waiting ticker

namespace Told

theorem of_poised {before : Nat} (hr : s.running = [r]) (hi : r.dispatcher.identity = i)
    (hsignal : r.dispatcher.signal = ⟨true, false⟩) (hp : r.dispatcher.Poised before) :
    Told i s.settle (s.visit r) where
  toKeeps := .settle_of_poised hr hi hsignal hp
  ne_waiting task ticker := by
    obtain ⟨t, t', hs⟩ :=
      r.dispatcher.settles_settleLoops s.time (r.dispatcher.trial s.store s.now) task
    rw [dispatcher_visit]
    exact hs.ne_waiting (by rw [hsignal]) ticker

/-- The stop signal reaches the loops. -/
theorem of_signal {told : Bool} (h : Keeps i ⟨told, false⟩ s r) (hn : r.named = true) :
    Told i (s.signal i.name (StopSignal.set true)) (s.visit (r.signal (StopSignal.set true))) := by
  rw [h.signal_eq hn]
  exact .of_poised rfl h.identity h.signal_set ⟨h.poised.quiet, h.poised.sends, h.poised.grounded⟩

theorem wakes (h : Told i s r) (w : Nat) : Told i (s.atTime w).settle ((s.atTime w).visit r) :=
  of_poised (s := s.atTime w) h.running h.identity h.signal h.poised

theorem ended_of_ne {task : Task} (h : Told i s r) (ht : task ≠ .processor) :
    r.dispatcher.loop task = .ended := by
  have hne := h.ne_waiting task
  have hgrounded := h.poised.grounded task ht
  revert hne hgrounded
  cases r.dispatcher.loop task with
  | waiting ticker => exact fun hne _ => absurd rfl (hne ticker)
  | inFlight => exact fun _ hgrounded => nomatch hgrounded
  | ended => exact fun _ _ => rfl

theorem cases (h : Told i s r) :
    r.dispatcher.isEnded = true ∨ ∃ ticker p o wake, r.dispatcher.processor = .inFlight ticker ⟨p, o⟩ wake ∧
      s.time < wake ∧ r.dispatcher.wake? s.time = some wake := by
  refine Dispatcher.ended_or_flies (fun task ht => h.ended_of_ne ht) fun w hw => ?_
  have hquiet : r.dispatcher.processor.Quiet s.time := h.poised.quiet .processor
  have hne : ∀ ticker, r.dispatcher.processor ≠ .waiting ticker := h.ne_waiting .processor
  revert hw hquiet hne
  cases r.dispatcher.processor with
  | waiting ticker => exact fun _ _ hne => absurd rfl (hne ticker)
  | inFlight ticker f wake =>
      intro hw hquiet _
      cases hw
      exact ⟨⟨ticker, f.pass, f.outcome, rfl⟩, hquiet⟩
  | ended => exact fun hw => nomatch hw

/-- Each time that it is waited for, fewer of its messages are left. -/
theorem pending_lt {ticker : Ticker} {p : Pass} {o : Outcome} {wake : Nat} (h : Told i s r)
    (hp : r.dispatcher.processor = .inFlight ticker ⟨p, o⟩ wake) :
    ((s.atTime wake).visit r).dispatcher.processor.pending < r.dispatcher.processor.pending := by
  have hsends : r.dispatcher.processor.Sends r.dispatcher.settings := h.poised.sends .processor
  have hsettles := settles r.dispatcher .processor wake r.dispatcher.processor
    (r.dispatcher.trial s.store (s.atTime wake).now)
  rw [dispatcher_visit]
  rw [hp] at hsends hsettles ⊢
  have hfewer := hsettles.pending_lt (by rw [h.signal]) (Nat.le_refl _) hsends
  rw [← hp] at hfewer
  exact hp ▸ hfewer

end Told

end Simulation

namespace Opening

open Simulation

theorem keeps_begun {o : Opening} (hc : o.config.validate = .ok ()) (initial : Bool) :
    ∃ r, Keeps o.identity ⟨initial, false⟩ (o.begun initial) r ∧ r.named = true ∧
      (o.mode = .spawned → r.mode = .spawned) := by
  obtain ⟨d, hi, hsignal, hloop, hbegun⟩ := begun_eq hc initial
  have hpoised : (d.startLoops o.fresh.time (o.trial d)).1.Poised o.fresh.time := by
    refine Dispatcher.poised_startLoops fun task => ?_
    obtain ⟨ticker, hl, -⟩ := hloop task
    exact ⟨ticker, hl⟩
  obtain ⟨hdispatcher, hnamed, -⟩ := attend_spec ⟨(d.startLoops o.fresh.time (o.trial d)).1, o.mode, true⟩
    (d.startLoops o.fresh.time (o.trial d)).2
  have hkeeps : Keeps o.identity ⟨initial, false⟩ (o.fresh.start d o.mode)
      (attend ⟨(d.startLoops o.fresh.time (o.trial d)).1, o.mode, true⟩
        (d.startLoops o.fresh.time (o.trial d)).2).1 := by
    refine ⟨rfl, ?_, ?_, ?_⟩
    all_goals rw [hdispatcher]
    · exact hi
    · exact hsignal
    · exact hpoised
  rw [hbegun]
  refine ⟨_, hkeeps.settle, named_visit.trans hnamed, fun hmode => spawned_visit ?_⟩
  rw [attend_spawned hmode]
  exact hmode

end Opening

end Outbox

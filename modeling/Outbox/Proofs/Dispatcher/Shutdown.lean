import Mathlib
import Outbox.Proofs.Dispatcher.Passage

/-!
# Graceful shutdown

A dispatcher that is alone in a simulation, from its start to the end of its loops, whenever it is told to
stop.
-/

namespace Outbox

/-- What a dispatcher is started with, and in what surroundings. -/
structure Opening where
  epoch : Instant
  timer : Timer := .limited
  time : Nat
  store : Store
  /-- Whether someone waits for it to stop from the start. -/
  waits : Bool
  name : String
  machine : MachineId
  config : Config
  clock : Option Instant
  faults : List Fault
  broker : Broker

namespace Opening

def identity (o : Opening) : Identity := ⟨o.name, o.machine, o.config, o.clock⟩

def mode (o : Opening) : Mode := if o.waits then .running false else .spawned

/-- Before the start. -/
def fresh (o : Opening) : Simulation := { epoch := o.epoch, timer := o.timer, time := o.time, store := o.store }

/-- The dispatcher is started, with a stop signal that has the value `initial`. -/
def begun (o : Opening) (initial : Bool) : Simulation :=
  (o.fresh.perform (.start o.mode initial o.name o.machine o.config o.clock o.faults o.broker)).2

/-- All that was due up to the time `done` has been done when it is the time `last`. What is due at `last`
itself has been done if the two are the same. -/
def before (o : Opening) (initial : Bool) (done last : Nat) : Simulation :=
  ((o.begun initial).advanceTo done).atTime last

/-- The stop signal is given at the time `last`. -/
def told (o : Opening) (initial : Bool) (done last : Nat) : Simulation :=
  ((o.before initial done last).perform (.signal o.name true)).2

/-- The dispatcher is told to stop, and waited for. To wait for one that was spawned is to tell it. -/
def shutDown (o : Opening) (initial : Bool) (done last : Nat) : Simulation :=
  ((if o.waits then o.told initial done last else o.before initial done last).perform (.join o.name)).2

end Opening

/-- What is so when a dispatcher that was told to stop at the time `last` has been waited for. -/
structure ShutDown (o : Opening) (done last : Nat) (its : Task → List (List Stamped)) (s : Simulation) :
    Prop where
  /-- A task consists of iterations that are whole. -/
  deeds : ∀ task, s.deeds o.name task = (its task).flatten
  whole : ∀ task, ∀ it ∈ its task, o.identity.Whole task it
  /-- None begins after the signal. -/
  began : ∀ task, ∀ it ∈ its task, ∀ x ∈ it.head?, x.1 ≤ last
  /-- It is the time of the signal, or of the end of an iteration, whichever is later. -/
  time : IsGreatest {t | t = last ∨ ∃ task, ∃ it ∈ its task, ∃ x ∈ it.getLast?, x.1 = t} s.time
  /-- The loops have ended, and did so at that time. -/
  ended : ∃ r, s.running = [r] ∧ r.dispatcher.isEnded = true
  endsAt : (o.told false done last).EndsAt o.waits s.time
  /-- Unless a release has failed, the machine has no lock. -/
  freed : (∀ x ∈ s.seen, x.2.isFailedRelease o.name = false) → s.store.Without o.machine

/-- A dispatcher has done nothing, and its loops have ended. -/
structure Idle (o : Opening) (s : Simulation) : Prop where
  store : s.store = o.store
  nothing : ∀ task, s.deeds o.name task = []
  ended : ∃ r, s.running = [r] ∧ r.dispatcher.isEnded = true ∧
    r.mode = if o.waits then .stopped else .spawned

namespace Opening

variable {o : Opening} {done last : Nat}

open Simulation

/-- The loops that a start makes wait for a tick that is due at once. -/
theorem dispatcher?_eq (hc : o.config.validate = .ok ()) :
    ∃ d : Dispatcher, o.fresh.dispatcher? o.name o.machine o.config o.clock o.faults o.broker = .ok d ∧
      d.identity = o.identity ∧
      ∀ task, ∃ h, d.loop task = .waiting (.start o.timer (o.config.interval task) o.time h) := by
  unfold dispatcher?
  split
  · rename_i e he
    cases hc.symm.trans he
  · refine ⟨_, rfl, rfl, fun task => ?_⟩
    cases task <;> exact ⟨_, rfl⟩

theorem begun_of_dispatcher? {d : Dispatcher} (initial : Bool)
    (h : o.fresh.dispatcher? o.name o.machine o.config o.clock o.faults o.broker = .ok d) :
    o.begun initial = (o.fresh.start { d with signal := { value := initial } } o.mode).settle := by
  unfold begun perform
  simp only [h]
  rfl

theorem begun_eq (hc : o.config.validate = .ok ()) (initial : Bool) :
    ∃ d : Dispatcher, d.identity = o.identity ∧ d.signal = ⟨initial, false⟩ ∧
      (∀ task, ∃ ticker, d.loop task = .waiting ticker ∧ ticker.due = o.time) ∧
      o.begun initial = (o.fresh.start d o.mode).settle := by
  obtain ⟨d, hd, hi, hloop⟩ := dispatcher?_eq hc
  refine ⟨{ d with signal := { value := initial } }, hi, rfl, fun task => ?_, begun_of_dispatcher? initial hd⟩
  obtain ⟨hpos, hl⟩ := hloop task
  cases task with
  | processor | unlocker | cleaner => exact ⟨_, hl, rfl⟩

theorem waits_of_mode : (o.waits = false → o.mode = .spawned) ∧
    (o.waits = true → ∃ told, o.mode = .running told) := by
  unfold mode
  cases o.waits with
  | false => exact ⟨fun _ => rfl, (nomatch ·)⟩
  | true => exact ⟨(nomatch ·), fun _ => ⟨false, rfl⟩⟩

/-- Before the loops start. Only to someone who waits is the start reported. -/
def trial (o : Opening) (d : Dispatcher) : Trial :=
  if o.mode = .spawned then d.trial o.fresh.store o.fresh.now
  else (d.trial o.fresh.store o.fresh.now).log (.dispatcherStarted d.machine)

theorem trial_spec (o : Opening) (d : Dispatcher) :
    (o.trial d).store = o.store ∧ (o.trial d).now = (d.clock <|> o.fresh.now) ∧
      ∀ name task, (o.trial d).deeds name task = [] := by
  unfold trial
  split
  · exact ⟨rfl, rfl, fun _ _ => rfl⟩
  · exact ⟨rfl, rfl, fun _ _ => rfl⟩

theorem start_eq (o : Opening) (d : Dispatcher) :
    o.fresh.start d o.mode = o.fresh.afterVisit
      ⟨(d.startLoops o.fresh.time (o.trial d)).1, o.mode, true⟩ (d.startLoops o.fresh.time (o.trial d)).2 :=
  rfl

/-- The first iterations begin at the start. -/
theorem rested_start {d : Dispatcher} (hi : d.identity = o.identity) (hsignal : d.signal = ⟨false, false⟩)
    (hloop : ∀ task, ∃ ticker, d.loop task = .waiting ticker ∧ ticker.due = o.time) (hlast : o.time ≤ last)
    (hsound : (o.fresh.start d o.mode).Sound o.identity) :
    ∃ r, Rested o.identity o.waits false last (o.fresh.start d o.mode) r := by
  obtain ⟨hstore, hnow, hdeeds⟩ := o.trial_spec d
  rw [start_eq] at hsound ⊢
  obtain ⟨hold, hnew⟩ := roomy_of_afterVisit hsound.roomy
  rw [← hi] at hsound hold hnew
  have haccount : ∀ task, ∃ its cur,
      Account d.identity task last its cur (d.loop task) (o.fresh.deeds d.name task) := by
    intro task
    obtain ⟨ticker, hl, -⟩ := hloop task
    rw [hl]
    exact ⟨[], [], .start ..⟩
  have hmoves : d.processor.Moves false o.fresh.time := by
    obtain ⟨ticker, hl, hdue⟩ := hloop .processor
    rw [show d.processor = .waiting ticker from hl]
    exact ⟨rfl, Nat.le_of_eq hdue⟩
  have hclock : (o.trial d).now.isSome := by
    rw [hnow]
    exact hsound.timed
  obtain ⟨es, hv⟩ := visited_startLoops haccount (by rw [hsignal]) (fun _ => hlast) hclock hold hnew
  have hi' : (d.startLoops o.fresh.time (o.trial d)).1.identity = o.identity := hi
  have hsignal' : (d.startLoops o.fresh.time (o.trial d)).1.signal = ⟨false, false⟩ := hsignal
  have hgoes : ∀ task, d.loop task = .ended → false = true := by
    intro task he
    obtain ⟨ticker, hl, -⟩ := hloop task
    cases hl.symm.trans he
  obtain ⟨r, hr, -⟩ := rested_of_visited hv hstore (hdeeds _) hi hi' hsignal hsignal' waits_of_mode.1
    waits_of_mode.2 hgoes (Or.inl hmoves) fun _ h => nomatch h
  exact ⟨r, hr⟩

theorem serves_before (hc : o.config.validate = .ok ()) (hd : o.time ≤ done) (hl : done ≤ last)
    (hsound : (o.before false done last).Sound o.identity) :
    ∃ r, Serves o.identity o.waits false last (o.before false done last) r := by
  obtain ⟨d, hi, hsignal, hloop, hbegun⟩ := begun_eq hc false
  have hlast : o.time ≤ last := Nat.le_trans hd hl
  have htime : (o.begun false).time = o.time := by rw [hbegun]; rfl
  have hadvance : Onward (o.begun false) ((o.begun false).advanceTo done) := .advanceTo (htime ▸ hd)
  have hjump : Onward ((o.begun false).advanceTo done) (o.before false done last) :=
    .atTime (time_advanceTo ▸ hl)
  have hsettle : Onward (o.fresh.start d o.mode) (o.begun false) := hbegun ▸ .settle _
  obtain ⟨r₀, h₀⟩ := rested_start hi hsignal hloop hlast
    (hsound.of_onward (hsettle.trans (hadvance.trans hjump)))
  have hsound' : (o.fresh.start d o.mode).settle.Sound o.identity :=
    hbegun ▸ hsound.of_onward (hadvance.trans hjump)
  obtain ⟨r₁, h₁, -⟩ := h₀.settle h₀.live (fun _ => hlast) hsound'
  rw [← hbegun] at h₁
  obtain ⟨r₂, h₂⟩ := h₁.advanceTo (htime ▸ hd) hl (hsound.of_onward hjump)
  exact ⟨r₂, h₂.atTime (time_advanceTo ▸ hl)⟩

/-- To join is to tell, if that has not been done, and to wait for the end. -/
theorem shutDown_eq {r : Running} (h : Serves o.identity o.waits false last (o.before false done last) r)
    (hsound : (o.shutDown false done last).Sound o.identity) :
    o.shutDown false done last =
      ((o.told false done last).awaitEnd o.name ((o.told false done last).patience o.name)).modify o.name
        Running.forget := by
  cases hw : o.waits with
  | false =>
      have hshut : o.shutDown false done last = (o.before false done last).join o.name := by
        unfold shutDown
        rw [if_neg (by simp [hw])]
        rfl
      rw [hshut]
      exact (join_eq h.find?).trans (if_pos (h.awaited.spawned hw))
  | true =>
      have hshut : o.shutDown false done last = (o.told false done last).join o.name := by
        unfold shutDown
        rw [if_pos hw]
        rfl
      rw [hshut] at hsound ⊢
      obtain ⟨r', h'⟩ := h.tell (hsound.of_onward (.join ..))
      exact (join_eq h'.find?).trans (if_neg (h'.awaited.ne_spawned hw))

/-- When the loops have ended, nothing is left of an iteration that is not whole. -/
theorem shutDown_of_rested {s : Simulation} {r : Running} (h : Rested o.identity o.waits true last s r)
    (hend : r.dispatcher.isEnded = true) (hle : last ≤ s.time) (htime : s.time = last ∨ s.Landed o.identity)
    (hends : (o.told false done last).EndsAt o.waits s.time) :
    ∃ its, ShutDown o done last its (s.modify o.name Running.forget) := by
  have hloops := Dispatcher.isEnded_iff.1 hend
  have haccount : ∀ task, ∃ its, Account o.identity task last its [] .ended (s.deeds o.name task) := by
    intro task
    obtain ⟨its, cur, ha⟩ := h.account task
    rw [hloops task] at ha
    obtain rfl : cur = [] := ha.underWay
    exact ⟨its, ha⟩
  choose its ha using haccount
  -- The account is all in whole iterations now, so that the last deed is the end of one.
  have hdeeds : ∀ task, s.deeds o.name task = (its task).flatten := fun task =>
    (ha task).deeds_eq.trans (List.append_nil _)
  have hmodify : s.modify o.name Running.forget = { s with running := [r.forget] } := h.modify _
  rw [hmodify]
  refine ⟨its, hdeeds, fun task => (ha task).whole, ?_, ⟨?_, ?_⟩, ⟨_, rfl, hend⟩, hends, fun hreleased => ?_⟩
  · exact fun task it hit => (ha task).began it (List.mem_append_left _ hit)
  · refine htime.imp_right fun ⟨x, hx, hnow⟩ => ⟨.processor, ?_⟩
    have hlast : (its .processor).flatten.getLast? = some x := hdeeds .processor ▸ hx
    rw [List.getLast?_flatten] at hlast
    obtain ⟨it, hit, hx⟩ := List.exists_of_findSome?_eq_some hlast
    exact ⟨it, List.mem_reverse.1 hit, x, hx, hnow⟩
  · rintro t (rfl | ⟨task, it, hit, x, hx, rfl⟩)
    · exact hle
    · have hmem : x ∈ s.deeds o.name task := by
        rw [hdeeds]
        exact List.mem_flatten.2 ⟨it, hit, List.mem_of_mem_getLast? hx⟩
      exact h.past x (mem_seen_of_mem_deeds hmem)
  · have hlanded : r.dispatcher.processor.isInFlight = false := by
      rw [show r.dispatcher.processor = .ended from hloops .processor]
      rfl
    rcases h.freed with hflies | ⟨x, hx, hfailed⟩ | hfree
    · cases hflies.symm.trans hlanded
    · cases hfailed.symm.trans (hreleased x hx)
    · exact hfree

/-- A dispatcher that nothing breaks off shuts down gracefully. -/
theorem shutDown_spec (hc : o.config.validate = .ok ()) (hd : o.time ≤ done) (hl : done ≤ last)
    (hsound : (o.shutDown false done last).Sound o.identity) :
    ∃ its, ShutDown o done last its (o.shutDown false done last) := by
  have htold : Onward (o.before false done last) (o.told false done last) := .signal ..
  have hbefore : Onward (o.before false done last) (o.shutDown false done last) := by
    unfold shutDown
    split
    · exact htold.trans (.join ..)
    · exact .join ..
  obtain ⟨r, h⟩ := serves_before hc hd hl (hsound.of_onward hbefore)
  have heq := shutDown_eq h hsound
  rw [heq] at hsound ⊢
  have hwait : Onward (o.told false done last)
    ((o.told false done last).awaitEnd o.name ((o.told false done last).patience o.name)) := .awaitEnd ..
  obtain ⟨r₁, h₁⟩ := h.tell (hsound.of_onward (hwait.trans (.modify ..)))
  obtain ⟨r', h', hend, hlast, hends⟩ := h₁.awaitEnd h₁.pending_le (hsound.of_onward (.modify ..))
  refine shutDown_of_rested h' hend hwait.time ?_ hends
  exact hlast.imp_left fun ⟨_, hstay⟩ => congrArg Simulation.time hstay

end Opening

/-! ## A signal that is there from the start -/

/-- A loop that finds the stop signal given does nothing. -/
def Loop.Stopped (signal : StopSignal) : Loop Flight → Prop
  | .waiting _ => signal.value = true
  | .inFlight .. => False
  | .ended => True

theorem Settles.of_stopped {d : Dispatcher} {task : Task} {now : Nat} {l l' : Loop Flight} {t t' : Trial}
    (h : Settles d task now l t l' t') (hl : l.Stopped d.signal) : l' = .ended ∧ Trial.Logged t t' := by
  have hchoose : ∀ {ticker}, d.signal.value = true →
      Loop.choose d.signal (d.lingers task now) ticker now = .stop := fun hv => if_pos hv
  cases h with
  | ended => exact ⟨rfl, .refl t⟩
  | stopped => exact ⟨rfl, .log t _⟩
  -- None of these is what a loop chooses that is told to stop.
  | waits hc | begins hc | breaksOff hc | iterates hc => cases (hchoose hl).symm.trans hc
  | flies | goesOn | crashes | lands => exact hl.elim

namespace Dispatcher

variable {d : Dispatcher} {now : Nat} {t : Trial}

theorem settleLoops_of_stopped (h : ∀ task, (d.loop task).Stopped d.signal) :
    (d.settleLoops now t).1.isEnded = true ∧ Trial.Logged t (d.settleLoops now t).2 := by
  obtain ⟨hp, lp⟩ := (settles d .processor now d.processor t).of_stopped (h .processor)
  obtain ⟨hu, lu⟩ := (settles d .unlocker now d.unlocker _).of_stopped (h .unlocker)
  obtain ⟨hc, lc⟩ := (settles d .cleaner now d.cleaner _).of_stopped (h .cleaner)
  exact ⟨isEnded_iff.2 fun | .processor => hp | .unlocker => hu | .cleaner => hc, (lp.trans lu).trans lc⟩

theorem startLoops_of_stopped (h : ∀ task, (d.loop task).Stopped d.signal) :
    (d.startLoops now t).1.isEnded = true ∧ Trial.Logged t (d.startLoops now t).2 := by
  obtain ⟨hp, lp⟩ := (settles d .processor now d.processor (t.log _)).of_stopped (h .processor)
  obtain ⟨hu, lu⟩ := (settles d .unlocker now d.unlocker (Trial.log _ _)).of_stopped (h .unlocker)
  obtain ⟨hc, lc⟩ := (settles d .cleaner now d.cleaner (Trial.log _ _)).of_stopped (h .cleaner)
  have hlogs := ((Trial.Logged.log t _).trans lp).trans ((Trial.Logged.log _ _).trans lu)
  exact ⟨isEnded_iff.2 fun | .processor => hp | .unlocker => hu | .cleaner => hc,
    hlogs.trans ((Trial.Logged.log _ _).trans lc)⟩

end Dispatcher

namespace Idle

open Simulation

variable {o : Opening} {s : Simulation}

theorem afterVisit {r : Running} {t u : Trial} (hs : ∀ task, s.deeds o.name task = [])
    (ht : t.store = o.store) (hdeeds : ∀ task, t.deeds o.name task = []) (hu : Trial.Logged t u)
    (hend : r.dispatcher.isEnded = true)
    (hmode : (attend r u).1.mode = if o.waits then .stopped else .spawned) : Idle o (s.afterVisit r u) := by
  obtain ⟨hdispatcher, -, hlog⟩ := attend_spec r u
  have hall := hu.trans hlog
  have hdid : Trial.Did o.name [] t (attend r u).2 := hall.did
  refine ⟨hall.store.trans ht, fun task => ?_, _, rfl, by rwa [hdispatcher], hmode⟩
  rw [deeds_of_seen (s := s) rfl, hs, hdid.deeds, hdeeds]
  rfl

theorem settle (h : Idle o s) : Idle o s.settle := by
  obtain ⟨r, hr, hend, hmode⟩ := h.ended
  have hloops := Dispatcher.isEnded_iff.1 hend
  have hstopped : ∀ task, (r.dispatcher.loop task).Stopped r.dispatcher.signal := by
    intro task
    rw [hloops]
    trivial
  have hquiet : (r.dispatcher.settleLoops s.time (r.dispatcher.trial s.store s.now)).1.isEnded = true ∧
      Trial.Logged (r.dispatcher.trial s.store s.now)
        (r.dispatcher.settleLoops s.time (r.dispatcher.trial s.store s.now)).2 :=
    Dispatcher.settleLoops_of_stopped hstopped
  obtain ⟨hend', hlog⟩ := hquiet
  rw [settle_eq_afterVisit hr]
  refine afterVisit h.nothing h.store (fun _ => rfl) hlog hend' ?_
  unfold attend
  split
  · rename_i told htold
    rw [show r.mode = .running told from htold] at hmode
    split at hmode <;> cases hmode
  · exact hmode

theorem atTime (h : Idle o s) (time : Nat) : Idle o (s.atTime time) := ⟨h.store, h.nothing, h.ended⟩

theorem advanceTo (h : Idle o s) (target : Nat) : Idle o (s.advanceTo target) := by
  obtain ⟨r, hr, hend, -⟩ := h.ended
  rw [advanceTo_of_none ((wake?_eq hr).trans (Dispatcher.wake?_eq_none hend _))]
  exact h.atTime target

theorem modify (h : Idle o s) (name : String) {f : Running → Running}
    (hf : ∀ r, (f r).dispatcher.isEnded = r.dispatcher.isEnded ∧ (f r).mode = r.mode) :
    Idle o (s.modify name f) := by
  obtain ⟨r, hr, hend, hmode⟩ := h.ended
  refine ⟨h.store, h.nothing, if r.answersTo name then f r else r, ?_, ?_⟩
  · unfold Simulation.modify
    rw [hr]
    rfl
  · split
    · rw [(hf r).1, (hf r).2]
      exact ⟨hend, hmode⟩
    · exact ⟨hend, hmode⟩

theorem signal (h : Idle o s) (name : String) (f : StopSignal → StopSignal) : Idle o (s.signal name f) := by
  have hmodify : Idle o (s.modify name (·.signal f)) := h.modify name fun _ => ⟨rfl, rfl⟩
  exact hmodify.settle

theorem awaitEnd (h : Idle o s) (name : String) (n : Nat) : s.awaitEnd name n = s := by
  obtain ⟨r, hr, hend, -⟩ := h.ended
  cases n with
  | zero => rfl
  | succ n =>
      unfold Simulation.awaitEnd
      split
      · rename_i w hw
        obtain ⟨r', hfind, hw⟩ := Option.bind_eq_some_iff.1 hw
        have hmem : r' ∈ [r] := hr ▸ List.mem_of_find?_eq_some hfind
        obtain rfl := List.mem_singleton.1 hmem
        rw [if_pos hend] at hw
        cases hw
      · rfl

theorem join (h : Idle o s) (name : String) : Idle o (s.join name) := by
  cases hfind : s.find? name with
  | none =>
      unfold Simulation.join
      rwa [hfind]
  | some r =>
      rw [join_eq hfind]
      split
      · rw [(h.signal name _).awaitEnd]
        exact (h.signal name _).modify name fun _ => ⟨rfl, rfl⟩
      · rw [h.awaitEnd]
        exact h.modify name fun _ => ⟨rfl, rfl⟩

theorem begun (hc : o.config.validate = .ok ()) : Idle o (o.begun true) := by
  obtain ⟨d, hi, hsignal, hloop, hbegun⟩ := Opening.begun_eq hc true
  have hstopped : ∀ task, (d.loop task).Stopped d.signal := by
    intro task
    obtain ⟨ticker, hl, -⟩ := hloop task
    rw [hl, hsignal]
    rfl
  have hquiet : (d.startLoops o.fresh.time (o.trial d)).1.isEnded = true ∧
      Trial.Logged (o.trial d) (d.startLoops o.fresh.time (o.trial d)).2 :=
    Dispatcher.startLoops_of_stopped hstopped
  obtain ⟨hend, hlog⟩ := hquiet
  have hawaited : (attend ⟨(d.startLoops o.fresh.time (o.trial d)).1, o.mode, true⟩
      (d.startLoops o.fresh.time (o.trial d)).2).1.Awaited o.waits :=
    awaited_attend _ Opening.waits_of_mode.1 Opening.waits_of_mode.2
      fun _ => congrArg StopSignal.value hsignal
  obtain ⟨hstore, -, hdeeds⟩ := o.trial_spec d
  rw [hbegun, Opening.start_eq]
  refine settle (afterVisit (fun _ => rfl) hstore (hdeeds _) hlog hend (hawaited.mode_eq ?_))
  rwa [(attend_spec _ _).1]

theorem shutDown (hc : o.config.validate = .ok ()) (done last : Nat) : Idle o (o.shutDown true done last) := by
  have hbefore : Idle o (o.before true done last) := ((begun hc).advanceTo done).atTime last
  unfold Opening.shutDown
  split
  · exact (hbefore.signal o.name _).join o.name
  · exact hbefore.join o.name

end Idle

namespace Opening

/-- A dispatcher that is told to stop finishes what it has begun and begins nothing any more. One that is
told so from the start does nothing, however much time passes. -/
theorem shutsDown (o : Opening) (done last : Nat) (hc : o.config.validate = .ok ()) (hd : o.time ≤ done)
    (hl : done ≤ last) :
    ((o.shutDown false done last).Sound o.identity →
      ∃ its, ShutDown o done last its (o.shutDown false done last)) ∧
    Idle o (o.begun true) ∧ (∀ t, Idle o ((o.begun true).advanceTo t)) ∧ Idle o (o.shutDown true done last) :=
  ⟨shutDown_spec hc hd hl, .begun hc, (Idle.begun hc).advanceTo, .shutDown hc done last⟩

/-- The broker takes longer for the only message than the processor's period. -/
def slow : Opening where
  epoch := default
  time := 0
  store := Store.empty.put (.new ⟨2, by decide⟩ ⟨"orders", "2", [], .empty⟩ default)
  waits := false
  name := "courier"
  machine := ⟨"m"⟩
  config := { processInterval := 1000 }
  clock := none
  faults := []
  broker := .scripted { otherwise := { delayMillis := 1500 } }

theorem sound_shutDown_slow : (slow.shutDown false 500 500).Sound slow.identity where
  roomy := Simulation.roomy_of_all (by cbv)
  timed := by cbv

/-- It is told to stop while the message is with the broker, and ends when the broker has answered. -/
theorem shutsDown_slow : slow.config.validate = .ok () ∧
    (∃ its, ShutDown slow 500 500 its (slow.shutDown false 500 500)) ∧
    (slow.shutDown false 500 500).time = 1500 ∧ Idle slow (slow.begun true) := by
  have hc : slow.config.validate = .ok () := rfl
  obtain ⟨hdown, hidle, -, -⟩ := shutsDown slow 500 500 hc (by decide) (by decide)
  exact ⟨hc, hdown sound_shutDown_slow, by cbv, hidle⟩

end Opening

end Outbox

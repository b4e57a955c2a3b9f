import Outbox.Proofs.Dispatcher.Company
import Outbox.Proofs.Dispatcher.Hindsight

/-!
# Waiting for a dispatcher

A dispatcher does the same whether or not someone waits for it from its start, but for two lines in the log.
-/

namespace Outbox

/-! ## In the company of someone who waits -/

namespace Simulation

variable {s : Simulation} {r : Running}

theorem attend_since (r : Running) (es : List Event) (t : Trial) :
    attend r (t.since es) = ((attend r t).1, (attend r t).2.since es) := by
  unfold attend
  split
  · dsimp only
    split <;> rfl
  · rfl

theorem attend_waits (d : Dispatcher) (told named : Bool) (t : Trial) : attend ⟨d, .running told, named⟩ t =
    if (told || d.signal.value || d.signal.dropped) && d.isEnded then
      (⟨d, .stopped, named⟩, t.log (.dispatcherStopped d.machine))
    else (⟨d, .running (told || d.signal.value || d.signal.dropped), named⟩, t) := rfl

theorem stamp_since (s : Simulation) (es : List Event) (t : Trial) :
    s.stamp (t.since es) = s.stamp t ++ es.map (s.time, ·) := List.map_append

/-- All loops have ended. -/
def isOver (s : Simulation) : Bool := s.running.all (·.dispatcher.isEnded)

theorem isOver_eq (h : s.running = [r]) : s.isOver = r.dispatcher.isEnded := by
  simp [isOver, h]

end Simulation

namespace Opening

open Simulation

/-- What someone who waits is told at the start, and at the end. -/
def first (o : Opening) : Stamped := (o.time, .log (.dispatcherStarted o.machine))

def final (o : Opening) (time : Nat) : Stamped := (time, .log (.dispatcherStopped o.machine))

/-- The same, if someone has waited for the dispatcher from its start. -/
def watched (o : Opening) (told : Bool) (s : Simulation) : Simulation :=
  if told && s.isOver then
    { s with
      running := s.running.map fun r => { r with mode := .stopped }
      seen := o.final s.time :: (s.seen ++ [o.first]) }
  else
    { s with
      running := s.running.map fun r => { r with mode := .running told }
      seen := s.seen ++ [o.first] }

variable {o : Opening} {told : Bool} {s : Simulation} {r : Running}

theorem watched_of_live (h : (told && s.isOver) = false) : o.watched told s =
    { s with
      running := s.running.map fun r => { r with mode := .running told }
      seen := s.seen ++ [o.first] } := by
  unfold watched
  rw [if_neg (by simp [h])]

theorem watched_of_over (h : s.isOver = true) : o.watched true s =
    { s with
      running := s.running.map fun r => { r with mode := .stopped }
      seen := o.final s.time :: (s.seen ++ [o.first]) } := by
  unfold watched
  rw [if_pos (by simp [h])]

/-- A visit in the presence of someone who waits. -/
theorem afterVisit_watched {d : Dispatcher} (named : Bool) (t : Trial) (hmachine : d.machine = o.machine)
    (hkept : d.signal.dropped = false) :
    ({ s with seen := s.seen ++ [o.first] } : Simulation).afterVisit ⟨d, .running told, named⟩ t =
      o.watched (told || d.signal.value) (s.afterVisit ⟨d, .spawned, named⟩ t) := by
  have hover : (s.afterVisit ⟨d, .spawned, named⟩ t).isOver = d.isEnded :=
    isOver_eq (r := ⟨d, .spawned, named⟩) rfl
  have hattend := attend_waits d told named t
  rw [hkept, Bool.or_false] at hattend
  cases hend : (told || d.signal.value) && d.isEnded with
  | true =>
      rw [if_pos hend] at hattend
      obtain ⟨htold, hended⟩ := Bool.and_eq_true_iff.1 hend
      rw [htold, watched_of_over (hover.trans hended)]
      unfold afterVisit
      rw [hattend]
      simp [attend, stamp, Trial.log, Trial.see, final, hmachine]
  | false =>
      rw [if_neg (by simp [hend])] at hattend
      rw [watched_of_live (hover.symm ▸ hend)]
      unfold afterVisit
      rw [hattend]
      simp [attend, stamp]

theorem settle_watched (hr : s.running = [r]) (hmode : r.mode = .spawned)
    (hmachine : r.dispatcher.machine = o.machine) (hkept : r.dispatcher.signal.dropped = false)
    (hlive : (told && s.isOver) = false) :
    (o.watched told s).settle = o.watched (told || r.dispatcher.signal.value) s.settle := by
  obtain ⟨d, mode, named⟩ := r
  obtain rfl : mode = .spawned := hmode
  rw [watched_of_live hlive, settle_eq_afterVisit hr,
    settle_eq_afterVisit (r := ⟨d, .running told, named⟩) (by simp [hr])]
  exact afterVisit_watched (d := (d.settleLoops s.time (d.trial s.store s.now)).1) named _ hmachine hkept

theorem settle_of_over (hr : s.running = [r]) (hend : r.dispatcher.isEnded = true)
    (hmode : ∀ told, r.mode ≠ .running told) : s.settle = s := by
  have hloop := Dispatcher.isEnded_iff.1 hend
  have hquiet : ∀ task, (r.dispatcher.loop task).Quiet s.time := by
    intro task
    rw [hloop]
    trivial
  have hloops := Dispatcher.settleLoops_of_quiet (t := r.dispatcher.trial s.store s.now) hquiet
    (fun task ticker => by rw [hloop]; exact (nomatch ·)) rfl rfl
  have hattend : ∀ t, attend r t = (r, t) := by
    intro t
    unfold attend
    split
    · rename_i told htold
      exact absurd htold (hmode told)
    · rfl
  rw [settle_eq_afterVisit hr, hloops]
  unfold afterVisit
  rw [hattend, ← hr]
  rfl

theorem settle_watched_told (hr : s.running = [r]) (hmode : r.mode = .spawned)
    (hmachine : r.dispatcher.machine = o.machine) (hsignal : r.dispatcher.signal = ⟨true, false⟩) :
    (o.watched true s).settle = o.watched true s.settle := by
  cases hover : s.isOver with
  | false =>
      rw [settle_watched hr hmode hmachine (by rw [hsignal]) (by rw [hover]; rfl), Bool.true_or]
  | true =>
      have hend : r.dispatcher.isEnded = true := (isOver_eq hr).symm.trans hover
      have hstopped : (o.watched true s).running = [{ r with mode := .stopped }] := by
        rw [watched_of_over hover]
        simp [hr]
      rw [settle_of_over hstopped hend fun _ => (nomatch ·),
        settle_of_over hr hend fun told h => nomatch hmode.symm.trans h]

theorem start_watched {d : Dispatcher} (hmachine : d.machine = o.machine) (hkept : d.signal.dropped = false) :
    o.fresh.start d (.running false) = o.watched d.signal.value (o.fresh.start d .spawned) := by
  have hstart : o.fresh.start d (.running false) =
      ({ o.fresh with seen := [o.first] } : Simulation).afterVisit
        ⟨(d.startLoops o.time (d.trial o.store o.fresh.now)).1, .running false, true⟩
        (d.startLoops o.time (d.trial o.store o.fresh.now)).2 := by
    have hsince : (d.trial o.store o.fresh.now).log (.dispatcherStarted d.machine) =
        (d.trial o.store o.fresh.now).since [.log (.dispatcherStarted d.machine)] := rfl
    unfold start
    simp only [reduceCtorEq, ↓reduceIte]
    have hstore : o.fresh.store = o.store := rfl
    have htime : o.fresh.time = o.time := rfl
    rw [hstore, htime, hsince, d.startLoops_since]
    dsimp only
    rw [attend_since, stamp_since]
    simp [afterVisit, fresh, first, hmachine, stamp, Trial.since]
  rw [hstart]
  exact afterVisit_watched (s := o.fresh) (d := (d.startLoops o.time (d.trial o.store o.fresh.now)).1) true _
    hmachine hkept

end Opening

/-! ## Before the signal -/

namespace Opening

open Simulation

variable {o : Opening} {told : Bool} {s : Simulation} {r : Running}

theorem wake?_watched : (o.watched told s).wake? = s.wake? := by
  unfold watched wake?
  split <;> simp [List.filterMap_map]

theorem time_watched : (o.watched told s).time = s.time := by
  unfold watched
  split <;> rfl

theorem timer_watched : (o.watched told s).timer = s.timer := by
  unfold watched
  split <;> rfl

theorem atTime_watched (h : (told && s.isOver) = false) (time : Nat) :
    (o.watched told s).atTime time = o.watched told (s.atTime time) := by
  have h' : (told && (s.atTime time).isOver) = false := h
  rw [watched_of_live h, watched_of_live h']
  rfl

theorem signal_eq (h : Keeps o.identity ⟨told, false⟩ s r) :
    r.dispatcher.machine = o.machine ∧ r.dispatcher.signal.value = told ∧ r.dispatcher.signal.dropped = false :=
  ⟨congrArg Identity.machine h.identity, by rw [h.signal], by rw [h.signal]⟩

/-- What is done at the next time is the same in the presence of someone who waits. -/
theorem wakes_watched (h : Keeps o.identity ⟨told, false⟩ s r) (hmode : r.mode = .spawned)
    (hlive : (told && s.isOver) = false) (w : Nat) :
    ((o.watched told s).atTime w).settle = o.watched told (s.atTime w).settle := by
  obtain ⟨hmachine, hvalue, hkept⟩ := signal_eq h
  rw [atTime_watched hlive,
    settle_watched (s := s.atTime w) h.running hmode hmachine hkept hlive, hvalue, Bool.or_self]

theorem advanceTo_watched {target : Nat} (h : Keeps o.identity ⟨false, false⟩ s r) (hmode : r.mode = .spawned) :
    (o.watched false s).advanceTo target = o.watched false (s.advanceTo target) := by
  fun_induction Simulation.advanceTo target s generalizing r with
  | case1 s w hw hlt ih =>
      have htime : (o.watched false s).time < w := time_watched.symm ▸ hlt.1
      rw [advanceTo_of_le (wake?_watched.trans hw) htime hlt.2, wakes_watched h hmode rfl,
        ih (h.wakes w) (spawned_visit hmode)]
  | case2 s w hw hnot =>
      rcases Nat.lt_or_ge s.time w with hlt | hge
      · have hlate : target < w := Nat.lt_of_not_le fun hle => hnot ⟨hlt, hle⟩
        rw [advanceTo_of_lt (wake?_watched.trans hw) hlate, atTime_watched rfl]
      · rw [wake?_eq h.running] at hw
        exact absurd (Dispatcher.lt_of_wake hw) (Nat.not_lt_of_le hge)
  | case3 s hw => rw [advanceTo_of_none (wake?_watched.trans hw), atTime_watched rfl]

/-- Nor do the steps of others depend on it. -/
theorem performAll_watched {ks : List Simulation.Step} (hks : ∀ k ∈ ks, k.IsOutside)
    (h : Keeps o.identity ⟨false, false⟩ s r) (hmode : r.mode = .spawned) :
    (o.watched false s).performAll ks = o.watched false (s.performAll ks) := by
  induction ks generalizing s r with
  | nil => rfl
  | cons k ks ih =>
      obtain ⟨hk, hks⟩ := List.forall_mem_cons.1 hks
      have hone : ((o.watched false s).perform k).2 = o.watched false (s.perform k).2 := by
        cases k with
        | access a => rfl
        | advance n =>
            show (o.watched false s).advanceTo ((o.watched false s).timer.wake (o.watched false s).time n) = _
            rw [timer_watched, time_watched]
            exact advanceTo_watched h hmode
        | start | signal | drop | finished | join => exact hk.elim
      have hks₁ : ∀ k' ∈ [k], k'.IsOutside := List.forall_mem_singleton.2 hk
      obtain ⟨r', h', -, hmode'⟩ := h.performAll hks₁
      show ((o.watched false s).perform k).2.performAll ks = _
      rw [hone]
      exact ih hks h' (hmode' hmode)

end Opening

/-! ## After the signal -/

namespace Simulation

/-- A dispatcher that nobody waits for has been told to stop. -/
structure Winding (i : Identity) (s : Simulation) (r : Running) : Prop extends Told i s r where
  spawned : r.mode = .spawned
  named : r.named = true

namespace Winding

variable {i : Identity} {s : Simulation} {r : Running}

theorem wakes (h : Winding i s r) (w : Nat) : Winding i (s.atTime w).settle ((s.atTime w).visit r) :=
  ⟨h.toTold.wakes w, spawned_visit h.spawned, named_visit.trans h.named⟩

theorem find? (h : Winding i s r) : s.find? i.name = some r := by
  unfold Simulation.find?
  rw [h.running]
  exact List.find?_cons_of_pos (h.answersTo h.named)

/-- To tell it once more changes nothing. -/
theorem signal_again (h : Winding i s r) (name : String) : s.signal name (StopSignal.set true) = s := by
  have hsame : r.signal (StopSignal.set true) = r := by
    obtain ⟨d, mode, named⟩ := r
    have hsignal : d.signal = ⟨true, false⟩ := h.signal
    unfold Running.signal
    simp [StopSignal.set, hsignal]
    rw [← hsignal]
  have hmodify : s.modify name (·.signal (StopSignal.set true)) = s := by
    unfold modify
    simp [h.running, hsame]
    rw [← h.running]
  have hloops := Dispatcher.settleLoops_of_quiet (t := r.dispatcher.trial s.store s.now) h.poised.quiet
    h.ne_waiting rfl rfl
  unfold Simulation.signal
  rw [hmodify, settle_eq_afterVisit h.running, hloops]
  unfold afterVisit
  rw [attend_spawned h.spawned, ← h.running]
  rfl

/-- Whoever waits long enough sees the end. -/
theorem awaitEnd {n : Nat} (h : Winding i s r) (hn : r.dispatcher.processor.pending ≤ n) :
    ∃ r', Winding i (s.awaitEnd i.name n) r' ∧ r'.dispatcher.isEnded = true := by
  induction n generalizing s r with
  | zero =>
      rcases h.cases with hend | ⟨ticker, p, o, wake, hp, -, -⟩
      · exact ⟨r, h, hend⟩
      · have hsends : r.dispatcher.processor.Sends r.dispatcher.settings := h.poised.sends .processor
        rw [hp] at hn hsends
        obtain ⟨m, resume, hnext⟩ := hsends
        exact absurd hn (Nat.not_le_of_lt (Pass.waiting_pos hnext))
  | succ n ih =>
      rcases h.cases with hend | ⟨ticker, p, o, wake, hp, hlt, hwake⟩
      · rw [awaitEnd_of_ended h.find? hend]
        exact ⟨r, h, hend⟩
      · have hlive : r.dispatcher.isEnded = false := by
          refine Bool.eq_false_iff.2 fun he => ?_
          cases hp.symm.trans (Dispatcher.isEnded_iff.1 he .processor)
        rw [awaitEnd_of_wake h.running h.find? hlive hwake]
        exact ih (h.wakes wake) (Nat.le_of_lt_succ (Nat.lt_of_lt_of_le (h.pending_lt hp) hn))

end Winding

end Simulation

/-! ## From the start to the end -/

namespace Opening

open Simulation

variable {o : Opening} {s : Simulation} {r : Running}

theorem find?_watched (o : Opening) (told : Bool) (s : Simulation) (name : String) :
    (o.watched told s).find? name =
    (s.find? name).map fun r => { r with mode := if told && s.isOver then .stopped else .running told } := by
  unfold watched find?
  split <;> simp [List.find?_map] <;> rfl

theorem modify_watched {told : Bool} {name : String} {f : Running → Running}
    (hf : ∀ r, (f r).dispatcher.isEnded = r.dispatcher.isEnded)
    (hmode : ∀ r mode, f { r with mode } = { f r with mode }) :
    (o.watched told s).modify name f = o.watched told (s.modify name f) := by
  have hover : (s.modify name f).isOver = s.isOver := by
    unfold isOver Simulation.modify
    rw [List.all_map]
    congr 1
    funext r
    show (if r.answersTo name then f r else r).dispatcher.isEnded = _
    split
    · exact hf r
    · rfl
  have hmap : ∀ mode : Mode, (s.running.map fun r => { r with mode }).map
      (fun r => if r.answersTo name then f r else r) =
      (s.running.map fun r => if r.answersTo name then f r else r).map fun r => { r with mode } := by
    intro mode
    rw [List.map_map, List.map_map]
    refine List.map_congr_left fun r _ => ?_
    show (if r.answersTo name then f { r with mode } else { r with mode }) = _
    simp only [Function.comp]
    split
    · exact hmode r mode
    · rfl
  unfold watched
  rw [hover]
  split
  · exact congrArg (fun running => ({ s with running, seen := _ } : Simulation)) (hmap .stopped)
  · exact congrArg (fun running => ({ s with running, seen := _ } : Simulation)) (hmap (.running told))

theorem patience_watched {told : Bool} (name : String) :
    (o.watched told s).patience name = s.patience name := by
  unfold patience
  rw [find?_watched]
  cases s.find? name <;> rfl

/-- Whoever waits does not change when the loops end. -/
theorem awaitEnd_watched {n : Nat} (h : Winding o.identity s r) :
    (o.watched true s).awaitEnd o.name n = o.watched true (s.awaitEnd o.name n) := by
  induction n generalizing s r with
  | zero => rfl
  | succ n ih =>
      have hfind : s.find? o.name = some r := h.find?
      have hfind' := (o.find?_watched true s o.name).trans (congrArg (Option.map _) hfind)
      rcases h.cases with hend | ⟨ticker, p, out, wake, hp, hlt, hwake⟩
      · rw [awaitEnd_of_ended hfind' hend, awaitEnd_of_ended hfind hend]
      · have hlive : r.dispatcher.isEnded = false := by
          refine Bool.eq_false_iff.2 fun he => ?_
          cases hp.symm.trans (Dispatcher.isEnded_iff.1 he .processor)
        have hgoesOn : (true && s.isOver) = false := (isOver_eq h.running).trans hlive
        have hrunning : (o.watched true s).running = [{ r with mode := .running true }] := by
          rw [watched_of_live hgoesOn]
          simp [h.running]
        rw [if_neg (Bool.eq_false_iff.1 hgoesOn)] at hfind'
        rw [awaitEnd_of_wake h.running hfind hlive hwake,
          awaitEnd_of_wake hrunning hfind' hlive (time_watched.symm ▸ hwake),
          wakes_watched h.toKeeps h.spawned hgoesOn, ih (h.wakes wake)]

/-- Only whoever has spawned a dispatcher has still to tell it. -/
theorem join_watched (h : Winding o.identity s r) :
    (o.watched true s).join o.name = o.watched true (s.join o.name) ∧
      ∃ r', (s.join o.name).running = [r'] ∧ r'.dispatcher.isEnded = true := by
  have hfind : s.find? o.name = some r := h.find?
  have hfind' := (o.find?_watched true s o.name).trans (congrArg (Option.map _) hfind)
  have hjoin : s.join o.name = (s.awaitEnd o.name (s.patience o.name)).modify o.name Running.forget := by
    rw [join_eq hfind, if_pos h.spawned, h.signal_again]
  have hjoin' : (o.watched true s).join o.name =
      ((o.watched true s).awaitEnd o.name (s.patience o.name)).modify o.name Running.forget := by
    rw [join_eq hfind', if_neg, patience_watched]
    dsimp only
    split <;> exact (nomatch ·)
  have hpending : r.dispatcher.processor.pending ≤ s.patience o.name := by
    unfold patience
    rw [hfind]
    exact Nat.le_trans (Nat.le_add_right _ _) (Nat.le_add_right _ _)
  obtain ⟨r', hr', hend⟩ := h.awaitEnd hpending
  refine ⟨?_, r'.forget, ?_, hend⟩
  · rw [hjoin', awaitEnd_watched h, hjoin, modify_watched (f := Running.forget) (fun _ => rfl) fun _ _ => rfl]
  · have hrunning : (s.awaitEnd o.name (s.patience o.name)).running = [r'] := hr'.running
    have hanswers : r'.answersTo o.name = true := hr'.answersTo hr'.named
    rw [hjoin, modify_eq hrunning hanswers]

/-- The stop signal reaches both. -/
theorem signal_watched {told : Bool} (h : Keeps o.identity ⟨told, false⟩ s r) (hmode : r.mode = .spawned)
    (hn : r.named = true) :
    (o.watched told s).signal o.name (StopSignal.set true) =
        o.watched true (s.signal o.name (StopSignal.set true)) ∧
      ∃ r', Winding o.identity (s.signal o.name (StopSignal.set true)) r' := by
  have hanswers : r.answersTo o.name = true := h.answersTo hn
  have hrunning : (s.modify o.name (·.signal (StopSignal.set true))).running =
      [r.signal (StopSignal.set true)] := by
    rw [modify_eq h.running hanswers]
  have hsignal := h.signal_set
  have hmachine : (r.signal (StopSignal.set true)).dispatcher.machine = o.machine :=
    congrArg Identity.machine h.identity
  constructor
  · unfold Simulation.signal
    rw [modify_watched (f := (·.signal (StopSignal.set true))) (fun _ => rfl) fun _ _ => rfl]
    cases told with
    | false => rw [settle_watched hrunning hmode hmachine (by rw [hsignal]) rfl, hsignal, Bool.false_or]
    | true => exact settle_watched_told hrunning hmode hmachine hsignal
  · exact ⟨_, .of_signal h hn, spawned_visit hmode, named_visit.trans hn⟩

/-- The dispatcher started by someone who waits for it, or by someone who does not. -/
def startedBy (o : Opening) (waits : Bool) : Opening := { o with waits }

theorem begun_watched (hc : o.config.validate = .ok ()) (initial : Bool) :
    (o.startedBy true).begun initial = o.watched initial ((o.startedBy false).begun initial) := by
  obtain ⟨d, hd, hi, -⟩ := dispatcher?_eq hc
  have hmachine : d.machine = o.machine := congrArg Identity.machine hi
  have hstart := start_watched (d := { d with signal := { value := initial } }) hmachine rfl
  have hrunning : (o.fresh.start { d with signal := { value := initial } } .spawned).running =
      [⟨({ d with signal := { value := initial } } : Dispatcher).startLoops o.fresh.time
        (d.trial o.fresh.store o.fresh.now) |>.1, .spawned, true⟩] := rfl
  rw [begun_of_dispatcher? (o := o.startedBy true) initial hd,
    begun_of_dispatcher? (o := o.startedBy false) initial hd]
  show (o.fresh.start _ (.running false)).settle = o.watched initial (o.fresh.start _ .spawned).settle
  rw [hstart]
  cases initial with
  | false => exact settle_watched hrunning rfl hmachine rfl rfl
  | true => exact settle_watched_told hrunning rfl hmachine rfl

/-- What it takes to stop the dispatcher: the signal, and to wait for the end. -/
def stop (o : Opening) : List Simulation.Step := [.signal o.name true, .join o.name]

/-- A run that someone has waited for, and one that nobody has waited for. -/
structure SameRun (o : Opening) (s s' : Simulation) : Prop where
  store : s.store = s'.store
  /-- Each call and its result, each message handed over and each line of the log, and when. Only to someone
  who waits is the start reported, and the end. -/
  seen : s.seen = (s.time, .log (.dispatcherStopped o.machine)) ::
    (s'.seen ++ [(o.time, .log (.dispatcherStarted o.machine))])
  time : s.time = s'.time
  ended : ∃ r r', s.running = [r] ∧ s'.running = [r'] ∧ r.mode = .stopped ∧
    r.dispatcher = r'.dispatcher ∧ r'.dispatcher.isEnded = true

theorem sameRun_stop {told : Bool} (h : Keeps o.identity ⟨told, false⟩ s r) (hmode : r.mode = .spawned)
    (hn : r.named = true) : SameRun o ((o.watched told s).performAll o.stop) (s.performAll o.stop) := by
  obtain ⟨hsignal, r₁, h₁⟩ := signal_watched h hmode hn
  obtain ⟨hjoin, r₂, hr₂, hend⟩ := join_watched h₁
  have hall : (o.watched told s).performAll o.stop = o.watched true (s.performAll o.stop) := by
    show ((o.watched told s).signal o.name (StopSignal.set true)).join o.name = _
    rw [hsignal]
    exact hjoin
  have hover : (s.performAll o.stop).isOver = true := (isOver_eq hr₂).trans hend
  rw [hall, watched_of_over hover]
  refine ⟨rfl, rfl, rfl, { r₂ with mode := .stopped }, r₂, ?_, hr₂, rfl, rfl, hend⟩
  show ((s.signal o.name (StopSignal.set true)).join o.name).running.map _ = _
  rw [hr₂]
  rfl

/-- It makes no difference to what a dispatcher does whether someone waits for it: neither when it is told to
stop at some time, nor when it is told so before its loops first run. -/
theorem same_run_watched (o : Opening) (ks : List Simulation.Step) (hc : o.config.validate = .ok ())
    (hks : ∀ k ∈ ks, k.IsOutside) :
    SameRun o (((o.startedBy true).begun false).performAll (ks ++ o.stop))
        (((o.startedBy false).begun false).performAll (ks ++ o.stop)) ∧
      SameRun o (((o.startedBy true).begun true).performAll o.stop)
        (((o.startedBy false).begun true).performAll o.stop) := by
  obtain ⟨r, h, hn, hmode⟩ := keeps_begun (o := o.startedBy false) hc false
  obtain ⟨r', h', hn', hmode'⟩ := h.performAll hks
  obtain ⟨r₀, h₀, hn₀, hmode₀⟩ := keeps_begun (o := o.startedBy false) hc true
  have hsplit : ∀ s : Simulation, s.performAll (ks ++ o.stop) = (s.performAll ks).performAll o.stop :=
    fun s => List.foldl_append ..
  constructor
  · rw [hsplit, hsplit, begun_watched hc, performAll_watched (o := o) hks h (hmode rfl)]
    exact sameRun_stop h' (hmode' (hmode rfl)) (hn'.trans hn)
  · rw [begun_watched hc]
    exact sameRun_stop h₀ (hmode₀ rfl) hn₀

/-- It is told to stop while the message is with the broker, and another has come. -/
theorem same_run_watched_slow :
    slow.config.validate = .ok () ∧
      (∀ k ∈ [.advance 100, .access (.insert (.new ⟨3, by decide⟩ ⟨"orders", "3", [], .empty⟩ default))],
        Step.IsOutside k) ∧
      SameRun slow
        (((slow.startedBy true).begun false).performAll
          ([.advance 100, .access (.insert (.new ⟨3, by decide⟩ ⟨"orders", "3", [], .empty⟩ default))] ++
            slow.stop))
        (((slow.startedBy false).begun false).performAll
          ([.advance 100, .access (.insert (.new ⟨3, by decide⟩ ⟨"orders", "3", [], .empty⟩ default))] ++
            slow.stop)) := by
  have hc : slow.config.validate = .ok () := rfl
  have hks : ∀ k ∈ [.advance 100, .access (.insert (.new ⟨3, by decide⟩ ⟨"orders", "3", [], .empty⟩ default))],
      Step.IsOutside k := by
    simp [Step.IsOutside]
  exact ⟨hc, hks, (same_run_watched slow _ hc hks).1⟩

end Opening

end Outbox

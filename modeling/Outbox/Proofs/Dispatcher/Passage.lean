import Outbox.Proofs.Dispatcher.Visits

/-!
# The passage of time

What becomes of a simulation of one dispatcher while time passes: until it is told to stop, and from then on
until its loops have ended.
-/

namespace Outbox

/-- The calendar reaches the times before one that it reaches. -/
theorem Instant.isSome_shift_of_le {epoch : Instant} {m n : Nat} (h : m ≤ n)
    (hn : (epoch.shift? (ofMillis n)).isSome) : (epoch.shift? (ofMillis m)).isSome := by
  have hearliest := epoch.earliest_le
  unfold Instant.shift? Instant.ofNanos? at hn ⊢
  unfold ofMillis at hn ⊢
  split at hn
  · rename_i hbounds
    rw [dif_pos ⟨by omega, by omega⟩]
    rfl
  · cases hn

namespace Dispatcher

theorem lt_of_wake {d : Dispatcher} {now w : Nat} (h : d.wake? now = some w) : now < w := by
  obtain ⟨wake, -, hw⟩ := List.mem_filterMap.1 (List.min?_mem h)
  exact of_decide_eq_true (Option.filter_eq_some_iff.1 hw).2

theorem wake?_eq_none {d : Dispatcher} (h : d.isEnded = true) (now : Nat) : d.wake? now = none := by
  have hall := isEnded_iff.1 h
  have hp : d.processor = .ended := hall .processor
  have hu : d.unlocker = .ended := hall .unlocker
  have hc : d.cleaner = .ended := hall .cleaner
  unfold wake?
  rw [hp, hu, hc]
  rfl

/-- When the sweeps have ended, and no tick is waited for, all that is waited for is an outcome. -/
theorem ended_or_flies {d : Dispatcher} {now : Nat} (hother : ∀ task, task ≠ .processor → d.loop task = .ended)
    (hp : ∀ w ∈ d.processor.wake?, (∃ ticker p o, d.processor = .inFlight ticker ⟨p, o⟩ w) ∧ now < w) :
    d.isEnded = true ∨ ∃ ticker p o wake, d.processor = .inFlight ticker ⟨p, o⟩ wake ∧ now < wake ∧
      d.wake? now = some wake := by
  have hu : d.unlocker = .ended := hother .unlocker (nomatch ·)
  have hc : d.cleaner = .ended := hother .cleaner (nomatch ·)
  cases hw : d.processor.wake? with
  | none =>
      left
      have hl : d.processor = .ended := by
        revert hw
        cases d.processor with
        | ended => exact fun _ => rfl
        | waiting | inFlight => exact (nomatch ·)
      exact isEnded_iff.2 fun | .processor => hl | .unlocker => hu | .cleaner => hc
  | some wake =>
      right
      obtain ⟨⟨ticker, p, o, hl⟩, hlt⟩ := hp wake hw
      refine ⟨ticker, p, o, wake, hl, hlt, ?_⟩
      unfold wake?
      rw [hl, hu, hc]
      simp [Loop.wake?, Option.filter, hlt]

end Dispatcher

namespace Simulation

/-- Time has not gone back, and what was seen stays seen. -/
structure Onward (s s' : Simulation) : Prop where
  epoch : s'.epoch = s.epoch
  time : s.time ≤ s'.time
  seen : s.seen ⊆ s'.seen

namespace Onward

variable {s s' s'' : Simulation}

theorem refl (s : Simulation) : Onward s s := ⟨rfl, Nat.le_refl _, List.Subset.refl _⟩

theorem trans (h : Onward s s') (h' : Onward s' s'') : Onward s s'' where
  epoch := h'.epoch.trans h.epoch
  time := Nat.le_trans h.time h'.time
  seen := List.Subset.trans h.seen h'.seen

theorem settle (s : Simulation) : Onward s s.settle where
  epoch := rfl
  time := Nat.le_refl _
  seen := by
    have hall : ∀ (rs : List Running) store seen, seen ⊆ (s.settleAll store seen rs).2.2 := by
      intro rs
      induction rs with
      | nil => exact fun _ seen => List.Subset.refl seen
      | cons r rs ih => exact fun _ _ => List.Subset.trans (List.subset_append_right _ _) (ih _ _)
    exact hall s.running s.store s.seen

theorem atTime {time : Nat} (h : s.time ≤ time) : Onward s (s.atTime time) := ⟨rfl, h, List.Subset.refl _⟩

theorem modify (s : Simulation) (name : String) (f : Running → Running) : Onward s (s.modify name f) :=
  ⟨rfl, Nat.le_refl _, List.Subset.refl _⟩

theorem signal (s : Simulation) (name : String) (f : StopSignal → StopSignal) : Onward s (s.signal name f) :=
  (modify s name _).trans (settle _)

theorem advanceTo {target : Nat} (h : s.time ≤ target) : Onward s (s.advanceTo target) := by
  fun_induction Simulation.advanceTo target s with
  | case1 s w hw hlt ih => exact ((atTime (Nat.le_of_lt hlt.1)).trans (settle _)).trans (ih hlt.2)
  | case2 s w hw hlt => exact atTime h
  | case3 s hw => exact atTime h

theorem awaitEnd (name : String) (n : Nat) (s : Simulation) : Onward s (s.awaitEnd name n) := by
  induction n generalizing s with
  | zero => exact refl s
  | succ n ih =>
      unfold Simulation.awaitEnd
      split
      · rename_i w hw
        obtain ⟨r, -, hr⟩ := Option.bind_eq_some_iff.1 hw
        split at hr
        · cases hr
        · exact (advanceTo (Nat.le_of_lt (Dispatcher.lt_of_wake hr))).trans (ih _)
      · exact refl s

end Onward

variable {i : Identity} {waits stop : Bool} {last target : Nat} {s s' : Simulation} {r : Running}

theorem Sound.of_onward (h : s'.Sound i) (ho : Onward s s') : s.Sound i where
  roomy x hx := h.roomy x (ho.seen hx)
  timed := by
    have htimed := h.timed
    unfold now at htimed ⊢
    rw [ho.epoch] at htimed
    cases hc : i.clock with
    | some t => rfl
    | none =>
        rw [hc] at htimed
        exact Instant.isSome_shift_of_le ho.time htimed

/-! ## Waking -/

theorem wake?_eq (h : s.running = [r]) : s.wake? = r.dispatcher.wake? s.time := by
  unfold wake?
  rw [h]
  cases hw : r.dispatcher.wake? s.time with
  | none | some => simp only [List.filterMap_cons, hw]; rfl

theorem advanceTo_of_none (h : s.wake? = none) : s.advanceTo target = s.atTime target := by
  unfold advanceTo
  rw [h]

theorem advanceTo_of_lt {w : Nat} (h : s.wake? = some w) (hw : target < w) :
    s.advanceTo target = s.atTime target := by
  unfold advanceTo
  rw [h]
  exact if_neg fun hle => absurd hle.2 (Nat.not_le_of_lt hw)

theorem advanceTo_of_le {w : Nat} (h : s.wake? = some w) (hlt : s.time < w) (hw : w ≤ target) :
    s.advanceTo target = (s.atTime w).settle.advanceTo target := by
  conv_lhs => unfold advanceTo
  rw [h]
  exact if_pos ⟨hlt, hw⟩

theorem advanceTo_time (s : Simulation) : s.advanceTo s.time = s := by
  unfold advanceTo
  split
  · rename_i w _
    exact if_neg fun h => absurd h.1 (Nat.not_lt_of_le h.2)
  · rfl

theorem time_advanceTo : (s.advanceTo target).time = target := by
  fun_induction advanceTo target s with
  | case1 s w hw hlt ih => exact ih
  | case2 | case3 => rfl

/-! ## Until it is told to stop -/

theorem Serves.live (h : Serves i waits false last s r) : r.dispatcher.isEnded = false := by
  refine Bool.eq_false_iff.2 fun he => ?_
  cases h.goesOn .processor (Dispatcher.isEnded_iff.1 he .processor)

theorem Serves.atTime {time : Nat} (h : Serves i waits stop last s r) (hle : s.time ≤ time) :
    Serves i waits stop last (s.atTime time) r :=
  { h with past := fun x hx => Nat.le_trans (h.past x hx) hle }

/-- Time passes without anything to report. -/
theorem Serves.advanceTo (h : Serves i waits false last s r) (hle : s.time ≤ target) (hlast : target ≤ last)
    (hsound : (s.advanceTo target).Sound i) : ∃ r', Serves i waits false last (s.advanceTo target) r' := by
  fun_induction Simulation.advanceTo target s generalizing r with
  | case1 s w hw hlt ih =>
      -- What is sound in the end was sound on the way.
      have ho : Onward (s.atTime w).settle (((s.atTime w).settle).advanceTo target) := .advanceTo hlt.2
      obtain ⟨r', h', -⟩ := (h.atTime (Nat.le_of_lt hlt.1)).settle h.live
        (fun _ => Nat.le_trans hlt.2 hlast) (hsound.of_onward ho)
      exact ih h'.toServes hlt.2 hsound
  | case2 s w hw hlt => exact ⟨r, h.atTime hle⟩
  | case3 s hw => exact ⟨r, h.atTime hle⟩

/-! ## From then on -/

theorem Rested.cases (h : Rested i waits true last s r) :
    r.dispatcher.isEnded = true ∨ ∃ ticker p o wake, r.dispatcher.processor = .inFlight ticker ⟨p, o⟩ wake ∧
      s.time < wake ∧ r.dispatcher.wake? s.time = some wake := by
  refine Dispatcher.ended_or_flies (fun task ht => ?_) fun w hw => ?_
  · obtain ⟨its, cur, ha⟩ := h.account task
    have hrests := h.rests task
    have hflight := ha.isInFlight_of_ne ht
    revert hrests hflight
    cases r.dispatcher.loop task with
    | waiting => exact fun hrests _ => nomatch hrests.1
    | inFlight => exact fun _ hflight => nomatch hflight
    | ended => exact fun _ _ => rfl
  · have hrests : r.dispatcher.processor.Rests true s.time := h.rests .processor
    revert hrests hw
    cases r.dispatcher.processor with
    | waiting => exact fun _ hrests => nomatch hrests.1
    | inFlight ticker f wake =>
        intro hw hrests
        cases hw
        exact ⟨⟨ticker, f.pass, f.outcome, rfl⟩, hrests⟩
    | ended => exact fun hw _ => nomatch hw

theorem Serves.answersTo (h : Serves i waits stop last s r) : r.answersTo i.name = true := by
  have hname : r.dispatcher.name = i.name := congrArg Identity.name h.identity
  simp [Running.answersTo, h.named, hname]

theorem Serves.find? (h : Serves i waits stop last s r) : s.find? i.name = some r := by
  unfold Simulation.find?
  rw [h.running]
  exact List.find?_cons_of_pos h.answersTo

theorem Serves.modify (h : Serves i waits stop last s r) (f : Running → Running) :
    s.modify i.name f = { s with running := [f r] } := modify_eq h.running h.answersTo f

/-- The stop signal reaches the loops. -/
theorem Serves.tell (h : Serves i waits false last s r)
    (hsound : (s.signal i.name (StopSignal.set true)).Sound i) :
    ∃ r', Rested i waits true last (s.signal i.name (StopSignal.set true)) r' := by
  have htold : Serves i waits true last (s.modify i.name (·.signal (StopSignal.set true)))
      (r.signal (StopSignal.set true)) := by
    rw [h.modify]
    refine ⟨rfl, h.named, h.identity, ?_, ⟨h.awaited.spawned, h.awaited.running, h.awaited.stopped⟩,
      fun _ _ => rfl, h.past, h.account, h.freed⟩
    show StopSignal.set true r.dispatcher.signal = _
    rw [h.signal]
    rfl
  obtain ⟨r', hr', -⟩ := htold.settle h.live (nomatch ·) hsound
  exact ⟨r', hr'⟩

/-- From `s` on the loops have ended, and whoever waits for that is done, at the time `e` and not before. -/
def EndsAt (waits : Bool) (e : Nat) (s : Simulation) : Prop :=
  ∀ t, s.time ≤ t → ∃ r, (s.advanceTo t).running = [r] ∧ (r.dispatcher.isEnded = true ↔ e ≤ t) ∧
    (waits = true → (r.mode = .stopped ↔ e ≤ t))

theorem Rested.endsAt (h : Rested i waits true last s r) (hend : r.dispatcher.isEnded = true) :
    s.EndsAt waits s.time := by
  intro t ht
  rw [advanceTo_of_none ((wake?_eq h.running).trans (Dispatcher.wake?_eq_none hend _))]
  exact ⟨r, h.running, iff_of_true hend ht, fun hw => iff_of_true (h.awaited.stopped hw hend) ht⟩

theorem Rested.endsAt_of_wake {wake e : Nat} (h : Rested i waits true last s r)
    (hlive : r.dispatcher.isEnded = false) (hnext : s.wake? = some wake) (hlt : s.time < wake) (hle : wake ≤ e)
    (hends : (s.atTime wake).settle.EndsAt waits e) : s.EndsAt waits e := by
  intro t ht
  rcases Nat.lt_or_ge t wake with hearly | hlate
  · have hnot : ¬ e ≤ t := Nat.not_le_of_lt (Nat.lt_of_lt_of_le hearly hle)
    rw [advanceTo_of_lt hnext hearly]
    refine ⟨r, h.running, iff_of_false (by simp [hlive]) hnot, fun hw => ?_⟩
    rw [h.awaited.stopped_iff hw]
    exact iff_of_false (by simp [hlive]) hnot
  · rw [advanceTo_of_le hnext hlt hlate]
    exact hends t hlate

theorem awaitEnd_of_ended {name : String} (h : s.find? name = some r) (hend : r.dispatcher.isEnded = true)
    (n : Nat) : s.awaitEnd name n = s := by
  cases n with
  | zero => rfl
  | succ n => simp [Simulation.awaitEnd, h, hend]

theorem awaitEnd_of_wake {name : String} {wake : Nat} (hr : s.running = [r]) (h : s.find? name = some r)
    (hlive : r.dispatcher.isEnded = false) (hwake : r.dispatcher.wake? s.time = some wake) (n : Nat) :
    s.awaitEnd name (n + 1) = (s.atTime wake).settle.awaitEnd name n := by
  have hadvance : s.advanceTo wake = (s.atTime wake).settle := by
    rw [advanceTo_of_le ((wake?_eq hr).trans hwake) (Dispatcher.lt_of_wake hwake) (Nat.le_refl _)]
    exact advanceTo_time (s.atTime wake).settle
  simp [Simulation.awaitEnd, h, hlive, hwake, hadvance]

/-- What is in flight lands, and the last loop ends with it. -/
theorem Rested.awaitEnd {n : Nat} (h : Rested i waits true last s r) (hn : r.dispatcher.processor.pending ≤ n)
    (hsound : (s.awaitEnd i.name n).Sound i) :
    ∃ r', Rested i waits true last (s.awaitEnd i.name n) r' ∧ r'.dispatcher.isEnded = true ∧
      (r.dispatcher.isEnded = true ∧ s.awaitEnd i.name n = s ∨ (s.awaitEnd i.name n).Landed i) ∧
      s.EndsAt waits (s.awaitEnd i.name n).time := by
  -- Every time that it is waited for, fewer messages are left to wait for.
  induction n generalizing s r with
  | zero =>
      rcases h.cases with hend | ⟨ticker, p, o, wake, hp, -, -⟩
      · exact ⟨r, h, hend, Or.inl ⟨hend, rfl⟩, h.endsAt hend⟩
      · obtain ⟨its, cur, ha⟩ := h.account .processor
        have hflies : r.dispatcher.processor.isInFlight = true := by rw [hp]; rfl
        exact absurd hn (Nat.not_le_of_lt (ha.pending_pos hflies))
  | succ n ih =>
      rcases h.cases with hend | ⟨ticker, p, o, wake, hp, hlt, hwake⟩
      · rw [awaitEnd_of_ended h.find? hend]
        exact ⟨r, h, hend, Or.inl ⟨hend, rfl⟩, h.endsAt hend⟩
      · have hlive : r.dispatcher.isEnded = false := by
          refine Bool.eq_false_iff.2 fun he => ?_
          cases hp.symm.trans (Dispatcher.isEnded_iff.1 he .processor)
        rw [awaitEnd_of_wake h.running h.find? hlive hwake] at hsound ⊢
        have honward : Onward (s.atTime wake).settle _ := .awaitEnd i.name n _
        obtain ⟨r₁, h₁, hon⟩ := (h.atTime (Nat.le_of_lt hlt)).settle hlive (nomatch ·)
          (hsound.of_onward honward)
        have hfewer : r₁.dispatcher.processor.pending < r.dispatcher.processor.pending :=
          hon.fewer rfl hp (Nat.le_refl _)
        obtain ⟨r', h', hend, hlanded, hends⟩ := ih h₁ (by omega) hsound
        refine ⟨r', h', hend, Or.inr ?_,
          h.endsAt_of_wake hlive ((wake?_eq h.running).trans hwake) hlt honward.time hends⟩
        rcases hlanded with ⟨hend₁, hstay⟩ | hlanded
        · rw [hstay]
          refine hon.landed (by rw [hp]; rfl) ?_
          have hended : r₁.dispatcher.processor = .ended := Dispatcher.isEnded_iff.1 hend₁ .processor
          rw [hended]
          rfl
        · exact hlanded

/-- For how many outcomes of the broker a dispatcher is waited for at most. -/
def patience (s : Simulation) (name : String) : Nat :=
  (s.find? name).elim 0 fun r =>
    r.dispatcher.processor.pending + r.dispatcher.unlocker.pending + r.dispatcher.cleaner.pending

theorem join_eq {name : String} (h : s.find? name = some r) :
    s.join name = if r.mode = .spawned then
        ((s.signal name (StopSignal.set true)).awaitEnd name
          ((s.signal name (StopSignal.set true)).patience name)).modify name Running.forget
      else (s.awaitEnd name (s.patience name)).modify name Running.forget := by
  unfold join
  rw [h]
  dsimp only
  split
  · rfl
  · rw [patience, h]

theorem Onward.join (s : Simulation) (name : String) : Onward s (s.join name) := by
  cases h : s.find? name with
  | none =>
      unfold Simulation.join
      rw [h]
      exact refl s
  | some r =>
      rw [join_eq h]
      split
      · exact (signal ..).trans ((awaitEnd ..).trans (modify ..))
      · exact (awaitEnd ..).trans (modify ..)

theorem Serves.pending_le (h : Serves i waits stop last s r) :
    r.dispatcher.processor.pending ≤ s.patience i.name := by
  unfold patience
  rw [h.find?]
  exact Nat.le_trans (Nat.le_add_right _ _) (Nat.le_add_right _ _)

end Simulation

end Outbox

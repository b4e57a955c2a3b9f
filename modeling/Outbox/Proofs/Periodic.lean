import Outbox.Periodic

/-!
# The schedule of a job

When the iterations of a periodic job begin, whatever the job does, whatever comes of its iterations and however
long they take: never two at once, never in a burst, and never later than a period after the last, or after its
end.
-/

namespace Outbox

namespace Timer

/-- What is documented of ticks: after one that is taken late the next is due a period from then, else a period
after this one was due. -/
def Documented (m : Timer) (period : Nat) : Prop :=
  ∀ due now, due ≤ now → m.next period due now = delayed period due now

theorem documented_unlimited (period : Nat) : unlimited.Documented period := fun _ _ _ => rfl

theorem documented_limited {period : Nat} (h : period ≤ longestWait) : limited.Documented period := by
  intro due now hdue
  refine Nat.min_eq_left ?_
  unfold delayed
  split <;> omega

end Timer

/-! ## Cadences -/

/-- Between two iterations of a job. -/
structure Cadence where
  ticker : Ticker
  /-- When the last iteration has ended. -/
  free : Nat

namespace Cadence

/-- No iteration has begun. -/
def start (ticker : Ticker) : Cadence := ⟨ticker, ticker.due⟩

/-- When the next iteration begins. -/
def next (c : Cadence) : Nat := max c.ticker.due c.free

/-- After an iteration that has taken so long. -/
def after (c : Cadence) (d : Nat) : Cadence := ⟨c.ticker.take c.next, c.next + d⟩

/-- After iterations that have taken so long. -/
def passed (c : Cadence) (ds : List Nat) : Cadence := ds.foldl after c

/-- When iterations of these durations begin, and the one that follows them. -/
def begins (c : Cadence) : List Nat → List Nat
  | [] => [c.next]
  | d :: ds => c.next :: (c.after d).begins ds

/-- The ticks are those that are documented. -/
def Documented (c : Cadence) : Prop := c.ticker.timer.Documented c.ticker.period

variable {c : Cadence} {now d : Nat} {ds : List Nat}

theorem head_begins (c : Cadence) (ds : List Nat) : (c.begins ds).head? = some c.next := by
  cases ds <;> rfl

@[simp] theorem passed_concat (c : Cadence) (ds : List Nat) (d : Nat) :
    c.passed (ds ++ [d]) = (c.passed ds).after d := List.foldl_append ..

theorem begins_concat (c : Cadence) (ds : List Nat) (d : Nat) :
    c.begins (ds ++ [d]) = c.begins ds ++ [(c.passed (ds ++ [d])).next] := by
  induction ds generalizing c with
  | nil => rfl
  | cons x ds ih => exact congrArg (c.next :: ·) (ih (c.after x))

/-- An iteration begins as soon as its tick is due and the last iteration has ended. -/
theorem next_eq (hdue : c.ticker.due ≤ now) (hfree : c.free ≤ now) (hnext : now ≤ c.next) : c.next = now :=
  Nat.le_antisymm (Nat.max_le.2 ⟨hdue, hfree⟩) hnext

theorem le_next_after (c : Cadence) (d : Nat) : c.next + d ≤ (c.after d).next := Nat.le_max_right ..

theorem due_after (h : c.Documented) (d : Nat) :
    (c.after d).ticker.due = Timer.delayed c.ticker.period c.ticker.due c.next :=
  h _ _ (Nat.le_max_left ..)

theorem early_next_after (h : c.Documented) (d : Nat) :
    c.next + c.ticker.period ≤ (c.after d).next + Timer.tolerance := by
  have hdue : (c.after d).ticker.due ≤ (c.after d).next := Nat.le_max_left ..
  rw [due_after h, Timer.delayed] at hdue
  split at hdue <;> omega

theorem late_next_after (h : c.Documented) (d : Nat) :
    (c.after d).next ≤ c.next + max c.ticker.period d := by
  have hle : c.ticker.due ≤ c.next := Nat.le_max_left ..
  have hnext : (c.after d).next = max (c.after d).ticker.due (c.next + d) := rfl
  rw [hnext, due_after h, Timer.delayed]
  split <;> omega

end Cadence

/-- Iterations of these durations begin at these times, and one more: none before the last has ended, none more
than a little earlier than a period after the last, and none later than both. -/
inductive Steady (period : Nat) : (durations begins : List Nat) → Prop where
  | next (b : Nat) : Steady period [] [b]
  | cons {d b b' ds bs} (apart : b + d ≤ b') (early : b + period ≤ b' + Timer.tolerance)
      (late : b' ≤ b + max period d) (h : Steady period ds (b' :: bs)) :
      Steady period (d :: ds) (b :: b' :: bs)

theorem Cadence.steady {c : Cadence} (h : c.Documented) (ds : List Nat) :
    Steady c.ticker.period ds (c.begins ds) := by
  induction ds generalizing c with
  | nil => exact .next _
  | cons d ds ih =>
      have hnext : Steady c.ticker.period ds ((c.after d).begins ds) := ih (c := c.after d) h
      have apart := c.le_next_after d
      have early := early_next_after h d
      have late := late_next_after h d
      cases ds with
      | nil => exact .cons apart early late hnext
      | cons d' ds => exact .cons apart early late hnext

/-- Iterations of these durations begin at these times, and one more: the first with the first tick, and then
steadily. -/
structure Punctual (ticker : Ticker) (durations begins : List Nat) : Prop where
  first : begins.head? = some ticker.due
  steady : Steady ticker.period durations begins

theorem Cadence.punctual {ticker : Ticker} (h : ticker.timer.Documented ticker.period) (ds : List Nat) :
    Punctual ticker ds ((start ticker).begins ds) where
  first := (head_begins ..).trans (congrArg some (Nat.max_self _))
  steady := steady (c := start ticker) h ds

/-! ## Loops on schedule -/

namespace Cadence

variable {α : Type} {c : Cadence} {now : Nat} {began : Option Nat} {ticker : Ticker} {l : Loop α}
  {durations begins : List Nat}

/-- An iteration is under way at the time `now`, and has begun earlier if there is a time `began`. -/
structure Busy (c : Cadence) (now : Nat) (began : Option Nat) (ticker : Ticker) : Prop where
  ticker_eq : ticker = c.ticker.take c.next
  next_le : c.next ≤ now
  began_eq : began.getD now = c.next

/-- What a loop does at the time `now` is on schedule, or it has broken off. -/
def Fits (c : Cadence) (now : Nat) (began : Option Nat) : Loop α → Prop
  | .waiting ticker => began = none ∧ ticker = c.ticker ∧ c.free ≤ now ∧ now ≤ c.next
  | .inFlight ticker _ _ => c.Busy now began ticker ∧ began = some c.next
  | .ended => began = some c.next ∧ c.next ≤ now

/-- When its tick is due, an iteration begins. -/
theorem Fits.busy (h : c.Fits now began (.waiting ticker : Loop α)) (hdue : ticker.due ≤ now) :
    c.Busy now none (ticker.take now) := by
  obtain ⟨-, rfl, hfree, hnext⟩ := h
  have hnow := c.next_eq hdue hfree hnext
  exact ⟨by rw [hnow], Nat.le_of_eq hnow, hnow.symm⟩

/-- A loop is still on schedule when time has passed, but not beyond what it waits for. -/
theorem Fits.mono {now' : Nat} (h : c.Fits now began l) (hle : now ≤ now') (hw : ∀ w ∈ l.wake?, now' ≤ w) :
    c.Fits now' began l := by
  cases l with
  | waiting ticker =>
      obtain ⟨hbegan, rfl, hfree, -⟩ := h
      exact ⟨hbegan, rfl, Nat.le_trans hfree hle, Nat.le_trans (hw _ rfl) (Nat.le_max_left ..)⟩
  | inFlight ticker w wake =>
      obtain ⟨hbusy, rfl⟩ := h
      exact ⟨⟨hbusy.ticker_eq, Nat.le_trans hbusy.next_le hle, rfl⟩, rfl⟩
  | ended => exact ⟨h.1, Nat.le_trans h.2 hle⟩

/-- Iterations of these durations have begun at these times, by this schedule. -/
structure Kept (c : Cadence) (now : Nat) (durations begins : List Nat) (began : Option Nat) (l : Loop α) :
    Prop where
  begins_eq : c.begins durations = begins ++ [(c.passed durations).next]
  fits : (c.passed durations).Fits now began l

namespace Kept

theorem start (ticker : Ticker) : (start ticker).Kept ticker.due [] [] none (.waiting ticker : Loop α) where
  begins_eq := rfl
  fits := ⟨rfl, rfl, Nat.le_refl _, Nat.le_max_left ..⟩

theorem mono {now' : Nat} (h : c.Kept now durations begins began l) (hle : now ≤ now')
    (hw : ∀ w ∈ l.wake?, now' ≤ w) : c.Kept now' durations begins began l :=
  ⟨h.begins_eq, h.fits.mono hle hw⟩

/-- An iteration has to wait. -/
theorem fly {work : α} {wake : Nat} (h : c.Kept now durations begins began l)
    (hbusy : (c.passed durations).Busy now began ticker) :
    c.Kept now durations begins (some (began.getD now)) (.inFlight ticker work wake) where
  begins_eq := h.begins_eq
  fits := ⟨⟨hbusy.ticker_eq, hbusy.next_le, hbusy.began_eq⟩, congrArg some hbusy.began_eq⟩

/-- An iteration comes to its end. -/
theorem land (h : c.Kept now durations begins began l) (hbusy : (c.passed durations).Busy now began ticker) :
    c.Kept now (durations ++ [now - began.getD now]) (begins ++ [began.getD now]) none
      (.waiting ticker : Loop α) := by
  have hafter : c.passed (durations ++ [now - began.getD now]) = ⟨ticker, now⟩ := by
    rw [passed_concat, hbusy.began_eq, after, Nat.add_sub_cancel' hbusy.next_le, hbusy.ticker_eq]
  refine ⟨?_, ?_⟩
  · rw [begins_concat, h.begins_eq, hbusy.began_eq]
  · rw [hafter]
    exact ⟨rfl, rfl, Nat.le_refl now, Nat.le_max_right ..⟩

/-- An iteration is broken off. -/
theorem breakOff (h : c.Kept now durations begins began l) (hbusy : (c.passed durations).Busy now began ticker) :
    c.Kept now durations begins (some (began.getD now)) (.ended : Loop α) :=
  ⟨h.begins_eq, congrArg some hbusy.began_eq, hbusy.next_le⟩

end Kept

end Cadence

/-! ## The history of a job -/

/-- An iteration that is over. -/
structure Turn where
  began : Nat
  ended : Nat
  result : Except OutboxError Unit

namespace Turn

def duration (t : Turn) : Nat := t.ended - t.began

/-- How long it took, and what came of it. -/
def summary (t : Turn) : Nat × Except OutboxError Unit := (t.duration, t.result)

end Turn

/-- The iterations that are over, and when one has begun that is not. -/
structure History where
  turns : List Turn := []
  current : Option Nat := none

namespace History

variable {α : Type} {c : Cadence} {now : Nat} {h : History} {l : Loop α} {ticker : Ticker}

/-- After an iteration has got so far at the time `now`. -/
def note (now : Nat) (h : History) : Job.Progress α → History
  | .over (some result) => ⟨h.turns ++ [⟨h.current.getD now, now, result⟩], none⟩
  | .over none | .awaits _ => { h with current := some (h.current.getD now) }

/-- The iterations have begun by this schedule, and none has ended before it began. -/
structure Kept (c : Cadence) (now : Nat) (h : History) (l : Loop α) : Prop where
  cadence : c.Kept now (h.turns.map Turn.duration) (h.turns.map Turn.began) h.current l
  ordered : ∀ t ∈ h.turns, t.began ≤ t.ended

namespace Kept

theorem start (ticker : Ticker) :
    Kept (.start ticker) ticker.due {} (.waiting ticker : Loop α) :=
  ⟨.start ticker, fun _ ht => nomatch ht⟩

theorem mono {now' : Nat} (hk : Kept c now h l) (hle : now ≤ now') (hw : ∀ w ∈ l.wake?, now' ≤ w) :
    Kept c now' h l :=
  ⟨hk.cadence.mono hle hw, hk.ordered⟩

/-- An iteration is under way. -/
abbrev Busy (c : Cadence) (now : Nat) (h : History) (ticker : Ticker) : Prop :=
  (c.passed (h.turns.map Turn.duration)).Busy now h.current ticker

theorem busy {signal : StopSignal} {lingers : Bool} (hk : Kept c now h (.waiting ticker : Loop α))
    (hc : Loop.choose signal lingers ticker now = .iterate) : Busy c now h (ticker.take now) := by
  have hbegan := hk.cadence.fits.1
  have hbusy := hk.cadence.fits.busy (Loop.due_of_iterate hc)
  rwa [← hbegan] at hbusy

theorem fly {work : α} {wake : Nat} (hk : Kept c now h l) (hbusy : Busy c now h ticker) :
    Kept c now (h.note now (.awaits work)) (.inFlight ticker work wake) :=
  ⟨hk.cadence.fly hbusy, hk.ordered⟩

theorem land (hk : Kept c now h l) {result : Except OutboxError Unit} (hbusy : Busy c now h ticker) :
    Kept c now (h.note now (.over (some result) : Job.Progress α)) (.waiting ticker : Loop α) where
  cadence := by simpa [note, Turn.duration] using hk.cadence.land hbusy
  ordered := List.forall_mem_append.2
    ⟨hk.ordered, List.forall_mem_singleton.2 (Nat.le_trans (Nat.le_of_eq hbusy.began_eq) hbusy.next_le)⟩

theorem breakOff (hk : Kept c now h l) (hbusy : Busy c now h ticker) :
    Kept c now (h.note now (.over none : Job.Progress α)) (.ended : Loop α) :=
  ⟨hk.cadence.breakOff hbusy, hk.ordered⟩

end Kept

end History

/-! ## One moment -/

namespace Loop

variable {signal : StopSignal} {lingers : Bool} {ticker : Ticker} {now : Nat}

theorem choose_of_kept (hd : signal.dropped = false) :
    choose signal lingers ticker now =
      if signal.value then .stop else if ticker.due ≤ now then .iterate else .wait := by
  simp [choose, hd]

theorem value_of_stop (hd : signal.dropped = false) (hc : choose signal lingers ticker now = .stop) :
    signal.value = true := by
  rw [choose_of_kept hd] at hc
  split at hc
  · assumption
  · split at hc <;> cases hc

theorem value_of_iterate (hd : signal.dropped = false) (hc : choose signal lingers ticker now = .iterate) :
    signal.value = false := by
  rw [choose_of_kept hd] at hc
  split at hc
  · cases hc
  · rename_i hv
    exact Bool.eq_false_iff.2 hv

theorem of_wait (hd : signal.dropped = false) (hc : choose signal lingers ticker now = .wait) :
    signal.value = false ∧ now < ticker.due := by
  rw [choose_of_kept hd] at hc
  split at hc
  · cases hc
  · rename_i hv
    split at hc
    · cases hc
    · rename_i hdue
      exact ⟨Bool.eq_false_iff.2 hv, Nat.lt_of_not_le hdue⟩

end Loop

namespace Job

variable {α σ : Type} {j : Job α σ} {signal : StopSignal} {lingers : Bool} {now : Nat} {ticker : Ticker}

/-- Goes on from what an iteration has come to. -/
def goOn (j : Job α σ) (signal : StopSignal) (lingers : Bool) (now : Nat) (ticker : Ticker) :
    Progress α × σ → Loop α × σ
  | (.awaits w, s) => (.inFlight ticker w (ticker.timer.wake now (j.delay w)), s)
  | (.over none, s) => (.ended, s)
  | (.over (some ending), s) => j.settle signal lingers now (.waiting ticker) (j.report ending s)

theorem settle_ended (s : σ) : j.settle signal lingers now .ended s = (.ended, s) := by
  rw [settle]

theorem settle_of_stop (hc : Loop.choose signal lingers ticker now = .stop) (s : σ) :
    j.settle signal lingers now (.waiting ticker) s = (.ended, j.quit s) := by
  rw [settle]
  split
  · rfl
  · rename_i h; cases hc.symm.trans h
  · rename_i h; cases hc.symm.trans h

theorem settle_of_wait (hc : Loop.choose signal lingers ticker now = .wait) (s : σ) :
    j.settle signal lingers now (.waiting ticker) s = (.waiting ticker, s) := by
  rw [settle]
  split
  · rename_i h; cases hc.symm.trans h
  · rfl
  · rename_i h; cases hc.symm.trans h

theorem settle_of_iterate (hc : Loop.choose signal lingers ticker now = .iterate) (s : σ) :
    j.settle signal lingers now (.waiting ticker) s =
      j.goOn signal lingers now (ticker.take now) (j.iterate s) := by
  rw [settle]
  split
  · rename_i h; cases hc.symm.trans h
  · rename_i h; cases hc.symm.trans h
  · rfl

theorem settle_of_due {wake : Nat} (hw : wake ≤ now) (w : α) (s : σ) :
    j.settle signal lingers now (.inFlight ticker w wake) s =
      j.goOn signal lingers now ticker (j.resume w s) := by
  rw [settle, if_pos hw]
  rfl

theorem settle_of_lt {wake : Nat} (hw : ¬ wake ≤ now) (w : α) (s : σ) :
    j.settle signal lingers now (.inFlight ticker w wake) s = (.inFlight ticker w wake, s) := by
  rw [settle, if_neg hw]

/-- A job whose history is taken down at the time `now`. -/
def noted (j : Job α σ) (now : Nat) : Job α (σ × History) where
  iterate s := ((j.iterate s.1).1, (j.iterate s.1).2, s.2.note now (j.iterate s.1).1)
  resume w s := ((j.resume w s.1).1, (j.resume w s.1).2, s.2.note now (j.resume w s.1).1)
  delay := j.delay
  report ending s := (j.report ending s.1, s.2)
  quit s := (j.quit s.1, s.2)

theorem noted_iterate {s s' : σ × History} {p : Progress α} (h : (j.noted now).iterate s = (p, s')) :
    j.iterate s.1 = (p, s'.1) ∧ s'.2 = s.2.note now p := by
  cases h
  exact ⟨rfl, rfl⟩

theorem noted_resume {s s' : σ × History} {w : α} {p : Progress α} (h : (j.noted now).resume w s = (p, s')) :
    j.resume w s.1 = (p, s'.1) ∧ s'.2 = s.2.note now p := by
  cases h
  exact ⟨rfl, rfl⟩

/-- Nothing changes by a history's being taken down. -/
theorem settle_noted (j : Job α σ) (signal : StopSignal) (lingers : Bool) (now : Nat) (l : Loop α)
    (s : σ × History) :
    j.settle signal lingers now l s.1 =
      (((j.noted now).settle signal lingers now l s).1, ((j.noted now).settle signal lingers now l s).2.1) := by
  fun_induction settle (j.noted now) signal lingers now l s with
  | case1 s => exact settle_ended s.1
  | case2 s ticker hc => exact settle_of_stop hc s.1
  | case3 s ticker hc => exact settle_of_wait hc s.1
  | case4 s ticker hc _ _ w s' hi => rw [settle_of_iterate hc, (noted_iterate hi).1]; rfl
  | case5 s ticker hc _ _ s' hi => rw [settle_of_iterate hc, (noted_iterate hi).1]; rfl
  | case6 s ticker hc _ _ ending s' hi ih =>
      rw [settle_of_iterate hc, (noted_iterate hi).1]
      exact ih
  | case7 s ticker w wake hw w' s' hr => rw [settle_of_due hw, (noted_resume hr).1]; rfl
  | case8 s ticker w wake hw s' hr => rw [settle_of_due hw, (noted_resume hr).1]; rfl
  | case9 s ticker w wake hw ending s' hr ih =>
      rw [settle_of_due hw, (noted_resume hr).1]
      exact ih
  | case10 s ticker w wake hw => exact settle_of_lt hw w s.1

end Job

/-! ## A loop as time passes -/

namespace Loop

variable {α : Type}

/-- There is nothing to do any more at the time `now`, but for an iteration that does not wait for long. -/
def Settled (now : Nat) : Loop α → Prop
  | waiting ticker => now < ticker.due
  | inFlight _ _ wake => now ≤ wake
  | ended => True

theorem Settled.le_wake {now : Nat} {l : Loop α} (h : l.Settled now) : ∀ w ∈ l.wake?, now ≤ w := by
  cases l with
  | waiting ticker => exact fun w hw => Option.some.inj hw ▸ Nat.le_of_lt h
  | inFlight ticker f wake => exact fun w hw => Option.some.inj hw ▸ h
  | ended => exact fun w hw => nomatch hw

end Loop

namespace Job

variable {α σ : Type}

theorem settled_settle (j : Job α σ) (lingers : Bool) (now : Nat) (l : Loop α) (s : σ) :
    (j.settle {} lingers now l s).1.Settled now := by
  fun_induction settle j {} lingers now l s with
  | case1 | case2 | case5 | case8 => trivial
  | case3 s ticker hc => exact (Loop.of_wait rfl hc).2
  | case4 s ticker | case7 s ticker => exact ticker.timer.le_wake
  | case6 s ticker hc _ _ ending s' hi ih => exact ih
  | case9 s ticker w wake hw ending s' hr ih => exact ih
  | case10 s ticker w wake hw => exact Nat.le_of_not_le hw

/-- Whatever the job does, its iterations go on to begin by the schedule. -/
theorem kept_settle (j : Job α σ) (lingers : Bool) {c : Cadence} {now : Nat} {l : Loop α} {s : σ × History}
    (hk : s.2.Kept c now l) :
    ((j.noted now).settle {} lingers now l s).2.2.Kept c now ((j.noted now).settle {} lingers now l s).1 := by
  fun_induction settle (j.noted now) {} lingers now l s with
  | case1 | case3 | case10 => exact hk
  | case2 s ticker hc => cases Loop.value_of_stop rfl hc
  | case4 s ticker hc _ _ w s' hi =>
      rw [(noted_iterate hi).2]
      exact hk.fly (hk.busy hc)
  | case5 s ticker hc _ _ s' hi =>
      rw [(noted_iterate hi).2]
      exact hk.breakOff (hk.busy hc)
  | case6 s ticker hc _ _ ending s' hi ih =>
      have hland : s'.2.Kept c now (.waiting (ticker.take now) : Loop α) := by
        rw [(noted_iterate hi).2]
        exact hk.land (hk.busy hc)
      exact ih hland
  | case7 s ticker w wake hw w' s' hr =>
      rw [(noted_resume hr).2]
      exact hk.fly hk.cadence.fits.1
  | case8 s ticker w wake hw s' hr =>
      rw [(noted_resume hr).2]
      exact hk.breakOff hk.cadence.fits.1
  | case9 s ticker w wake hw ending s' hr ih =>
      have hland : s'.2.Kept c now (.waiting ticker : Loop α) := by
        rw [(noted_resume hr).2]
        exact hk.land hk.cadence.fits.1
      exact ih hland

/-- A loop that nobody stops, what its job works on, and its history. -/
structure Stage (α σ : Type) where
  time : Nat
  loop : Loop α
  world : σ
  history : History := {}

/-- Time passes, but no further than to what the loop waits for, and others change what its job works on. -/
structure Interlude (σ : Type) where
  wait : Nat
  meanwhile : σ → σ := id

namespace Stage

/-- The loop gets as far as it does without time passing. -/
def settle (j : Job α σ) (g : Stage α σ) : Stage α σ where
  time := g.time
  loop := (j.settle {} true g.time g.loop g.world).1
  world := (j.settle {} true g.time g.loop g.world).2
  history := ((j.noted g.time).settle {} true g.time g.loop (g.world, g.history)).2.2

/-- The loop starts when its first tick is due. -/
def first (j : Job α σ) (ticker : Ticker) (world : σ) : Stage α σ :=
  settle j { time := ticker.due, loop := .waiting ticker, world }

def pass (g : Stage α σ) (i : Interlude σ) : Stage α σ :=
  { g with
    time := g.loop.wake?.elim (g.time + i.wait) (min (g.time + i.wait))
    world := i.meanwhile g.world }

/-- After as many interludes, with what the loop does in between. -/
def proceed (j : Job α σ) (g : Stage α σ) (is : List (Interlude σ)) : Stage α σ :=
  is.foldl (fun g i => (g.pass i).settle j) g

def run (j : Job α σ) (ticker : Ticker) (world : σ) (is : List (Interlude σ)) : Stage α σ :=
  (first j ticker world).proceed j is

/-- The iterations have begun by the schedule. -/
structure Kept (c : Cadence) (g : Stage α σ) : Prop where
  history : g.history.Kept c g.time g.loop
  settled : g.loop.Settled g.time

variable {j : Job α σ} {c : Cadence} {g : Stage α σ} {ticker : Ticker}

theorem settle_eq {out : Loop α × σ × History}
    (h : (j.noted g.time).settle {} true g.time g.loop (g.world, g.history) = out) :
    g.settle j = ⟨g.time, out.1, out.2.1, out.2.2⟩ := by
  have hnoted := settle_noted j {} true g.time g.loop (g.world, g.history)
  rw [h] at hnoted
  simp only [settle, h, hnoted]

theorem kept_settle (hk : g.history.Kept c g.time g.loop) : (g.settle j).Kept c where
  history := by
    rw [settle_eq rfl]
    exact j.kept_settle true (s := (g.world, g.history)) hk
  settled := settled_settle ..

theorem le_time_pass (h : g.loop.Settled g.time) (i : Interlude σ) : g.time ≤ (g.pass i).time := by
  unfold pass
  cases hw : g.loop.wake? with
  | none => exact Nat.le_add_right ..
  | some w => exact Nat.le_min.2 ⟨Nat.le_add_right .., h.le_wake w hw⟩

theorem time_pass_le (g : Stage α σ) (i : Interlude σ) : ∀ w ∈ g.loop.wake?, (g.pass i).time ≤ w := by
  intro w hw
  simp only [pass, Option.mem_def.1 hw, Option.elim_some]
  exact Nat.min_le_right ..

theorem Kept.next (hk : g.Kept c) (i : Interlude σ) : ((g.pass i).settle j).Kept c :=
  kept_settle (hk.history.mono (le_time_pass hk.settled i) (time_pass_le g i))

theorem Kept.proceed (hk : g.Kept c) (is : List (Interlude σ)) : (g.proceed j is).Kept c := by
  induction is generalizing g with
  | nil => exact hk
  | cons i is ih => exact ih (hk.next i)

theorem kept_run (j : Job α σ) (ticker : Ticker) (world : σ) (is : List (Interlude σ)) :
    (run j ticker world is).Kept (.start ticker) := by
  have hfirst : (first j ticker world).Kept (.start ticker) := kept_settle (.start ticker)
  exact hfirst.proceed is

/-- What is so of the iterations of a job as long as nobody stops it: `next` is when one has begun that is not over,
or else when the next one will begin. -/
structure OnSchedule (ticker : Ticker) (next : Nat) (g : Stage α σ) : Prop where
  ordered : ∀ t ∈ g.history.turns, t.began ≤ t.ended
  current : match g.loop with
    | .waiting _ => g.history.current = none ∧ g.time < next
    | .inFlight .. | .ended => g.history.current = some next ∧ next ≤ g.time
  /-- When they begin depends on nothing but the first tick and how long they take. -/
  begins : g.history.turns.map Turn.began ++ [next] =
    (Cadence.start ticker).begins (g.history.turns.map Turn.duration)

theorem Kept.onSchedule (hk : g.Kept (.start ticker)) : ∃ next, g.OnSchedule ticker next := by
  refine ⟨_, hk.history.ordered, ?_, hk.history.cadence.begins_eq.symm⟩
  have hfits := hk.history.cadence.fits
  have hsettled := hk.settled
  revert hfits hsettled
  cases g.loop with
  | waiting t =>
      rintro ⟨hnone, rfl, -, -⟩ hsettled
      exact ⟨hnone, Nat.lt_of_lt_of_le hsettled (Nat.le_max_left ..)⟩
  | inFlight t w wake =>
      rintro ⟨hbusy, hsome⟩ -
      exact ⟨hsome, hbusy.next_le⟩
  | ended =>
      rintro hended -
      exact hended

end Stage

/-- A job never bursts and never stalls: whatever it does, whatever comes of its iterations and however long they
take, they begin by the schedule of its ticks. -/
theorem run_onSchedule (j : Job α σ) (ticker : Ticker) (world : σ) (is : List (Interlude σ))
    (h : ticker.timer.Documented ticker.period) :
    ∃ next, (Stage.run j ticker world is).OnSchedule ticker next ∧
      Punctual ticker ((Stage.run j ticker world is).history.turns.map Turn.duration)
        ((Stage.run j ticker world is).history.turns.map Turn.began ++ [next]) := by
  obtain ⟨next, hschedule⟩ := (Stage.kept_run j ticker world is).onSchedule
  exact ⟨next, hschedule, hschedule.begins ▸ Cadence.punctual h _⟩

/-! ## Jobs by a plan -/

/-- How long each iteration takes, and what comes of it. -/
abbrev Plan := List (Nat × Except OutboxError Unit)

/-- A job whose iterations are those of the plan, as long as there are any. -/
def planned : Job (Nat × Except OutboxError Unit) Plan where
  iterate
    | [] => (.over none, [])
    | x :: plan => (.awaits x, plan)
  resume x plan := (.over (some x.2), plan)
  delay := Prod.fst
  report _ plan := plan
  quit plan := plan

namespace Stage

/-- Before the loop has looked whether its tick is due. -/
def opening (ticker : Ticker) (time : Nat) (plan : Plan) (turns : List Turn) :
    Stage (Nat × Except OutboxError Unit) Plan where
  time
  loop := .waiting ticker
  world := plan
  history := { turns }

/-- The iterations of the plan can still be carried out, after others that are over. -/
def Allows (plan : Plan) (turns : List Turn) (g : Stage (Nat × Except OutboxError Unit) Plan) : Prop :=
  ∃ is, (g.proceed planned is).history.turns.map Turn.summary = turns.map Turn.summary ++ plan

variable {ticker : Ticker} {time : Nat} {x : Nat × Except OutboxError Unit} {plan : Plan} {turns : List Turn}

theorem settle_opening_of_lt (h : time < ticker.due) :
    (opening ticker time plan turns).settle planned = opening ticker time plan turns := by
  have hc : Loop.choose {} true ticker time = .wait := by
    simp [Loop.choose_of_kept, h]
  exact settle_eq (g := opening ticker time plan turns) (settle_of_wait (j := planned.noted time) hc _)

theorem settle_opening_of_due (h : ticker.due ≤ time) :
    (opening ticker time (x :: plan) turns).settle planned =
      { time, loop := .inFlight (ticker.take time) x (ticker.timer.wake time x.1), world := plan,
        history := ⟨turns, some time⟩ } := by
  have hc : Loop.choose {} true ticker time = .iterate := by
    simp [Loop.choose_of_kept, h]
  exact settle_eq (g := opening ticker time (x :: plan) turns)
    (settle_of_iterate (j := planned.noted time) hc _)

theorem allows_nil : ((opening ticker time [] turns).settle planned).Allows [] turns := by
  refine ⟨[], ?_⟩
  rw [List.append_nil]
  by_cases h : ticker.due ≤ time
  · have hc : Loop.choose {} true ticker time = .iterate := by
      simp [Loop.choose_of_kept, h]
    rw [settle_eq (g := opening ticker time [] turns) (settle_of_iterate (j := planned.noted time) hc _)]
    rfl
  · rw [settle_opening_of_lt (Nat.lt_of_not_le h)]
    rfl

/-- The tick becomes due. -/
theorem Allows.of_lt (h : time < ticker.due)
    (hdue : ((opening ticker ticker.due plan turns).settle planned).Allows plan turns) :
    ((opening ticker time plan turns).settle planned).Allows plan turns := by
  obtain ⟨is, his⟩ := hdue
  refine ⟨{ wait := ticker.due - time } :: is, ?_⟩
  have hpass : (opening ticker time plan turns).pass { wait := ticker.due - time } =
      opening ticker ticker.due plan turns := by
    simp only [pass, opening, Loop.wake?, Option.elim_some, id]
    rw [Nat.add_sub_cancel' (Nat.le_of_lt h), Nat.min_self]
  rw [proceed, List.foldl_cons, settle_opening_of_lt h, hpass]
  exact his

/-- An iteration takes as long as it should. -/
theorem Allows.of_due (hwake : ∀ now millis, ticker.timer.wake now millis = now + millis) (h : ticker.due ≤ time)
    (hrest : ((opening (ticker.take time) (time + x.1) plan (turns ++ [⟨time, time + x.1, x.2⟩])).settle
      planned).Allows plan (turns ++ [⟨time, time + x.1, x.2⟩])) :
    ((opening ticker time (x :: plan) turns).settle planned).Allows (x :: plan) turns := by
  obtain ⟨is, his⟩ := hrest
  refine ⟨{ wait := x.1 } :: is, ?_⟩
  have hland : (((opening ticker time (x :: plan) turns).settle planned).pass { wait := x.1 }).settle planned =
      (opening (ticker.take time) (time + x.1) plan (turns ++ [⟨time, time + x.1, x.2⟩])).settle planned := by
    rw [settle_opening_of_due h, hwake]
    simp only [pass, Loop.wake?, Option.elim_some, Nat.min_self, id]
    rw [settle_eq (settle_of_due (Nat.le_refl _) ..), settle_eq rfl]
    rfl
  rw [proceed, List.foldl_cons, hland]
  exact his.trans (by simp [Turn.summary, Turn.duration])

theorem allows (plan : Plan) (ticker : Ticker)
    (hwake : ∀ now millis, ticker.timer.wake now millis = now + millis) (time : Nat) (turns : List Turn) :
    ((opening ticker time plan turns).settle planned).Allows plan turns := by
  induction plan generalizing ticker time turns with
  | nil => exact allows_nil
  | cons x plan ih =>
      by_cases h : ticker.due ≤ time
      · exact .of_due hwake h (ih (ticker.take time) hwake _ _)
      · exact .of_lt (Nat.lt_of_not_le h) (.of_due hwake (Nat.le_refl _) (ih (ticker.take ticker.due) hwake _ _))

end Stage

/-- Any sequence of iterations can be had. -/
theorem exists_run_planned (plan : Plan) (ticker : Ticker)
    (hwake : ∀ now millis, ticker.timer.wake now millis = now + millis) :
    ∃ is, (Stage.run planned ticker plan is).history.turns.map Turn.summary = plan :=
  Stage.allows plan ticker hwake ticker.due []

end Job

end Outbox

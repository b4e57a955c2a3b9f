import Outbox.Proofs.Dispatcher.Loops
import Outbox.Simulation

/-!
# Visits

What the three loops of a dispatcher do at one moment, one after the other, and what a simulation of that
dispatcher alone is like when there is nothing more to do.
-/

namespace Outbox

theorem Event.filter_own {name : String} {task task' : Task} {es : List Event}
    (h : ∀ e ∈ es, e.task? name = some task) :
    es.filter (·.task? name = some task') = if task = task' then es else [] := by
  split
  · rename_i he
    exact List.filter_eq_self.2 fun e hm => by simp [h e hm, he]
  · rename_i he
    exact List.filter_eq_nil_iff.2 fun e hm => by simp [h e hm, he]

/-- How often a task is due. -/
def Config.interval (c : Config) : Task → Nat
  | .processor => c.processInterval
  | .unlocker => c.lockCheckerInterval
  | .cleaner => c.cleanupInterval

namespace Dispatcher

def loop (d : Dispatcher) : Task → Loop Flight
  | .processor => d.processor
  | .unlocker => d.unlocker
  | .cleaner => d.cleaner

theorem isEnded_iff {d : Dispatcher} : d.isEnded = true ↔ ∀ task, d.loop task = .ended := by
  have hloop : ∀ l : Loop Flight, l.isEnded = true ↔ l = .ended := by
    intro l
    cases l with
    | ended => exact ⟨fun _ => rfl, fun _ => rfl⟩
    | waiting | inFlight => exact ⟨(nomatch ·), (nomatch ·)⟩
  rw [isEnded, Bool.and_eq_true, Bool.and_eq_true, hloop, hloop, hloop]
  exact ⟨fun ⟨⟨hp, hu⟩, hc⟩ => fun | .processor => hp | .unlocker => hu | .cleaner => hc,
    fun h => ⟨⟨h .processor, h .unlocker⟩, h .cleaner⟩⟩

end Dispatcher

/-- Nothing but log entries lies between these two moments. -/
def Trial.Logged (t u : Trial) : Prop := ∃ entries : List LogEntry, u = entries.foldl Trial.log t

namespace Trial.Logged

variable {name : String} {machine : MachineId} {t u : Trial}

theorem refl (t : Trial) : Logged t t := ⟨[], rfl⟩

theorem log (t : Trial) (e : LogEntry) : Logged t (t.log e) := ⟨[e], rfl⟩

theorem trans {v : Trial} (h : Logged t u) (h' : Logged u v) : Logged t v := by
  obtain ⟨entries, rfl⟩ := h
  obtain ⟨entries', rfl⟩ := h'
  exact ⟨entries ++ entries', (List.foldl_append ..).symm⟩

theorem did (h : Logged t u) : Did name [] t u := by
  obtain ⟨entries, rfl⟩ := h
  exact .foldl_log t entries

theorem store (h : Logged t u) : u.store = t.store := by
  obtain ⟨entries, rfl⟩ := h
  exact store_foldl_log

theorem freed (h : Logged t u) (hf : t.Freed name machine) : u.Freed name machine := by
  obtain ⟨entries, rfl⟩ := h
  exact hf.foldl_log entries

end Trial.Logged

/-- What the loops of `d` do at the time `now`, which comes to `es` for each task. -/
structure Visited (d : Dispatcher) (now last : Nat) (deeds : Task → List Stamped) (t : Trial)
    (d' : Dispatcher) (t' : Trial) (es : Task → List Event) : Prop where
  seen : t.seen ⊆ t'.seen
  deeds_eq : ∀ task, t'.deeds d.name task = t.deeds d.name task ++ es task
  account : ∀ task, ∃ its cur,
    Account d.identity task last its cur (d'.loop task) (deeds task ++ stampedAt now (es task))
  rests : (∀ task, d.loop task = .ended → d.signal.value = true) →
    ∀ task, (d'.loop task).Rests d.signal.value now
  freed : d.processor.Moves d.signal.value now ∨ t.Freed d.name d.machine →
    d'.processor.isInFlight = true ∨ t'.Freed d.name d.machine
  landed : d.processor.isInFlight = true → d'.processor.isInFlight = false → es .processor ≠ []
  fewer : d.signal.value = true → ∀ {ticker p o wake}, d.processor = .inFlight ticker ⟨p, o⟩ wake →
    wake ≤ now → d'.processor.pending < d.processor.pending

/-- The loops are visited in turn, with log entries in between. -/
theorem visited {d d' : Dispatcher} {now last : Nat} {deeds : Task → List Stamped}
    {t t₀ t₁ u₀ u₁ c₀ t' : Trial}
    (ha : ∀ task, ∃ its cur, Account d.identity task last its cur (d.loop task) (deeds task))
    (hd : d.signal.dropped = false) (hlast : d.signal.value = false → now ≤ last) (hclock : t.now.isSome)
    (hold : ∀ task, ∀ x ∈ deeds task, x.2.Roomy d.name) (hnew : ∀ e ∈ t'.seen, e.Roomy d.name)
    (hp : Trial.Logged t t₀) (sp : Settles d .processor now d.processor t₀ d'.processor t₁)
    (hu : Trial.Logged t₁ u₀) (su : Settles d .unlocker now d.unlocker u₀ d'.unlocker u₁)
    (hc : Trial.Logged u₁ c₀) (sc : Settles d .cleaner now d.cleaner c₀ d'.cleaner t') :
    ∃ es, Visited d now last deeds t d' t' es := by
  have lp : Trial.Did d.name [] t t₀ := hp.did
  have lu : Trial.Did d.name [] t₁ u₀ := hu.did
  have lc : Trial.Did d.name [] u₁ c₀ := hc.did
  have hseen₁ : t₁.seen ⊆ t'.seen := fun e he => sc.seen (lc.seen (su.seen (lu.seen he)))
  have hseen₂ : u₁.seen ⊆ t'.seen := fun e he => sc.seen (lc.seen he)
  obtain ⟨its, cur, ap⟩ := ha .processor
  obtain ⟨ep, wp⟩ := sp.worked ap hd hlast (by rwa [lp.now]) (hold _) fun e he => hnew e (hseen₁ he)
  obtain ⟨its, cur, au⟩ := ha .unlocker
  obtain ⟨eu, wu⟩ := su.worked au hd hlast (by rwa [lu.now, wp.did.now, lp.now]) (hold _)
    fun e he => hnew e (hseen₂ he)
  obtain ⟨its, cur, ac⟩ := ha .cleaner
  obtain ⟨ec, wc⟩ := sc.worked ac hd hlast (by rwa [lc.now, wu.did.now, lu.now, wp.did.now, lp.now]) (hold _)
    hnew
  have hall : Trial.Did d.name (ep ++ (eu ++ ec)) t t' :=
    ((lp.trans wp.did).trans_nil lu).trans ((wu.did.trans_nil lc).trans wc.did)
  refine ⟨fun | .processor => ep | .unlocker => eu | .cleaner => ec, ⟨hall.seen, ?_, ?_, ?_, ?_, ?_, ?_⟩⟩
  · intro task
    rw [hall.deeds]
    cases task <;> simp [Event.filter_own wp.own, Event.filter_own wu.own, Event.filter_own wc.own]
  · intro task
    cases task with
    | processor => exact wp.account
    | unlocker => exact wu.account
    | cleaner => exact wc.account
  · intro hend task
    cases task with
    | processor => exact wp.rests (hend .processor)
    | unlocker => exact wu.rests (hend .unlocker)
    | cleaner => exact wc.rests (hend .cleaner)
  · -- Only a delivery can be in flight, so the sweeps leave the locks as free as they find them.
    intro hf
    obtain ⟨_, _, au'⟩ := wu.account
    obtain ⟨_, _, ac'⟩ := wc.account
    refine (wp.freed (hf.imp (fun h => ⟨rfl, h⟩) hp.freed)).imp_right fun h => ?_
    have h := (wu.freed (Or.inr (hu.freed h))).resolve_left (by simp [au'.isInFlight_of_ne])
    exact (wc.freed (Or.inr (hc.freed h))).resolve_left (by simp [ac'.isInFlight_of_ne])
  · exact wp.landed
  · exact fun hv => (wp.fewer hv).2

section Visited

variable {d : Dispatcher} {now last : Nat} {deeds : Task → List Stamped} {t : Trial}

theorem visited_settleLoops
    (ha : ∀ task, ∃ its cur, Account d.identity task last its cur (d.loop task) (deeds task))
    (hd : d.signal.dropped = false) (hlast : d.signal.value = false → now ≤ last) (hclock : t.now.isSome)
    (hold : ∀ task, ∀ x ∈ deeds task, x.2.Roomy d.name)
    (hnew : ∀ e ∈ (d.settleLoops now t).2.seen, e.Roomy d.name) :
    ∃ es, Visited d now last deeds t (d.settleLoops now t).1 (d.settleLoops now t).2 es :=
  visited ha hd hlast hclock hold hnew (.refl _) (settles ..) (.refl _) (settles ..) (.refl _) (settles ..)

theorem visited_startLoops
    (ha : ∀ task, ∃ its cur, Account d.identity task last its cur (d.loop task) (deeds task))
    (hd : d.signal.dropped = false) (hlast : d.signal.value = false → now ≤ last) (hclock : t.now.isSome)
    (hold : ∀ task, ∀ x ∈ deeds task, x.2.Roomy d.name)
    (hnew : ∀ e ∈ (d.startLoops now t).2.seen, e.Roomy d.name) :
    ∃ es, Visited d now last deeds t (d.startLoops now t).1 (d.startLoops now t).2 es :=
  visited ha hd hlast hclock hold hnew (.log ..) (settles ..) (.log ..) (settles ..) (.log ..) (settles ..)

end Visited

/-! ## One dispatcher in a simulation -/

/-- Whoever waits for a dispatcher waits until its loops have ended. -/
structure Running.Awaited (waits : Bool) (r : Running) : Prop where
  spawned : waits = false → r.mode = .spawned
  running : waits = true → r.dispatcher.isEnded = false → ∃ told, r.mode = .running told
  stopped : waits = true → r.dispatcher.isEnded = true → r.mode = .stopped

theorem Running.Awaited.stopped_iff {waits : Bool} {r : Running} (h : r.Awaited waits) (hw : waits = true) :
    r.mode = .stopped ↔ r.dispatcher.isEnded = true := by
  refine ⟨fun hm => ?_, h.stopped hw⟩
  by_contra he
  obtain ⟨told, hr⟩ := h.running hw (Bool.eq_false_iff.2 he)
  cases hm.symm.trans hr

theorem Running.Awaited.mode_eq {waits : Bool} {r : Running} (h : r.Awaited waits)
    (hend : r.dispatcher.isEnded = true) : r.mode = if waits then .stopped else .spawned := by
  cases hw : waits with
  | false => exact h.spawned hw
  | true => exact h.stopped hw hend

theorem Running.Awaited.ne_spawned {waits : Bool} {r : Running} (h : r.Awaited waits) (hw : waits = true) :
    r.mode ≠ .spawned := by
  intro hm
  cases he : r.dispatcher.isEnded with
  | true => cases hm.symm.trans (h.stopped hw he)
  | false =>
      obtain ⟨told, hr⟩ := h.running hw he
      cases hm.symm.trans hr

namespace Simulation

/-- What the owner of that name has done in a task, the earliest first. -/
def deeds (name : String) (task : Task) (s : Simulation) : List Stamped :=
  (s.seen.filter (·.2.task? name = some task)).reverse

/-- Nothing that the owner of that name has fetched has a full attempt counter. -/
def Roomy (name : String) (s : Simulation) : Prop := ∀ x ∈ s.seen, x.2.Roomy name

/-- There is no lock of this machine, unless it failed to release its locks. -/
def Freed (i : Identity) (s : Simulation) : Prop :=
  (∃ x ∈ s.seen, x.2.isFailedRelease i.name = true) ∨ s.store.Without i.machine

/-- Nothing has broken off a loop: neither a full counter, nor the end of the calendar. -/
structure Sound (i : Identity) (s : Simulation) : Prop where
  roomy : s.Roomy i.name
  timed : (i.clock <|> s.now).isSome

variable {i : Identity} {waits stop : Bool} {last : Nat} {s s' : Simulation} {r r' : Running}

theorem roomy_of_all {name : String}
    (h : s.seen.all (fun x => (x.2.fetched name).all fun r => decide (r.attempts < Record.maxAttempts)) = true) :
    s.Roomy name :=
  fun x hx r hr => of_decide_eq_true (List.all_eq_true.1 (List.all_eq_true.1 h x hx) r hr)

theorem mem_seen_of_mem_deeds {name : String} {task : Task} {x : Stamped} (h : x ∈ s.deeds name task) :
    x ∈ s.seen := (List.mem_filter.1 (List.mem_reverse.1 h)).1

theorem deeds_of_seen {name : String} {task : Task} {u : Trial} (h : s'.seen = s.stamp u ++ s.seen) :
    s'.deeds name task = s.deeds name task ++ stampedAt s.time (u.deeds name task) := by
  rw [deeds, h, List.filter_append, List.reverse_append, stamp, List.filter_map, stampedAt, Trial.deeds,
    List.map_reverse]
  rfl

/-- The dispatcher is the only one, and there is an account of what it has done. -/
structure Serves (i : Identity) (waits stop : Bool) (last : Nat) (s : Simulation) (r : Running) : Prop where
  running : s.running = [r]
  named : r.named = true
  identity : r.dispatcher.identity = i
  signal : r.dispatcher.signal = ⟨stop, false⟩
  awaited : r.Awaited waits
  goesOn : ∀ task, r.dispatcher.loop task = .ended → stop = true
  past : ∀ x ∈ s.seen, x.1 ≤ s.time
  account : ∀ task, ∃ its cur, Account i task last its cur (r.dispatcher.loop task) (s.deeds i.name task)
  freed : r.dispatcher.processor.isInFlight = true ∨ s.Freed i

/-- There is nothing to do at the time that it is. -/
structure Rested (i : Identity) (waits stop : Bool) (last : Nat) (s : Simulation) (r : Running) : Prop extends
    Serves i waits stop last s r where
  rests : ∀ task, (r.dispatcher.loop task).Rests stop s.time

theorem Freed.mono {u : Trial} (h : u.Freed i.name i.machine) (hs : s'.store = u.store)
    (hseen : s'.seen = s.stamp u ++ s.seen) : s'.Freed i := by
  refine h.imp (fun ⟨e, he, hf⟩ => ⟨(s.time, e), ?_, hf⟩) fun h => hs ▸ h
  rw [hseen]
  exact List.mem_append_left _ (List.mem_map_of_mem he)

theorem attend_spec (r : Running) (t : Trial) :
    (attend r t).1.dispatcher = r.dispatcher ∧ (attend r t).1.named = r.named ∧
      Trial.Logged t (attend r t).2 := by
  unfold attend
  split
  · dsimp only
    split
    · exact ⟨rfl, rfl, .log t _⟩
    · exact ⟨rfl, rfl, .refl t⟩
  · exact ⟨rfl, rfl, .refl t⟩

/-- Whoever waits notices at once that the loops have ended. -/
theorem awaited_attend {d : Dispatcher} {mode : Mode} {named : Bool} (t : Trial)
    (hspawned : waits = false → mode = .spawned) (hwaits : waits = true → ∃ told, mode = .running told)
    (hstop : d.isEnded = true → d.signal.value = true) :
    (attend ⟨d, mode, named⟩ t).1.Awaited waits := by
  cases waits with
  | false =>
      obtain rfl := hspawned rfl
      exact ⟨fun _ => rfl, (nomatch ·), (nomatch ·)⟩
  | true =>
      obtain ⟨told, rfl⟩ := hwaits rfl
      unfold attend
      dsimp only
      split
      · rename_i h
        have hend : d.isEnded = true := (Bool.and_eq_true_iff.1 h).2
        exact ⟨(nomatch ·), fun _ h => absurd (hend.symm.trans h) (nomatch ·), fun _ _ => rfl⟩
      · rename_i h
        refine ⟨(nomatch ·), fun _ _ => ⟨_, rfl⟩, fun _ hend => absurd ?_ h⟩
        have hend : d.isEnded = true := hend
        simp [hend, hstop hend]

/-- When the loops of the only dispatcher have been visited. -/
def afterVisit (s : Simulation) (r : Running) (t : Trial) : Simulation :=
  { s with
    running := [(attend r t).1]
    store := (attend r t).2.store
    seen := s.stamp (attend r t).2 ++ s.seen }

theorem settle_eq_afterVisit (h : s.running = [r]) :
    s.settle = s.afterVisit
      { r with dispatcher := (r.dispatcher.settleLoops s.time (r.dispatcher.trial s.store s.now)).1 }
      (r.dispatcher.settleLoops s.time (r.dispatcher.trial s.store s.now)).2 := by
  simp [settle, h, settleAll, settleOne, afterVisit]

theorem modify_eq {name : String} (hr : s.running = [r]) (hn : r.answersTo name = true)
    (f : Running → Running) :
    s.modify name f = { s with running := [f r] } := by
  unfold modify
  simp [hr, hn]

/-- The last that was done of a delivery was done just now. -/
def Landed (i : Identity) (s : Simulation) : Prop :=
  ∃ x ∈ (s.deeds i.name .processor).getLast?, x.1 = s.time

/-- How the processor's loop has got on in the visit after which the simulation is `s'`. -/
structure GotOn (i : Identity) (stop : Bool) (l l' : Loop Flight) (s' : Simulation) : Prop where
  landed : l.isInFlight = true → l'.isInFlight = false → s'.Landed i
  fewer : stop = true → ∀ {ticker p o wake}, l = .inFlight ticker ⟨p, o⟩ wake → wake ≤ s'.time →
    l'.pending < l.pending

section Visits

variable {d d' : Dispatcher} {mode : Mode} {t t' : Trial} {es : Task → List Event}

theorem deeds_afterVisit (hv : Visited d s.time last (fun task => s.deeds d.name task) t d' t' es)
    (hdeeds : ∀ task, t.deeds d.name task = []) (task : Task) :
    (s.afterVisit ⟨d', mode, true⟩ t').deeds d.identity.name task =
      s.deeds d.name task ++ stampedAt s.time (es task) := by
  obtain ⟨-, -, hlog⟩ := attend_spec ⟨d', mode, true⟩ t'
  have hdid : Trial.Did d.name [] t' (attend ⟨d', mode, true⟩ t').2 := hlog.did
  have hnew : (attend ⟨d', mode, true⟩ t').2.deeds d.name task = es task := by
    rw [hdid.deeds, hv.deeds_eq, hdeeds, List.filter_nil, List.append_nil, List.nil_append]
  exact hnew ▸ deeds_of_seen rfl

theorem freed_afterVisit (hv : Visited d s.time last (fun task => s.deeds d.name task) t d' t' es)
    (hstore : t.store = s.store) (h : d.processor.Moves d.signal.value s.time ∨ s.Freed d.identity) :
    d'.processor.isInFlight = true ∨ (s.afterVisit ⟨d', mode, true⟩ t').Freed d.identity := by
  obtain ⟨-, -, hlog⟩ := attend_spec ⟨d', mode, true⟩ t'
  have hfreed : d.processor.Moves d.signal.value s.time ∨ t.Freed d.name d.machine →
      d'.processor.isInFlight = true ∨ (s.afterVisit ⟨d', mode, true⟩ t').Freed d.identity :=
    fun h => (hv.freed h).imp_right fun h => Freed.mono (hlog.freed h) rfl rfl
  rcases h with h | ⟨x, hx, hf⟩ | h
  · exact hfreed (Or.inl h)
  · exact Or.inr (Or.inl ⟨x, List.mem_append_right _ hx, hf⟩)
  · exact hfreed (Or.inr (Or.inr (hstore ▸ h)))

theorem landed_afterVisit (hv : Visited d s.time last (fun task => s.deeds d.name task) t d' t' es)
    (hdeeds : ∀ task, t.deeds d.name task = []) (hl : d.processor.isInFlight = true)
    (hl' : d'.processor.isInFlight = false) : (s.afterVisit ⟨d', mode, true⟩ t').Landed d.identity := by
  unfold Landed
  rw [deeds_afterVisit hv hdeeds]
  obtain hnil | ⟨before, e, he⟩ := (es .processor).eq_nil_or_concat
  · exact absurd hnil (hv.landed hl hl')
  · refine ⟨(s.time, e), ?_, rfl⟩
    simp [he, stampedAt]

theorem rested_of_visited (hv : Visited d s.time last (fun task => s.deeds d.name task) t d' t' es)
    (hstore : t.store = s.store) (hdeeds : ∀ task, t.deeds d.name task = []) (hi : d.identity = i)
    (hi' : d'.identity = i) (hsignal : d.signal = ⟨stop, false⟩) (hsignal' : d'.signal = ⟨stop, false⟩)
    (hspawned : waits = false → mode = .spawned) (hwaits : waits = true → ∃ told, mode = .running told)
    (hgoes : ∀ task, d.loop task = .ended → stop = true)
    (hfreed : d.processor.Moves stop s.time ∨ s.Freed i) (hpast : ∀ x ∈ s.seen, x.1 ≤ s.time) :
    ∃ r', Rested i waits stop last (s.afterVisit ⟨d', mode, true⟩ t') r' ∧
      GotOn i stop d.processor r'.dispatcher.processor (s.afterVisit ⟨d', mode, true⟩ t') := by
  subst hi
  obtain rfl : d.signal.value = stop := congrArg StopSignal.value hsignal
  obtain ⟨hdispatcher, hnamed, -⟩ := attend_spec ⟨d', mode, true⟩ t'
  have hrests := hv.rests hgoes
  have hstop : ∀ task, d'.loop task = .ended → d.signal.value = true := by
    intro task he
    have h := hrests task
    rwa [he] at h
  have hawaited : (attend ⟨d', mode, true⟩ t').1.Awaited waits := by
    refine awaited_attend t' hspawned hwaits fun he => ?_
    rw [hsignal']
    exact hstop .processor (Dispatcher.isEnded_iff.1 he .processor)
  have hserves : Serves d.identity waits d.signal.value last (s.afterVisit ⟨d', mode, true⟩ t')
      (attend ⟨d', mode, true⟩ t').1 := by
    refine ⟨rfl, hnamed, ?_, ?_, hawaited, ?_, ?_, fun task => ?_, ?_⟩
    all_goals try rw [hdispatcher]
    · exact hi'
    · exact hsignal'
    · exact hstop
    · exact List.forall_mem_append.2 ⟨List.forall_mem_map.2 fun e _ => Nat.le_refl _, hpast⟩
    · rw [deeds_afterVisit hv hdeeds]
      exact hv.account task
    · exact freed_afterVisit hv hstore hfreed
  refine ⟨_, ⟨hserves, by rw [hdispatcher]; exact hrests⟩, fun hl hl' => ?_, ?_⟩
  · rw [hdispatcher] at hl'
    exact landed_afterVisit hv hdeeds hl hl'
  · rw [hdispatcher]
    exact hv.fewer

end Visits

theorem roomy_of_afterVisit {t : Trial} (h : (s.afterVisit r t).Roomy i.name) :
    (∀ task, ∀ x ∈ s.deeds i.name task, x.2.Roomy i.name) ∧ ∀ e ∈ t.seen, e.Roomy i.name := by
  obtain ⟨-, -, hlog⟩ := attend_spec r t
  have hdid : Trial.Did i.name [] t (attend r t).2 := hlog.did
  refine ⟨fun task x hx => h x (List.mem_append_right _ (mem_seen_of_mem_deeds hx)), fun e he => ?_⟩
  exact h (s.time, e) (List.mem_append_left _ (List.mem_map_of_mem (hdid.seen he)))

/-- As long as a loop has not ended, a visit leaves nothing to do at the time that it is. -/
theorem Serves.settle (h : Serves i waits stop last s r) (hlive : r.dispatcher.isEnded = false)
    (hlast : stop = false → s.time ≤ last) (hsound : s.settle.Sound i) :
    ∃ r', Rested i waits stop last s.settle r' ∧
      GotOn i stop r.dispatcher.processor r'.dispatcher.processor s.settle := by
  obtain ⟨d, mode, named⟩ := r
  obtain rfl : named = true := h.named
  obtain rfl : d.identity = i := h.identity
  have hsignal : d.signal = ⟨stop, false⟩ := h.signal
  rw [settle_eq_afterVisit h.running] at hsound ⊢
  obtain ⟨hold, hnew⟩ := roomy_of_afterVisit hsound.roomy
  have hclock : (d.trial s.store s.now).now.isSome := hsound.timed
  obtain ⟨es, hv⟩ := visited_settleLoops h.account (by rw [hsignal]) (by rwa [hsignal]) hclock hold hnew
  exact rested_of_visited hv rfl (fun _ => rfl) rfl rfl hsignal hsignal h.awaited.spawned
    (fun hw => h.awaited.running hw hlive) h.goesOn (h.freed.imp_left Loop.moves_of_isInFlight) h.past

end Simulation

end Outbox

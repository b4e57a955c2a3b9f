import Outbox.Proofs.Dispatcher.Modes

/-!
# The schedule of a task

The iterations of each task of a dispatcher begin by the schedule of a periodic job, whatever comes of them and
however long they take.
-/

namespace Outbox

/-! ## Iterations on a schedule -/

namespace Iteration

/-- When the first of its deeds was done. -/
def onset (it : List Stamped) : Nat := (it.head?.map Prod.fst).getD 0

/-- How long it was from the first of its deeds to the last. -/
def duration (it : List Stamped) : Nat := (it.getLast?.map Prod.fst).getD 0 - onset it

/-- When an iteration that has come to `cur` has begun. -/
abbrev began? (cur : List Stamped) : Option Nat := cur.head?.map Prod.fst

/-- What is added to an iteration does not change when it began. -/
theorem onset_append (cur : List Stamped) (now : Nat) {es : List Event} (h : es ≠ []) :
    onset (cur ++ stampedAt now es) = (began? cur).getD now := by
  obtain ⟨e, es, rfl⟩ := List.exists_cons_of_ne_nil h
  cases cur <;> simp [onset, began?, stampedAt]

theorem duration_append (cur : List Stamped) (now : Nat) {es : List Event} (h : es ≠ []) :
    duration (cur ++ stampedAt now es) = now - (began? cur).getD now := by
  rw [← onset_append cur now h]
  obtain hnil | ⟨before, e, rfl⟩ := es.eq_nil_or_concat
  · exact absurd hnil h
  · simp [duration, stampedAt]

end Iteration

open Iteration

/-- The account of a task whose iterations begin by this schedule. -/
structure Account.Paced (i : Identity) (task : Task) (c : Cadence) (now : Nat) (its : List (List Stamped))
    (cur : List Stamped) (l : Loop Flight) (deeds : List Stamped) : Prop extends
    Account i task now its cur l deeds where
  kept : c.Kept now (its.map duration) (its.map onset) (began? cur) l

namespace Account.Paced

variable {i : Identity} {task : Task} {c : Cadence} {now : Nat} {its : List (List Stamped)}
  {cur deeds : List Stamped} {l : Loop Flight} {es : List Event} {ticker : Ticker}

/-- An iteration is under way. -/
abbrev Busy (c : Cadence) (now : Nat) (its : List (List Stamped)) (cur : List Stamped) (ticker : Ticker) :
    Prop :=
  (c.passed (its.map duration)).Busy now (began? cur) ticker

theorem start (i : Identity) (task : Task) (ticker : Ticker) :
    Paced i task (.start ticker) ticker.due [] [] (.waiting ticker) [] where
  toAccount := .start ..
  kept := .start ticker

theorem mono {now' : Nat} (h : Paced i task c now its cur l deeds) (hle : now ≤ now')
    (hw : ∀ w ∈ l.wake?, now' ≤ w) : Paced i task c now' its cur l deeds where
  deeds_eq := h.deeds_eq
  whole := h.whole
  underWay := h.underWay
  began it hit x hx := Nat.le_trans (h.began it hit x hx) hle
  kept := h.kept.mono hle hw

theorem fly {p : Pass} {o : Outcome} {wake : Nat} (h : Paced i task c now its cur l deeds)
    (hbusy : Busy c now its cur ticker) (delivers : task = .processor)
    (flying : Pass.Flying i.settings i.name ((cur ++ stampedAt now es).map Prod.snd) p) :
    Paced i task c now its (cur ++ stampedAt now es) (.inFlight ticker ⟨p, o⟩ wake)
      (deeds ++ stampedAt now es) where
  toAccount := h.toAccount.fly (fun _ => Nat.le_refl now) ⟨delivers, flying⟩
  kept := by
    have hany : cur ++ stampedAt now es ≠ [] := by
      obtain ⟨before, m, resume, he, -, -⟩ := flying
      intro hnil
      rw [hnil] at he
      exact absurd he.symm (List.append_ne_nil_of_right_ne_nil _ (List.cons_ne_nil _ _))
    have hbegan : began? (cur ++ stampedAt now es) = some ((began? cur).getD now) := by
      cases cur with
      | cons x cur => rfl
      | nil =>
          obtain ⟨e, es, rfl⟩ := List.exists_cons_of_ne_nil fun h => hany (congrArg (stampedAt now) h)
          rfl
    rw [hbegan]
    exact h.kept.fly hbusy

theorem land (h : Paced i task c now its cur l deeds) (hbusy : Busy c now its cur ticker)
    (whole : i.Whole task (cur ++ stampedAt now es)) (any : es ≠ []) :
    Paced i task c now (its ++ [cur ++ stampedAt now es]) [] (.waiting ticker) (deeds ++ stampedAt now es) where
  toAccount := h.toAccount.land (fun _ => Nat.le_refl now) whole rfl
  kept := by
    rw [List.map_append, List.map_append, List.map_singleton, List.map_singleton, duration_append cur now any,
      onset_append cur now any]
    exact h.kept.land hbusy

end Account.Paced

/-- A loop that nobody stops gets on by its schedule. -/
structure OnPace (d : Dispatcher) (task : Task) (c : Cadence) (now : Nat) (deeds : List Stamped) (t : Trial)
    (l' : Loop Flight) (t' : Trial) (es : List Event) : Prop where
  did : Trial.Did d.name es t t'
  own : ∀ e ∈ es, e.task? d.name = some task
  paced : ∃ its cur, Account.Paced d.identity task c now its cur l' (deeds ++ stampedAt now es)

namespace OnPace

variable {d : Dispatcher} {task : Task} {c : Cadence} {now : Nat} {its : List (List Stamped)}
  {cur deeds : List Stamped} {l l' : Loop Flight} {t t₁ t' : Trial} {es : List Event} {ticker : Ticker}
  {ending : Except OutboxError Unit}

theorem nothing (did : Trial.Did d.name [] t t')
    (h : Account.Paced d.identity task c now its cur l' deeds) : OnPace d task c now deeds t l' t' [] where
  did := did
  own _ he := nomatch he
  paced := ⟨its, cur, (List.append_nil deeds).symm ▸ h⟩

/-- An iteration that comes to its end, and what follows it. -/
theorem ends (h : Account.Paced d.identity task c now its cur l deeds)
    (hbusy : Account.Paced.Busy c now its cur ticker) (did : Trial.Did d.name es t t₁)
    (own : ∀ e ∈ es, e.task? d.name = some task) (whole : d.identity.Whole task (cur ++ stampedAt now es))
    (any : es ≠ []) (hclock : t.now.isSome) (hold : ∀ x ∈ deeds, x.2.Roomy d.name)
    (hnew : ∀ e ∈ t₁.seen, e.Roomy d.name)
    (next : ∀ {its cur deeds}, Account.Paced d.identity task c now its cur (.waiting ticker) deeds →
      (Dispatcher.report task t₁ ending).now.isSome → (∀ x ∈ deeds, x.2.Roomy d.name) →
      ∃ es', OnPace d task c now deeds (Dispatcher.report task t₁ ending) l' t' es') :
    ∃ es, OnPace d task c now deeds t l' t' es := by
  have hreport : Trial.Did d.name [] t₁ (Dispatcher.report task t₁ ending) := Dispatcher.did_report ..
  have hroom : ∀ x ∈ deeds ++ stampedAt now es, x.2.Roomy d.name := by
    refine List.forall_mem_append.2 ⟨hold, List.forall_mem_map.2 fun e he => ?_⟩
    exact hnew e (did.mem_seen he (own e he))
  obtain ⟨es', hk⟩ := next (h.land hbusy whole any) (by rwa [hreport.now, did.now]) hroom
  refine ⟨es ++ es', (did.trans_nil hreport).trans hk.did, List.forall_mem_append.2 ⟨own, hk.own⟩, ?_⟩
  rw [stampedAt_append, ← List.append_assoc]
  exact hk.paced

end OnPace

theorem Settles.onPace {d : Dispatcher} {task : Task} {c : Cadence} {now : Nat} {l l' : Loop Flight} {t t' : Trial}
    (h : Settles d task now l t l' t') {its : List (List Stamped)} {cur deeds : List Stamped}
    (ha : Account.Paced d.identity task c now its cur l deeds) (hsignal : d.signal = ⟨false, false⟩)
    (hclock : t.now.isSome) (hold : ∀ x ∈ deeds, x.2.Roomy d.name) (hnew : ∀ e ∈ t'.seen, e.Roomy d.name) :
    ∃ es, OnPace d task c now deeds t l' t' es := by
  -- As in the account: each iteration that ends is added to it, and the loop goes on from there.
  have hd : d.signal.dropped = false := by rw [hsignal]
  induction h generalizing its cur deeds with
  | ended => exact ⟨[], .nothing (.refl _) ha⟩
  | stopped hc =>
      have hv := Loop.value_of_stop hd hc
      rw [hsignal] at hv
      cases hv
  | @waits ticker t hc => exact ⟨[], .nothing (.refl t) ha⟩
  | @begins ticker t p o t' hc hi =>
      obtain rfl : cur = [] := ha.underWay
      have hbusy := ha.kept.fits.busy (Loop.due_of_iterate hc)
      have hgoes : d.Goes task now [] t (d.iterate task t) := Dispatcher.iterate_goes hclock (by rwa [hi])
      rw [hi] at hgoes
      cases hgoes with
      | awaits did own delivers flying _ =>
          exact ⟨_, did, own, its, _, ha.fly hbusy delivers flying⟩
  | @breaksOff ticker t t' hc hi =>
      have hgoes : d.Goes task now [] t (d.iterate task t) := Dispatcher.iterate_goes hclock (by rwa [hi])
      rw [hi] at hgoes
      cases hgoes
  | @iterates ticker t ending t' l u hc hi hs ih =>
      obtain rfl : cur = [] := ha.underWay
      have hbusy := ha.kept.fits.busy (Loop.due_of_iterate hc)
      have hseen := List.Subset.trans (Dispatcher.did_report (d := d) task t' ending).seen hs.seen
      have hgoes : d.Goes task now [] t (d.iterate task t) :=
        Dispatcher.iterate_goes hclock fun e he => hnew e (hseen (by rwa [hi] at he))
      rw [hi] at hgoes
      cases hgoes with
      | ends did own whole any _ =>
          exact OnPace.ends ha hbusy did own whole any hclock hold (fun e he => hnew e (hseen he))
            fun ha' hc' hold' => ih ha' hc' hold' hnew
  | @flies ticker p o wake t hw => exact ⟨[], .nothing (.refl t) ha⟩
  | @goesOn ticker p o wake t p' o' t' hw hr =>
      have hcame := ha.came hclock hold (by rwa [hr])
      rw [hr] at hcame
      obtain ⟨rfl, -⟩ := ha.underWay
      have hgoes : d.Goes .processor now cur t (.awaits ⟨p', o'⟩, t') := hcame.goes
      cases hgoes with
      | awaits did own delivers flying _ =>
          exact ⟨_, did, own, its, _, ha.fly ha.kept.fits.1 delivers flying⟩
  | @crashes ticker p o wake t t' hw hr =>
      have hcame := ha.came hclock hold (by rwa [hr])
      rw [hr] at hcame
      cases hcame
  | @lands ticker p o wake t ending t' l u hw hr hs ih =>
      obtain ⟨rfl, -⟩ := ha.underWay
      have hseen := List.Subset.trans (Dispatcher.did_report (d := d) .processor t' ending).seen hs.seen
      have hcame := ha.came hclock hold fun e he => hnew e (hseen (by rwa [hr] at he))
      rw [hr] at hcame
      have hgoes : d.Goes .processor now cur t (.over (some ending), t') := hcame.goes
      cases hgoes with
      | ends did own whole any _ =>
          exact OnPace.ends ha ha.kept.fits.1 did own whole any hclock hold (fun e he => hnew e (hseen he))
            fun ha' hc' hold' => ih ha' hc' hold' hnew

/-- The loops are visited in turn, with log entries in between. -/
theorem onPace_of_settles {d d' : Dispatcher} {now : Nat} {deeds : Task → List Stamped} {c : Task → Cadence}
    {t t₀ t₁ u₀ u₁ c₀ t' : Trial}
    (ha : ∀ task, ∃ its cur, Account.Paced d.identity task (c task) now its cur (d.loop task) (deeds task))
    (hsignal : d.signal = ⟨false, false⟩) (hclock : t.now.isSome)
    (hold : ∀ task, ∀ x ∈ deeds task, x.2.Roomy d.name) (hnew : ∀ e ∈ t'.seen, e.Roomy d.name)
    (hp : Trial.Logged t t₀) (sp : Settles d .processor now d.processor t₀ d'.processor t₁)
    (hu : Trial.Logged t₁ u₀) (su : Settles d .unlocker now d.unlocker u₀ d'.unlocker u₁)
    (hc : Trial.Logged u₁ c₀) (sc : Settles d .cleaner now d.cleaner c₀ d'.cleaner t') (task : Task) :
    ∃ es, t'.deeds d.name task = t.deeds d.name task ++ es ∧
      ∃ its cur, Account.Paced d.identity task (c task) now its cur (d'.loop task)
        (deeds task ++ stampedAt now es) := by
  have lp : Trial.Did d.name [] t t₀ := hp.did
  have lu : Trial.Did d.name [] t₁ u₀ := hu.did
  have lc : Trial.Did d.name [] u₁ c₀ := hc.did
  have hseen₁ : t₁.seen ⊆ t'.seen := fun e he => sc.seen (lc.seen (su.seen (lu.seen he)))
  have hseen₂ : u₁.seen ⊆ t'.seen := fun e he => sc.seen (lc.seen he)
  obtain ⟨its, cur, ap⟩ := ha .processor
  obtain ⟨ep, kp⟩ := sp.onPace ap hsignal (by rwa [lp.now]) (hold _) fun e he => hnew e (hseen₁ he)
  obtain ⟨its, cur, au⟩ := ha .unlocker
  obtain ⟨eu, ku⟩ := su.onPace au hsignal (by rwa [lu.now, kp.did.now, lp.now]) (hold _)
    fun e he => hnew e (hseen₂ he)
  obtain ⟨its, cur, ac⟩ := ha .cleaner
  obtain ⟨ec, kc⟩ := sc.onPace ac hsignal (by rwa [lc.now, ku.did.now, lu.now, kp.did.now, lp.now]) (hold _) hnew
  have hall : Trial.Did d.name (ep ++ (eu ++ ec)) t t' :=
    ((lp.trans kp.did).trans_nil lu).trans ((ku.did.trans_nil lc).trans kc.did)
  rw [hall.deeds]
  cases task with
  | processor =>
      refine ⟨ep, ?_, kp.paced⟩
      simp [Event.filter_own kp.own, Event.filter_own ku.own, Event.filter_own kc.own]
  | unlocker =>
      refine ⟨eu, ?_, ku.paced⟩
      simp [Event.filter_own kp.own, Event.filter_own ku.own, Event.filter_own kc.own]
  | cleaner =>
      refine ⟨ec, ?_, kc.paced⟩
      simp [Event.filter_own kp.own, Event.filter_own ku.own, Event.filter_own kc.own]

section OnPace

variable {d : Dispatcher} {now : Nat} {deeds : Task → List Stamped} {c : Task → Cadence} {t : Trial}

theorem onPace_settleLoops
    (ha : ∀ task, ∃ its cur, Account.Paced d.identity task (c task) now its cur (d.loop task) (deeds task))
    (hsignal : d.signal = ⟨false, false⟩) (hclock : t.now.isSome)
    (hold : ∀ task, ∀ x ∈ deeds task, x.2.Roomy d.name)
    (hnew : ∀ e ∈ (d.settleLoops now t).2.seen, e.Roomy d.name) (task : Task) :
    ∃ es, (d.settleLoops now t).2.deeds d.name task = t.deeds d.name task ++ es ∧
      ∃ its cur, Account.Paced d.identity task (c task) now its cur ((d.settleLoops now t).1.loop task)
        (deeds task ++ stampedAt now es) :=
  onPace_of_settles ha hsignal hclock hold hnew (.refl _) (settles ..) (.refl _) (settles ..) (.refl _)
    (settles ..) task

theorem onPace_startLoops
    (ha : ∀ task, ∃ its cur, Account.Paced d.identity task (c task) now its cur (d.loop task) (deeds task))
    (hsignal : d.signal = ⟨false, false⟩) (hclock : t.now.isSome)
    (hold : ∀ task, ∀ x ∈ deeds task, x.2.Roomy d.name)
    (hnew : ∀ e ∈ (d.startLoops now t).2.seen, e.Roomy d.name) (task : Task) :
    ∃ es, (d.startLoops now t).2.deeds d.name task = t.deeds d.name task ++ es ∧
      ∃ its cur, Account.Paced d.identity task (c task) now its cur ((d.startLoops now t).1.loop task)
        (deeds task ++ stampedAt now es) :=
  onPace_of_settles ha hsignal hclock hold hnew (.log ..) (settles ..) (.log ..) (settles ..) (.log ..)
    (settles ..) task

end OnPace

/-! ## In a simulation -/

namespace Dispatcher

/-- What a dispatcher waits for comes no later than what any of its loops waits for. -/
theorem Poised.le_wake {d : Dispatcher} {now w : Nat} (h : d.Poised now) (hw : d.wake? now = some w)
    (task : Task) :
    ∀ v ∈ (d.loop task).wake?, w ≤ v := by
  intro v hv
  have hlt := lt_of_wake hw
  have hpoised : d.Poised (w - 1) := h.atTime fun u hu _ => by
    cases hw.symm.trans hu
    omega
  have hquiet := Loop.quiet_iff.1 (hpoised.quiet task) v hv
  omega

theorem Poised.le_of_lt_wake {d : Dispatcher} {now time : Nat} (h : d.Poised now)
    (hw : ∀ w ∈ d.wake? now, now < w → time < w) (task : Task) : ∀ v ∈ (d.loop task).wake?, time ≤ v :=
  fun v hv => Nat.le_of_lt (Loop.quiet_iff.1 ((h.atTime hw).quiet task) v hv)

end Dispatcher

namespace Simulation

variable {i : Identity} {tickers : Task → Ticker} {s : Simulation} {r : Running}

/-- The iterations of each task of the only dispatcher are on schedule. -/
structure Paces (i : Identity) (tickers : Task → Ticker) (s : Simulation) (r : Running) : Prop extends
    Keeps i ⟨false, false⟩ s r where
  paced : ∀ task, ∃ its cur, Account.Paced i task (.start (tickers task)) s.time its cur
    (r.dispatcher.loop task) (s.deeds i.name task)

theorem deeds_afterVisit_eq (name : String) (task : Task) (r : Running) (t : Trial) :
    (s.afterVisit r t).deeds name task = s.deeds name task ++ stampedAt s.time (t.deeds name task) := by
  obtain ⟨-, -, hlog⟩ := attend_spec r t
  have hdid : Trial.Did name [] t (attend r t).2 := hlog.did
  have hdeeds : (attend r t).2.deeds name task = t.deeds name task := by
    rw [hdid.deeds, List.filter_nil, List.append_nil]
  exact hdeeds ▸ deeds_of_seen rfl

theorem paced_settle (hr : s.running = [r]) (hi : r.dispatcher.identity = i)
    (hsignal : r.dispatcher.signal = ⟨false, false⟩)
    (hpaced : ∀ task, ∃ its cur, Account.Paced i task (.start (tickers task)) s.time its cur
      (r.dispatcher.loop task) (s.deeds i.name task)) (hsound : s.settle.Sound i) (task : Task) :
    ∃ its cur, Account.Paced i task (.start (tickers task)) s.time its cur ((s.visit r).dispatcher.loop task)
      (s.settle.deeds i.name task) := by
  subst hi
  rw [settle_eq_afterVisit hr] at hsound ⊢
  obtain ⟨hold, hnew⟩ := roomy_of_afterVisit hsound.roomy
  have hclock : (r.dispatcher.trial s.store s.now).now.isSome := hsound.timed
  obtain ⟨es, hes, hpaced'⟩ := onPace_settleLoops hpaced hsignal hclock hold hnew task
  rw [dispatcher_visit, deeds_afterVisit_eq]
  exact hes ▸ hpaced'

namespace Paces

theorem mono {time : Nat} (h : Paces i tickers s r) (hle : s.time ≤ time)
    (hw : ∀ task, ∀ v ∈ (r.dispatcher.loop task).wake?, time ≤ v) (task : Task) :
    ∃ its cur, Account.Paced i task (.start (tickers task)) time its cur (r.dispatcher.loop task)
      (s.deeds i.name task) := by
  obtain ⟨its, cur, hpaced⟩ := h.paced task
  exact ⟨its, cur, hpaced.mono hle (hw task)⟩

theorem atTime {time : Nat} (h : Paces i tickers s r) (hle : s.time ≤ time)
    (hw : ∀ w ∈ s.wake?, s.time < w → time < w) : Paces i tickers (s.atTime time) r :=
  ⟨h.toKeeps.atTime hw, h.mono hle (h.poised.le_of_lt_wake (wake?_eq h.running ▸ hw))⟩

theorem wakes {w : Nat} (h : Paces i tickers s r) (hw : s.wake? = some w) (hlt : s.time < w)
    (hsound : (s.atTime w).settle.Sound i) : Paces i tickers (s.atTime w).settle ((s.atTime w).visit r) := by
  have hwake : r.dispatcher.wake? s.time = some w := (wake?_eq h.running).symm.trans hw
  have hpaced := h.mono (Nat.le_of_lt hlt) (h.poised.le_wake hwake)
  exact ⟨h.toKeeps.wakes w, paced_settle (s := s.atTime w) h.running h.identity h.signal hpaced hsound⟩

/-- What is sound in the end was sound on the way. -/
theorem performAll {ks : List Step} (hks : ∀ k ∈ ks, k.IsOutside)
    (h : s.Sound i → ∃ r, Paces i tickers s r) (hsound : (s.performAll ks).Sound i) :
    ∃ r, Paces i tickers (s.performAll ks) r := by
  refine performAll_induction (P := fun s => s.Sound i → ∃ r, Paces i tickers s r)
    (fun {s w} hw hlt h hsound => ?_) (fun {s target} hle hw h hsound => ?_)
    (fun {s store} h hsound => ?_) hks h hsound
  · have hon : Onward s (s.atTime w).settle := (Onward.atTime (Nat.le_of_lt hlt)).trans (.settle _)
    obtain ⟨r, h⟩ := h (hsound.of_onward hon)
    exact ⟨_, h.wakes hw hlt hsound⟩
  · obtain ⟨r, h⟩ := h (hsound.of_onward (.atTime hle))
    exact ⟨r, h.atTime hle hw⟩
  · obtain ⟨r, h⟩ := h ⟨hsound.roomy, hsound.timed⟩
    exact ⟨r, ⟨h.running, h.identity, h.signal, h.poised⟩, h.paced⟩

end Paces

/-- What is so of the iterations of a task as long as nobody stops it: `its` are whole, `cur` is what is done of
one that is under way, and `next` is when that one has begun, or else when the next one will. -/
structure OnSchedule (i : Identity) (task : Task) (ticker : Ticker) (its : List (List Stamped))
    (cur : List Stamped) (next : Nat) (s : Simulation) : Prop where
  deeds : s.deeds i.name task = its.flatten ++ cur
  whole : ∀ it ∈ its, i.Whole task it
  current : cur = [] ∧ s.time < next ∨
    (∃ x ∈ cur.head?, x.1 = next) ∧ ∃ p, Pass.Flying i.settings i.name (cur.map Prod.snd) p
  /-- When they begin depends on nothing but the first tick and how long they take. -/
  begins : its.map onset ++ [next] = (Cadence.start ticker).begins (its.map duration)

theorem Paces.onSchedule (h : Paces i tickers s r) (task : Task) :
    ∃ its cur next, OnSchedule i task (tickers task) its cur next s := by
  obtain ⟨its, cur, hpaced⟩ := h.paced task
  refine ⟨its, cur, _, hpaced.deeds_eq, hpaced.whole, ?_, hpaced.kept.begins_eq.symm⟩
  have hquiet := h.poised.quiet task
  have hunderWay := hpaced.underWay
  have hfits := hpaced.kept.fits
  revert hquiet hunderWay hfits
  cases r.dispatcher.loop task with
  | waiting ticker =>
      rintro hquiet hnil ⟨-, rfl, -, -⟩
      exact Or.inl ⟨hnil, Nat.lt_of_lt_of_le hquiet (Nat.le_max_left ..)⟩
  | inFlight ticker f wake =>
      rintro - ⟨-, hflying⟩ ⟨-, hbegan⟩
      obtain ⟨x, hx, hnext⟩ := Option.map_eq_some_iff.1 hbegan
      exact Or.inr ⟨⟨x, hx, hnext⟩, f.pass, hflying⟩
  | ended =>
      rintro - rfl ⟨hbegan, -⟩
      cases hbegan

end Simulation

/-! ## From the start -/

theorem Config.interval_pos {c : Config} (h : c.validate = .ok ()) (task : Task) : 0 < c.interval task := by
  cases task with
  | processor => exact time_pos (e := ("process_interval_ms", c.processInterval)) h (by simp [times])
  | unlocker => exact time_pos (e := ("lock_checker_interval_ms", c.lockCheckerInterval)) h (by simp [times])
  | cleaner => exact time_pos (e := ("cleanup_worker_interval_ms", c.cleanupInterval)) h (by simp [times])

namespace Opening

open Simulation

variable {o : Opening}

/-- The first tick of a task. -/
def ticker (o : Opening) (hc : o.config.validate = .ok ()) (task : Task) : Ticker :=
  .start o.timer (o.config.interval task) o.time (Config.interval_pos hc task)

/-- The first iterations begin at the start. -/
theorem paced_start {d : Dispatcher} (hc : o.config.validate = .ok ()) (hi : d.identity = o.identity)
    (hsignal : d.signal = ⟨false, false⟩) (hloop : ∀ task, d.loop task = .waiting (o.ticker hc task))
    (hsound : (o.fresh.start d o.mode).Sound o.identity) (task : Task) :
    ∃ its cur, Account.Paced o.identity task (.start (o.ticker hc task)) o.time its cur
      ((d.startLoops o.time (o.trial d)).1.loop task) ((o.fresh.start d o.mode).deeds o.name task) := by
  obtain ⟨-, hnow, hdeeds⟩ := o.trial_spec d
  rw [start_eq] at hsound ⊢
  obtain ⟨hold, hnew⟩ := roomy_of_afterVisit hsound.roomy
  rw [← hi] at hsound hold hnew ⊢
  have hclock : (o.trial d).now.isSome := by
    rw [hnow]
    exact hsound.timed
  have hpaced : ∀ task, ∃ its cur, Account.Paced d.identity task (.start (o.ticker hc task)) o.time its cur
      (d.loop task) (o.fresh.deeds d.name task) := by
    intro task
    rw [hloop]
    exact ⟨[], [], .start d.identity task (o.ticker hc task)⟩
  obtain ⟨es, hes, hpaced'⟩ := onPace_startLoops hpaced hsignal hclock hold hnew task
  have hname : d.name = o.name := congrArg Identity.name hi
  rw [← hname, deeds_afterVisit_eq]
  rw [hdeeds] at hes
  exact hes ▸ hpaced'

theorem begun_eq_ticker (hc : o.config.validate = .ok ()) :
    ∃ d : Dispatcher, d.identity = o.identity ∧ d.signal = ⟨false, false⟩ ∧
      (∀ task, d.loop task = .waiting (o.ticker hc task)) ∧
      o.begun false = (o.fresh.start d o.mode).settle := by
  obtain ⟨d, hd, hi, hloop⟩ := dispatcher?_eq hc
  refine ⟨{ d with signal := { value := false } }, hi, rfl, fun task => ?_, begun_of_dispatcher? false hd⟩
  obtain ⟨hpos, hl⟩ := hloop task
  cases task with
  | processor | unlocker | cleaner => exact hl

theorem paces_begun (hc : o.config.validate = .ok ()) (hsound : (o.begun false).Sound o.identity) :
    ∃ r, Paces o.identity (o.ticker hc) (o.begun false) r := by
  obtain ⟨d, hi, hsignal, hloop, hbegun⟩ := begun_eq_ticker hc
  obtain ⟨r, hkeeps, -⟩ := keeps_begun hc false
  rw [hbegun] at hkeeps hsound ⊢
  have hstart := paced_start hc hi hsignal hloop (hsound.of_onward (.settle _))
  obtain ⟨r₀, hr₀, hdispatcher⟩ : ∃ r₀ : Running, (o.fresh.start d o.mode).running = [r₀] ∧
      r₀.dispatcher = (d.startLoops o.time (o.trial d)).1 := ⟨_, rfl, (attend_spec ..).1⟩
  rw [← hdispatcher] at hstart
  have hpaced := paced_settle hr₀ (by rw [hdispatcher]; exact hi) (by rw [hdispatcher]; exact hsignal) hstart
    hsound
  have hrunning := hkeeps.running
  rw [settle_eq_afterVisit hr₀] at hrunning
  cases hrunning
  exact ⟨_, hkeeps, hpaced⟩

/-- A task never bursts and never stalls: whatever comes of its iterations and however long they take, the
first begins at the start, none before the last has ended, none much less than a period after the last, and each
as soon as the last has ended and a period is over. It is so of any job whose loop nobody stops, also of sweeps on
a store that takes its time; any sequence of iterations can be had; and it is so of the iterations that are seen
of a dispatcher's tasks. -/
theorem keepsPace (o : Opening) (ks : List Simulation.Step) (hc : o.config.validate = .ok ())
    (htimer : ∀ task, o.timer.Documented (o.config.interval task)) (hks : ∀ k ∈ ks, k.IsOutside)
    (hsound : ((o.begun false).performAll ks).Sound o.identity) :
    (∀ (α σ : Type) (j : Job α σ) (ticker : Ticker) (world : σ) (is : List (Job.Interlude σ)),
        ticker.timer.Documented ticker.period →
          ∃ next, (Job.Stage.run j ticker world is).OnSchedule ticker next ∧
            Punctual ticker ((Job.Stage.run j ticker world is).history.turns.map Turn.duration)
              ((Job.Stage.run j ticker world is).history.turns.map Turn.began ++ [next])) ∧
      (∀ (plan : Job.Plan) (ticker : Ticker), (∀ now millis, ticker.timer.wake now millis = now + millis) →
        ∃ is, (Job.Stage.run .planned ticker plan is).history.turns.map Turn.summary = plan) ∧
        ∀ task, ∃ its cur next,
          OnSchedule o.identity task (o.ticker hc task) its cur next ((o.begun false).performAll ks) ∧
            Punctual (o.ticker hc task) (its.map duration) (its.map onset ++ [next]) := by
  refine ⟨fun _ _ => Job.run_onSchedule, Job.exists_run_planned, fun task => ?_⟩
  obtain ⟨r, h⟩ := Paces.performAll hks (paces_begun hc) hsound
  obtain ⟨its, cur, next, hschedule⟩ := h.onSchedule task
  exact ⟨its, cur, next, hschedule, hschedule.begins ▸ Cadence.punctual (htimer task) _⟩

theorem sound_slow : ((slow.begun false).performAll [.advance 4000]).Sound slow.identity where
  roomy := Simulation.roomy_of_all (by cbv)
  timed := by cbv

theorem documented_slow (task : Task) : slow.timer.Documented (slow.config.interval task) := by
  cases task <;> exact Timer.documented_limited (by decide)

/-- The longest period that can be set, without a limit to what is waited for. -/
def seldom : Ticker := .start .unlimited 18446744073709551615 0 (by decide)

/-- A sweep that takes long and fails, and one that takes no time. -/
def longSweeps : Job.Plan :=
  [(5000000, .error (.store "remove_records_before_datetime" (.reported "down"))), (0, .ok ())]

/-- Time passes until the first sweep has ended, until the second is due, and until it has ended. -/
def longWaits : List (Job.Interlude Job.Plan) :=
  [{ wait := 5000000 }, { wait := 18446744073709551615 }, { wait := 0 }]

/-- The first delivery takes longer than a period, and the second begins when it has ended; and sweeps that take
their time keep to the longest period. -/
theorem keepsPace_slow :
    ∃ hc : slow.config.validate = .ok (),
      (∀ task, slow.timer.Documented (slow.config.interval task)) ∧
        (∀ k ∈ [.advance 4000], Simulation.Step.IsOutside k) ∧
          ((slow.begun false).performAll [.advance 4000]).Sound slow.identity ∧
            (∃ its cur next, OnSchedule slow.identity .processor (slow.ticker hc .processor) its cur next
                ((slow.begun false).performAll [.advance 4000]) ∧
              Punctual (slow.ticker hc .processor) (its.map duration) (its.map onset ++ [next])) ∧
              (Job.Stage.run .planned seldom longSweeps longWaits).history.turns.map Turn.summary = longSweeps ∧
                ∃ next, (Job.Stage.run .planned seldom longSweeps longWaits).OnSchedule seldom next := by
  have hc : slow.config.validate = .ok () := rfl
  have hks : ∀ k ∈ [.advance 4000], Simulation.Step.IsOutside k := by
    simp [Simulation.Step.IsOutside]
  obtain ⟨hjobs, -, htasks⟩ := keepsPace slow _ hc documented_slow hks sound_slow
  obtain ⟨next, hsweeps, -⟩ := hjobs _ _ .planned seldom longSweeps longWaits (Timer.documented_unlimited _)
  exact ⟨hc, documented_slow, hks, sound_slow, htasks .processor, by cbv, next, hsweeps⟩

end Opening

end Outbox

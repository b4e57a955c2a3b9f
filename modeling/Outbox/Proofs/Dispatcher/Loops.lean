import Outbox.Proofs.Dispatcher.Course
import Outbox.Proofs.Periodic

/-!
# Loops

How the loop of a task gets on at one moment, and an account of all that it has done: iterations that are
whole, and the one that is under way.
-/

namespace Outbox

/-- How the loop of a task gets from one state to another at the time `now`. -/
inductive Settles (d : Dispatcher) (task : Task) (now : Nat) : Loop Flight → Trial → Loop Flight → Trial → Prop where
  | ended {t} : Settles d task now .ended t .ended t
  | stopped {ticker t} (hc : Loop.choose d.signal (d.lingers task now) ticker now = .stop) :
      Settles d task now (.waiting ticker) t .ended (t.log (.taskStopped task))
  | waits {ticker t} (hc : Loop.choose d.signal (d.lingers task now) ticker now = .wait) :
      Settles d task now (.waiting ticker) t (.waiting ticker) t
  | begins {ticker t p o t'} (hc : Loop.choose d.signal (d.lingers task now) ticker now = .iterate)
      (hi : d.iterate task t = (.awaits ⟨p, o⟩, t')) :
      Settles d task now (.waiting ticker) t
        (.inFlight (ticker.take now) ⟨p, o⟩ (ticker.timer.wake now o.delayMillis)) t'
  | breaksOff {ticker t t'} (hc : Loop.choose d.signal (d.lingers task now) ticker now = .iterate)
      (hi : d.iterate task t = (.over none, t')) : Settles d task now (.waiting ticker) t .ended t'
  | iterates {ticker t ending t' l u} (hc : Loop.choose d.signal (d.lingers task now) ticker now = .iterate)
      (hi : d.iterate task t = (.over (some ending), t'))
      (hs : Settles d task now (.waiting (ticker.take now)) (Dispatcher.report task t' ending) l u) :
      Settles d task now (.waiting ticker) t l u
  | flies {ticker p o wake t} (hw : ¬ wake ≤ now) :
      Settles d task now (.inFlight ticker ⟨p, o⟩ wake) t (.inFlight ticker ⟨p, o⟩ wake) t
  | goesOn {ticker p o wake t p' o' t'} (hw : wake ≤ now) (hr : d.resume p o t = (.awaits ⟨p', o'⟩, t')) :
      Settles d task now (.inFlight ticker ⟨p, o⟩ wake) t
        (.inFlight ticker ⟨p', o'⟩ (ticker.timer.wake now o'.delayMillis)) t'
  | crashes {ticker p o wake t t'} (hw : wake ≤ now) (hr : d.resume p o t = (.over none, t')) :
      Settles d task now (.inFlight ticker ⟨p, o⟩ wake) t .ended t'
  | lands {ticker p o wake t ending t' l u} (hw : wake ≤ now)
      (hr : d.resume p o t = (.over (some ending), t'))
      (hs : Settles d task now (.waiting ticker) (Dispatcher.report task t' ending) l u) :
      Settles d task now (.inFlight ticker ⟨p, o⟩ wake) t l u

namespace Dispatcher

variable (d : Dispatcher) (task : Task) (p : Pass) (o : Outcome) (t : Trial)

@[simp] theorem job_iterate : (d.job task).iterate t = d.iterate task t := rfl

@[simp] theorem job_resume : (d.job task).resume ⟨p, o⟩ t = d.resume p o t := rfl

end Dispatcher

theorem settles (d : Dispatcher) (task : Task) (now : Nat) (l : Loop Flight) (t : Trial) :
    Settles d task now l t (d.settleLoop task now l t).1 (d.settleLoop task now l t).2 := by
  unfold Dispatcher.settleLoop
  fun_induction Job.settle (d.job task) d.signal (d.lingers task now) now l t with
  | case1 t => exact .ended
  | case2 t ticker hc => exact .stopped hc
  | case3 t ticker hc => exact .waits hc
  | case4 t ticker hc _ _ f t' hi => exact .begins hc hi
  | case5 t ticker hc _ _ t' hi => exact .breaksOff hc hi
  | case6 t ticker hc _ _ ending t' hi ih => exact .iterates hc hi ih
  | case7 t ticker f wake hw f' t' hr => exact .goesOn hw hr
  | case8 t ticker f wake hw t' hr => exact .crashes hw hr
  | case9 t ticker f wake hw ending t' hr ih => exact .lands hw hr ih
  | case10 t ticker f wake hw => exact .flies hw

/-- A loop gets on in one way only. -/
theorem Settles.eq {d : Dispatcher} {task : Task} {now : Nat} {l l' : Loop Flight} {t t' : Trial}
    (h : Settles d task now l t l' t') : d.settleLoop task now l t = (l', t') := by
  unfold Dispatcher.settleLoop
  induction h with
  | @ended t => exact Job.settle_ended t
  | @stopped ticker t hc => exact Job.settle_of_stop hc t
  | @waits ticker t hc => exact Job.settle_of_wait hc t
  | @begins ticker t p o t' hc hi | @breaksOff ticker t t' hc hi =>
      rw [Job.settle_of_iterate hc, Dispatcher.job_iterate, hi]
      rfl
  | iterates hc hi _ ih =>
      rw [Job.settle_of_iterate hc, Dispatcher.job_iterate, hi]
      exact ih
  | flies hw => exact Job.settle_of_lt hw ..
  | @goesOn ticker p o wake t p' o' t' hw hr | @crashes ticker p o wake t t' hw hr =>
      rw [Job.settle_of_due hw, Dispatcher.job_resume, hr]
      rfl
  | lands hw hr _ ih =>
      rw [Job.settle_of_due hw, Dispatcher.job_resume, hr]
      exact ih

/-! ## One iteration -/

/-- An event, and when it was seen. -/
abbrev Stamped := Nat × Event

def stampedAt (now : Nat) (es : List Event) : List Stamped := es.map (now, ·)

@[simp] theorem stampedAt_append {now : Nat} {es es' : List Event} :
    stampedAt now (es ++ es') = stampedAt now es ++ stampedAt now es' := List.map_append

@[simp] theorem map_snd_stampedAt {now : Nat} {es : List Event} : (stampedAt now es).map Prod.snd = es := by
  simp [stampedAt, Function.comp_def]

/-- Who runs the loops, with what settings and by which clock. -/
structure Identity where
  name : String
  machine : MachineId
  config : Config
  clock : Option Instant

namespace Identity

def settings (i : Identity) : Pass.Settings := ⟨i.machine, i.config.retrialPolicy⟩

/-- The sweep that a task consists of, unless it delivers. -/
def sweep? (i : Identity) : Task → Option Sweep
  | .processor => none
  | .unlocker => some (.unlocking (ofMillis i.config.maxLockTime))
  | .cleaner => some (.cleaning (ofMillis i.config.retention) i.config.cleanupFinishedOnly)

/-- An iteration from its first deed to its last: a pass that has come to its result, or the call of a
sweep. -/
inductive Whole (i : Identity) : Task → List Stamped → Prop where
  | pass {it result} (h : Pass.Course i.settings i.name (it.map Prod.snd) (.finished result)) :
      Whole i .processor it
  | sweep {task s time cutoff answer} (h : i.sweep? task = some s) :
      Whole i task [(time, .call i.name (s.call cutoff) answer)]

theorem task_of_sweep {i : Identity} {task : Task} {s : Sweep} (h : i.sweep? task = some s)
    (cutoff : Instant) : (s.call cutoff).task = task := by
  cases task with
  | processor => cases h
  | unlocker => cases h; rfl
  | cleaner =>
      cases h
      unfold Sweep.call
      split
      · contradiction
      · rfl
      · rfl

end Identity

namespace Dispatcher

def identity (d : Dispatcher) : Identity := ⟨d.name, d.machine, d.config, d.clock⟩

variable {d : Dispatcher} {task : Task} {now : Nat} {cur : List Stamped} {t t' : Trial}

/-- What comes of an iteration of which `cur` was done before. -/
inductive Goes (d : Dispatcher) (task : Task) (now : Nat) (cur : List Stamped) (t : Trial) :
    Job.Progress Flight × Trial → Prop where
  | awaits {es p o t'} (did : Trial.Did d.name es t t') (own : ∀ e ∈ es, e.task? d.name = some task)
      (delivers : task = .processor)
      (flying : Pass.Flying d.settings d.name ((cur ++ stampedAt now es).map Prod.snd) p)
      (delayed : 0 < o.delayMillis) : Goes d task now cur t (.awaits ⟨p, o⟩, t')
  | ends {es ending t'} (did : Trial.Did d.name es t t') (own : ∀ e ∈ es, e.task? d.name = some task)
      (whole : d.identity.Whole task (cur ++ stampedAt now es)) (any : es ≠ [])
      (freed : task = .processor ∨ t.Freed d.name d.machine → t'.Freed d.name d.machine) :
      Goes d task now cur t (.over (some ending), t')

theorem Came.goes {p₀ : Pass} {out : Job.Progress Flight × Trial} (h : Came d (cur.map Prod.snd) p₀ t out) :
    Goes d .processor now cur t out := by
  cases h with
  | awaits did flying delayed =>
      obtain ⟨before, m, resume, he, hc, hp⟩ := flying
      have hown := (hc.send hp (.ok ())).task
      rw [← he] at hown
      refine .awaits did (fun e h => hown e (List.mem_append_right _ h)) rfl ?_ delayed
      rw [List.map_append, map_snd_stampedAt]
      exact ⟨before, m, resume, he, hc, hp⟩
  | @ends es result ending t' did course any freed =>
      have hmap : (cur ++ stampedAt now es).map Prod.snd = cur.map Prod.snd ++ es := by
        rw [List.map_append, map_snd_stampedAt]
      exact .ends did (fun e h => course.task e (List.mem_append_right _ h)) (.pass (hmap ▸ course)) any
        fun _ => freed

theorem iterate_sweep {s : Sweep} (h : d.identity.sweep? task = some s) :
    d.iterate task t = d.sweep s t := by
  cases task with
  | processor => cases h
  | unlocker | cleaner => cases h; rfl

theorem without_sweep (name : String) (s : Sweep) (cutoff : Instant) {machine : MachineId}
    (h : t.store.Without machine) : (t.call name (s.call cutoff)).2.store.Without machine := by
  unfold Trial.call
  split
  · exact h
  · cases s with
    | unlocking => exact h.unlock _
    | cleaning age finishedOnly => cases finishedOnly <;> exact h.remove _

/-- A sweep makes its call, if it has the time. -/
theorem sweep_cases (d : Dispatcher) (s : Sweep) (t : Trial) :
    (t.now = none ∧ d.sweep s t = (.over none, t)) ∨
      ∃ cutoff ending u, d.sweep s t = (.over (some ending), u) ∧
        Trial.Did d.name [] (t.call d.name (s.call cutoff)).2 u ∧
        u.store = (t.call d.name (s.call cutoff)).2.store := by
  unfold sweep Sweep.run
  cases ht : t.now with
  | none =>
      simp only [Trial.patientHost, ht]
      exact Or.inl ⟨trivial, rfl⟩
  | some time =>
      refine Or.inr ⟨time.before s.age, ?_⟩
      simp only [Trial.patientHost, ht]
      cases t.call d.name (s.call (time.before s.age)) with
      | mk answer u =>
          cases answer with
          | error e => exact ⟨_, u, rfl, .refl u, rfl⟩
          | ok n =>
              refine ⟨_, _, rfl, ?_⟩
              dsimp only
              split
              · exact ⟨.refl u, rfl⟩
              · exact ⟨.log u _, rfl⟩

theorem goes_sweep {s : Sweep} (h : d.identity.sweep? task = some s) (hnow : t.now.isSome) :
    Goes d task now [] t (d.sweep s t) := by
  rcases d.sweep_cases s t with ⟨hn, -⟩ | ⟨cutoff, ending, u, he, hdid, hstore⟩
  · rw [hn] at hnow
    cases hnow
  · rw [he]
    have hall : Trial.Did d.name [.call d.name (s.call cutoff) (t.call d.name (s.call cutoff)).1] t u :=
      (Trial.Did.call t (s.call cutoff)).trans_nil hdid
    refine .ends hall (List.forall_mem_singleton.2 ?_) (.sweep h) (List.cons_ne_nil _ _) ?_
    · rw [Event.task?, if_pos rfl, Identity.task_of_sweep h]
    · rintro (rfl | hf)
      · cases h
      · exact hf.mono hall.seen fun hs => hstore ▸ without_sweep d.name s cutoff hs

theorem seen_iterate (d : Dispatcher) (task : Task) (t : Trial) : t.seen ⊆ (d.iterate task t).2.seen := by
  cases hs : d.identity.sweep? task with
  | none =>
      cases task with
      | processor => exact seen_deliver d _ t
      | unlocker | cleaner => cases hs
  | some s =>
      rw [iterate_sweep hs]
      rcases d.sweep_cases s t with ⟨-, he⟩ | ⟨cutoff, ending, u, he, hdid, -⟩
      · rw [he]
        exact List.Subset.refl _
      · rw [he]
        exact List.Subset.trans (Trial.seen_call d.name (s.call cutoff) t) hdid.seen

theorem seen_resume (d : Dispatcher) (p : Pass) (o : Outcome) (t : Trial) :
    t.seen ⊆ (d.resume p o t).2.seen := by
  have heffects : Trial.Did d.name [] t (o.effects.foldl Trial.effect t) := .foldl_effect t o.effects
  exact List.Subset.trans heffects.seen (seen_deliver ..)

theorem did_report (task : Task) (t : Trial) (ending : Except OutboxError Unit) :
    Trial.Did d.name [] t (report task t ending) := by
  cases ending with
  | ok => exact .refl t
  | error e => exact .log t _

theorem store_report (task : Task) (t : Trial) (ending : Except OutboxError Unit) :
    (report task t ending).store = t.store := by
  cases ending <;> rfl

theorem iterate_goes (hnow : t.now.isSome) (hroom : ∀ e ∈ (d.iterate task t).2.seen, e.Roomy d.name) :
    Goes d task now [] t (d.iterate task t) := by
  cases hs : d.identity.sweep? task with
  | some s => rw [iterate_sweep hs]; exact goes_sweep hs hnow
  | none =>
      cases task with
      | processor =>
          have hopening : Pass.Course d.settings d.name [] .opening := .opening
          have hcame : Came d (([] : List Stamped).map Prod.snd) .opening t (d.iterate .processor t) :=
            deliver_came hopening (fun _ => (nomatch ·)) hnow (fun _ h => nomatch h) hroom
          exact hcame.goes
      | unlocker | cleaner => cases hs

theorem Came.after {old : List Event} {p : Pass} {u : Trial} {out : Job.Progress Flight × Trial}
    (hu : Trial.Did d.name [] t u) (h : Came d old p u out) : Came d old p t out := by
  cases h with
  | awaits did flying delayed notAfter => exact .awaits (hu.trans did) flying delayed notAfter
  | ends did course any freed => exact .ends (hu.trans did) course any freed

theorem resume_came {p : Pass} {o : Outcome} (hf : Pass.Flying d.settings d.name (cur.map Prod.snd) p)
    (hnow : t.now.isSome) (hold : ∀ x ∈ cur, x.2.Roomy d.name)
    (hroom : ∀ e ∈ (d.resume p o t).2.seen, e.Roomy d.name) :
    Came d (cur.map Prod.snd) (p.receive d.settings o.answer) t (d.resume p o t) := by
  have heffects : Trial.Did d.name [] t (o.effects.foldl Trial.effect t) := .foldl_effect t o.effects
  have hnot : ∀ result, p.receive d.settings o.answer ≠ .finished result := by
    obtain ⟨before, m, resume, -, -, hp⟩ := hf
    rw [Pass.receive_of_next hp]
    exact Pass.ne_finished_of_send hp _
  exact (deliver_came (Pass.Course.receive hf o.answer) hnot (by rwa [heffects.now])
    (List.forall_mem_map.2 hold) hroom).after heffects

end Dispatcher

/-! ## The account of a task -/

def Loop.isInFlight : Loop Flight → Bool
  | inFlight .. => true
  | waiting _ | ended => false

/-- What is done of an iteration that is under way. -/
def Loop.Does (i : Identity) (task : Task) (cur : List Stamped) : Loop Flight → Prop
  | .inFlight _ f _ => task = .processor ∧ Pass.Flying i.settings i.name (cur.map Prod.snd) f.pass
  | .waiting _ | .ended => cur = []

/-- The deeds of a task are those of its iterations, of which none began after the time `last`. -/
structure Account (i : Identity) (task : Task) (last : Nat) (its : List (List Stamped)) (cur : List Stamped)
    (l : Loop Flight) (deeds : List Stamped) : Prop where
  deeds_eq : deeds = its.flatten ++ cur
  whole : ∀ it ∈ its, i.Whole task it
  underWay : l.Does i task cur
  began : ∀ it ∈ its ++ [cur], ∀ x ∈ it.head?, x.1 ≤ last

namespace Account

variable {i : Identity} {task : Task} {last now : Nat} {its : List (List Stamped)} {cur deeds : List Stamped}
  {l l' : Loop Flight} {es : List Event}

theorem start (i : Identity) (task : Task) (last : Nat) (ticker : Ticker) :
    Account i task last [] [] (.waiting ticker) [] where
  deeds_eq := rfl
  whole _ h := nomatch h
  underWay := rfl
  began := by simp

theorem mem_deeds (h : Account i task last its cur l deeds) {x : Stamped} (hx : x ∈ cur) : x ∈ deeds := by
  rw [h.deeds_eq]
  exact List.mem_append_right _ hx

theorem cur_ne_nil (h : Account i task last its cur l deeds) (hl : l.isInFlight = true) : cur ≠ [] := by
  cases l with
  | inFlight ticker f wake =>
      obtain ⟨-, before, m, resume, he, -⟩ := h.underWay
      rintro rfl
      exact absurd he.symm (List.append_ne_nil_of_right_ne_nil _ (List.cons_ne_nil _ _))
  | waiting | ended => cases hl

theorem pending_pos (h : Account i task last its cur l deeds) (hl : l.isInFlight = true) : 0 < l.pending := by
  cases l with
  | inFlight ticker f wake => exact h.underWay.2.waiting_pos
  | waiting | ended => cases hl

theorem isInFlight_of_ne (h : Account i task last its cur l deeds) (ht : task ≠ .processor) :
    l.isInFlight = false := by
  cases l with
  | inFlight ticker f wake => exact absurd h.underWay.1 ht
  | waiting | ended => rfl

theorem came {d : Dispatcher} {ticker : Ticker} {p : Pass} {o : Outcome} {wake : Nat} {t : Trial}
    (h : Account d.identity task last its cur (.inFlight ticker ⟨p, o⟩ wake) deeds) (hclock : t.now.isSome)
    (hold : ∀ x ∈ deeds, x.2.Roomy d.name) (hnew : ∀ e ∈ (d.resume p o t).2.seen, e.Roomy d.name) :
    d.Came (cur.map Prod.snd) (p.receive d.settings o.answer) t (d.resume p o t) :=
  Dispatcher.resume_came h.underWay.2 hclock (fun x hx => hold x (h.mem_deeds hx)) hnew

/-- What is added to an iteration does not change when it began. -/
theorem head_le (h : Account i task last its cur l deeds) (hlast : cur = [] → now ≤ last) :
    ∀ x ∈ (cur ++ stampedAt now es).head?, x.1 ≤ last := by
  cases hcur : cur with
  | nil =>
      intro x hx
      obtain ⟨e, -, rfl⟩ := List.mem_map.1 (List.mem_of_mem_head? hx)
      exact hlast hcur
  | cons y ys =>
      intro x hx
      exact h.began cur (List.mem_append_right _ List.mem_cons_self) x (hcur ▸ hx)

theorem fly (h : Account i task last its cur l deeds) (hlast : cur = [] → now ≤ last)
    (hl : l'.Does i task (cur ++ stampedAt now es)) :
    Account i task last its (cur ++ stampedAt now es) l' (deeds ++ stampedAt now es) where
  deeds_eq := by rw [h.deeds_eq, List.append_assoc]
  whole := h.whole
  underWay := hl
  began := List.forall_mem_append.2
    ⟨fun it hit => h.began it (List.mem_append_left _ hit), List.forall_mem_singleton.2 (h.head_le hlast)⟩

theorem land (h : Account i task last its cur l deeds) (hlast : cur = [] → now ≤ last)
    (hw : i.Whole task (cur ++ stampedAt now es)) (hl : l'.Does i task []) :
    Account i task last (its ++ [cur ++ stampedAt now es]) [] l' (deeds ++ stampedAt now es) where
  deeds_eq := by simp [h.deeds_eq]
  whole := List.forall_mem_append.2 ⟨h.whole, List.forall_mem_singleton.2 hw⟩
  underWay := hl
  began := by
    refine List.forall_mem_append.2 ⟨List.forall_mem_append.2 ⟨?_, ?_⟩, ?_⟩
    · exact fun it hit => h.began it (List.mem_append_left _ hit)
    · exact List.forall_mem_singleton.2 (h.head_le hlast)
    · exact List.forall_mem_singleton.2 fun _ hx => nomatch hx

end Account

/-! ## At one moment -/

namespace Loop

/-- There is nothing to do any more at the time `now`. -/
def Rests (stop : Bool) (now : Nat) : Loop Flight → Prop
  | waiting ticker => stop = false ∧ now < ticker.due
  | inFlight _ _ wake => now < wake
  | ended => stop = true

/-- An iteration is under way, or one begins at the time `now`. -/
def Moves (stop : Bool) (now : Nat) : Loop Flight → Prop
  | waiting ticker => stop = false ∧ ticker.due ≤ now
  | inFlight .. => True
  | ended => False

theorem moves_of_isInFlight {stop : Bool} {now : Nat} {l : Loop Flight} (h : l.isInFlight = true) :
    l.Moves stop now := by
  cases l with
  | inFlight => trivial
  | waiting | ended => cases h

end Loop

namespace Settles

variable {d : Dispatcher} {task : Task} {now : Nat} {l l' : Loop Flight} {t t' : Trial}

theorem seen (h : Settles d task now l t l' t') : t.seen ⊆ t'.seen := by
  have hreport : ∀ (u : Trial) ending, u.seen ⊆ (Dispatcher.report task u ending).seen :=
    fun u ending => (Dispatcher.did_report (d := d) task u ending).seen
  induction h with
  | ended | waits | flies => exact List.Subset.refl _
  | stopped => exact List.subset_cons_self _ _
  | @begins ticker t p o t' _ hi | @breaksOff ticker t t' _ hi =>
      have h := d.seen_iterate task t
      rwa [hi] at h
  | @iterates ticker t ending t' l u _ hi _ ih =>
      have h := d.seen_iterate task t
      rw [hi] at h
      exact List.Subset.trans (List.Subset.trans h (hreport t' ending)) ih
  | @goesOn ticker p o wake t p' o' t' _ hr | @crashes ticker p o wake t t' _ hr =>
      have h := d.seen_resume p o t
      rwa [hr] at h
  | @lands ticker p o wake t ending t' l u _ hr _ ih =>
      have h := d.seen_resume p o t
      rw [hr] at h
      exact List.Subset.trans (List.Subset.trans h (hreport t' ending)) ih

end Settles

/-- What a loop does at the time `now`, which comes to `es`. -/
structure Worked (d : Dispatcher) (task : Task) (now last : Nat) (deeds : List Stamped) (l : Loop Flight) (t : Trial)
    (l' : Loop Flight) (t' : Trial) (es : List Event) : Prop where
  did : Trial.Did d.name es t t'
  own : ∀ e ∈ es, e.task? d.name = some task
  account : ∃ its cur, Account d.identity task last its cur l' (deeds ++ stampedAt now es)
  rests : (l = .ended → d.signal.value = true) → l'.Rests d.signal.value now
  /-- An iteration that ends leaves no lock behind. -/
  freed : (task = .processor ∧ l.Moves d.signal.value now) ∨ t.Freed d.name d.machine →
    l'.isInFlight = true ∨ t'.Freed d.name d.machine
  landed : l.isInFlight = true → l'.isInFlight = false → es ≠ []
  /-- Once the loop is to stop it has ever fewer messages to wait for. -/
  fewer : d.signal.value = true → l'.pending ≤ l.pending ∧
    ∀ {ticker p o wake}, l = .inFlight ticker ⟨p, o⟩ wake → wake ≤ now → l'.pending < l.pending

namespace Worked

variable {d : Dispatcher} {task : Task} {now last : Nat} {deeds : List Stamped} {l l' : Loop Flight}
  {t t₁ t' : Trial} {es es' : List Event} {ticker : Ticker} {ending : Except OutboxError Unit}

theorem nothing {its : List (List Stamped)} {cur : List Stamped} (did : Trial.Did d.name [] t t')
    (ha : Account d.identity task last its cur l' deeds)
    (rests : (l = .ended → d.signal.value = true) → l'.Rests d.signal.value now)
    (freed : task = .processor ∧ l.Moves d.signal.value now → l'.isInFlight = true)
    (hstore : t'.store = t.store) (flies : l.isInFlight = true → l'.isInFlight = true)
    (fewer : d.signal.value = true → l'.pending ≤ l.pending ∧
      ∀ {ticker p o wake}, l = .inFlight ticker ⟨p, o⟩ wake → wake ≤ now → l'.pending < l.pending) :
    Worked d task now last deeds l t l' t' [] where
  did := did
  own _ h := nomatch h
  account := ⟨its, cur, (List.append_nil deeds).symm ▸ ha⟩
  rests := rests
  freed hf := hf.imp freed fun h => h.mono did.seen fun hs => hstore ▸ hs
  landed hl hl' := by
    rw [flies hl] at hl'
    cases hl'
  fewer := fewer

/-- An iteration that comes to its end, and what follows it. -/
theorem after (did : Trial.Did d.name es t t₁) (own : ∀ e ∈ es, e.task? d.name = some task) (any : es ≠ [])
    (freed : task = .processor ∨ t.Freed d.name d.machine → t₁.Freed d.name d.machine)
    (stops : d.signal.value = true → 0 < l.pending)
    (h : Worked d task now last (deeds ++ stampedAt now es) (.waiting ticker)
      (Dispatcher.report task t₁ ending) l' t' es') : Worked d task now last deeds l t l' t' (es ++ es') where
  did := (did.trans_nil (Dispatcher.did_report ..)).trans h.did
  own := List.forall_mem_append.2 ⟨own, h.own⟩
  account := by
    rw [stampedAt_append, ← List.append_assoc]
    exact h.account
  rests _ := h.rests (nomatch ·)
  freed hf := by
    have hreport : Trial.Did d.name [] t₁ (Dispatcher.report task t₁ ending) := Dispatcher.did_report ..
    exact h.freed (Or.inr ((freed (hf.imp And.left id)).mono hreport.seen fun hs => by
      rwa [Dispatcher.store_report]))
  landed _ _ := List.append_ne_nil_of_left_ne_nil any _
  fewer hv := by
    have hzero : l'.pending = 0 := Nat.eq_zero_of_le_zero (h.fewer hv).1
    rw [hzero]
    exact ⟨Nat.zero_le _, fun _ _ => stops hv⟩

/-- A delivery that comes to wait for an outcome. -/
theorem awaits {its : List (List Stamped)} {cur : List Stamped} {p : Pass} {o : Outcome}
    (ha : Account d.identity task last its cur l deeds) (hlast : cur = [] → now ≤ last)
    (did : Trial.Did d.name es t t') (own : ∀ e ∈ es, e.task? d.name = some task)
    (delivers : task = .processor)
    (flying : Pass.Flying d.settings d.name ((cur ++ stampedAt now es).map Prod.snd) p)
    (delayed : 0 < o.delayMillis) (stops : d.signal.value = true → p.waiting < l.pending) :
    Worked d task now last deeds l t (.inFlight ticker ⟨p, o⟩ (ticker.timer.wake now o.delayMillis)) t' es where
  did := did
  own := own
  account := ⟨its, _, ha.fly hlast ⟨delivers, flying⟩⟩
  rests _ := ticker.timer.lt_wake delayed
  freed _ := Or.inl rfl
  landed _ h := nomatch h
  fewer hv := ⟨Nat.le_of_lt (stops hv), fun _ _ => stops hv⟩

theorem ends {its : List (List Stamped)} {cur : List Stamped}
    (ha : Account d.identity task last its cur l deeds) (hlast : cur = [] → now ≤ last)
    (did : Trial.Did d.name es t t₁) (own : ∀ e ∈ es, e.task? d.name = some task)
    (whole : d.identity.Whole task (cur ++ stampedAt now es)) (any : es ≠ [])
    (freed : task = .processor ∨ t.Freed d.name d.machine → t₁.Freed d.name d.machine)
    (stops : d.signal.value = true → 0 < l.pending) (hclock : t.now.isSome)
    (hold : ∀ x ∈ deeds, x.2.Roomy d.name) (hnew : ∀ e ∈ t₁.seen, e.Roomy d.name)
    (next : ∀ {its cur deeds}, Account d.identity task last its cur (.waiting ticker) deeds →
      (Dispatcher.report task t₁ ending).now.isSome → (∀ x ∈ deeds, x.2.Roomy d.name) →
      ∃ es', Worked d task now last deeds (.waiting ticker) (Dispatcher.report task t₁ ending) l' t' es') :
    ∃ es, Worked d task now last deeds l t l' t' es := by
  have hreport : Trial.Did d.name [] t₁ (Dispatcher.report task t₁ ending) := Dispatcher.did_report ..
  have hroom : ∀ x ∈ deeds ++ stampedAt now es, x.2.Roomy d.name := by
    refine List.forall_mem_append.2 ⟨hold, List.forall_mem_map.2 fun e he => ?_⟩
    exact hnew e (did.mem_seen he (own e he))
  obtain ⟨es', hw⟩ := next (ha.land hlast whole rfl) (by rwa [hreport.now, did.now]) hroom
  exact ⟨es ++ es', .after did own any freed stops hw⟩

end Worked

/-- A loop never breaks off, if it has the time and nothing that it fetches has a full counter. -/
theorem Settles.worked {d : Dispatcher} {task : Task} {now last : Nat} {l l' : Loop Flight} {t t' : Trial}
    (h : Settles d task now l t l' t') {its : List (List Stamped)} {cur deeds : List Stamped}
    (ha : Account d.identity task last its cur l deeds) (hd : d.signal.dropped = false)
    (hlast : d.signal.value = false → now ≤ last) (hclock : t.now.isSome)
    (hold : ∀ x ∈ deeds, x.2.Roomy d.name) (hnew : ∀ e ∈ t'.seen, e.Roomy d.name) :
    ∃ es, Worked d task now last deeds l t l' t' es := by
  -- Each iteration that ends is added to the account, and the loop goes on from there. That nothing fetched
  -- has a full counter is known of the end only, but what was seen stays seen.
  induction h generalizing its cur deeds with
  | @ended t =>
      exact ⟨[], .nothing (.refl t) ha (fun h => h rfl) (fun h => h.2.elim) rfl id
        fun _ => ⟨Nat.le_refl _, (nomatch ·)⟩⟩
  | @stopped ticker t hc =>
      have hv := Loop.value_of_stop hd hc
      have ha' : Account d.identity task last its cur .ended deeds :=
        ⟨ha.deeds_eq, ha.whole, ha.underWay, ha.began⟩
      refine ⟨[], .nothing (.log t _) ha' (fun _ => hv) (fun h => ?_) rfl id
        fun _ => ⟨Nat.le_refl _, (nomatch ·)⟩⟩
      rw [hv] at h
      exact nomatch h.2.1
  | @waits ticker t hc =>
      have hrests := Loop.of_wait hd hc
      exact ⟨[], .nothing (.refl t) ha (fun _ => hrests)
        (fun h => absurd h.2.2 (Nat.not_le_of_lt hrests.2)) rfl id fun _ => ⟨Nat.le_refl _, (nomatch ·)⟩⟩
  | @begins ticker t p o t' hc hi =>
      have hv := Loop.value_of_iterate hd hc
      obtain rfl : cur = [] := ha.underWay
      have hgoes : d.Goes task now [] t (d.iterate task t) := Dispatcher.iterate_goes hclock (by rwa [hi])
      rw [hi] at hgoes
      cases hgoes with
      | awaits did own delivers flying delayed =>
          exact ⟨_, .awaits ha (fun _ => hlast hv) did own delivers flying delayed
            fun hv' => absurd (hv.symm.trans hv') Bool.false_ne_true⟩
  | @breaksOff ticker t t' hc hi =>
      have hgoes : d.Goes task now [] t (d.iterate task t) := Dispatcher.iterate_goes hclock (by rwa [hi])
      rw [hi] at hgoes
      cases hgoes
  | @iterates ticker t ending t' l u hc hi hs ih =>
      have hv := Loop.value_of_iterate hd hc
      obtain rfl : cur = [] := ha.underWay
      have hseen := List.Subset.trans (Dispatcher.did_report (d := d) task t' ending).seen hs.seen
      have hgoes : d.Goes task now [] t (d.iterate task t) :=
        Dispatcher.iterate_goes hclock fun e he => hnew e (hseen (by rwa [hi] at he))
      rw [hi] at hgoes
      cases hgoes with
      | @ends es _ _ did own whole any freed =>
          exact Worked.ends ha (fun _ => hlast hv) did own whole any freed
            (fun hv' => absurd (hv.symm.trans hv') Bool.false_ne_true) hclock hold
            (fun e he => hnew e (hseen he)) fun ha' hc' hold' => ih ha' hc' hold' hnew
  | @flies ticker p o wake t hw =>
      refine ⟨[], .nothing (.refl t) ha (fun _ => Nat.lt_of_not_le hw) (fun _ => rfl) rfl id
        fun _ => ⟨Nat.le_refl _, fun he hle => ?_⟩⟩
      cases he
      exact absurd hle hw
  | @goesOn ticker p o wake t p' o' t' hw hr =>
      have hcame := ha.came hclock hold (by rwa [hr])
      rw [hr] at hcame
      obtain ⟨rfl, hflying⟩ := ha.underWay
      have hgoes : d.Goes .processor now cur t (.awaits ⟨p', o'⟩, t') := hcame.goes
      cases hcame with
      | awaits _ hflying' _ notAfter =>
          cases hgoes with
          | awaits did own delivers flying delayed =>
              exact ⟨_, .awaits ha (fun hn => absurd hn (ha.cur_ne_nil rfl)) did own delivers flying delayed
                fun _ => hflying.waiting_lt hflying' notAfter⟩
  | @crashes ticker p o wake t t' hw hr =>
      have hcame := ha.came hclock hold (by rwa [hr])
      rw [hr] at hcame
      cases hcame
  | @lands ticker p o wake t ending t' l u hw hr hs ih =>
      obtain ⟨rfl, hflying⟩ := ha.underWay
      have hseen := List.Subset.trans (Dispatcher.did_report (d := d) .processor t' ending).seen hs.seen
      have hcame := ha.came hclock hold fun e he => hnew e (hseen (by rwa [hr] at he))
      rw [hr] at hcame
      have hgoes : d.Goes .processor now cur t (.over (some ending), t') := hcame.goes
      cases hgoes with
      | @ends es _ _ did own whole any freed =>
          exact Worked.ends ha (fun hn => absurd hn (ha.cur_ne_nil rfl)) did own whole any freed
            (fun _ => hflying.waiting_pos) hclock hold (fun e he => hnew e (hseen he))
            fun ha' hc' hold' => ih ha' hc' hold' hnew

end Outbox

import Mathlib.Data.List.Induction
import Outbox.Config
import Outbox.Fault
import Outbox.Proofs.Fleet.NoLoss

/-!
# Records stay well formed

What the fields of a stored record say about each other, in every run under a policy that passes its
check. It follows that whatever is fetched is pending, and that no pass comes to a transition that is
not allowed.
-/

namespace Outbox

open Function (update)

theorem Config.max_pos {c : Config} (h : c.validate = .ok ()) (he : c.retrialPolicy.enabled = true) :
    0 < c.retrialPolicy.max := by
  unfold validate at h
  split at h
  · cases h
  · split at h
    · cases h
    · rename_i hz
      simp only [he, Bool.true_and, decide_eq_true_eq] at hz
      exact Nat.pos_of_ne_zero hz

def OutboxError.isInvalidTransition : OutboxError → Bool
  | invalidTransition .. => true
  | _ => false

namespace Record

/-- How the fields of a record that is stored go together. -/
structure WellFormed (policy : RetrialPolicy) (r : Record) : Prop where
  locked : r.lock ≠ none → r.state = .pending
  processed : r.processedOn.isSome = true ↔ r.state = .delivered
  untried : r.attempts = 0 ↔ r.lastAttemptOn = none
  new : r.attempts = 0 → r.error = none ∧ r.state = .pending
  retried : r.state = .pending → 0 < r.attempts →
    r.error.isSome = true ∧ policy.isExhausted r.attempts = false
  exhausted : r.state = .exhausted →
    policy.enabled = true ∧ r.attempts = policy.max ∧ r.error.isSome = true

/-- A copy with an attempt of which the outcome is open. -/
structure Trying (policy : RetrialPolicy) (r : Record) : Prop where
  pending : r.state = .pending
  unprocessed : r.processedOn = none
  stamped : r.lastAttemptOn.isSome = true
  counted : 0 < r.attempts
  granted : policy.enabled = true → r.attempts ≤ policy.max

variable {policy : RetrialPolicy} {r r' : Record}

theorem WellFormed.of_new (id : RecordId) (m : Message) (now : Instant) :
    (Record.new id m now).WellFormed policy where
  locked _ := rfl
  processed := by simp [Record.new]
  untried := by simp [Record.new]
  new _ := ⟨rfl, rfl⟩
  retried _ h := absurd h (Nat.lt_irrefl 0)
  exhausted h := nomatch h

theorem WellFormed.relock {lock : Option Lock} (h : r.WellFormed policy)
    (hl : lock ≠ none → r.state = .pending) : ({ r with lock } : Record).WellFormed policy where
  locked := hl
  processed := h.processed
  untried := h.untried
  new := h.new
  retried := h.retried
  exhausted := h.exhausted

/-- A pending record is not at its last attempt, so the one that starts is still granted. -/
theorem WellFormed.startAttempt {now : Instant} (hmax : policy.enabled = true → 0 < policy.max)
    (h : r.WellFormed policy) (hp : r.state = .pending) (hs : r.startAttempt now = some r') :
    r'.Trying policy := by
  obtain ⟨-, rfl⟩ := startAttempt_eq_some_iff.1 hs
  constructor
  · exact hp
  · cases hpr : r.processedOn with
    | none => rfl
    | some t =>
        have hd := h.processed.1 (by rw [hpr]; rfl)
        rw [hp] at hd
        cases hd
  · rfl
  · exact Nat.succ_pos _
  · intro he
    rcases Nat.eq_zero_or_pos r.attempts with hz | hpos
    · rw [hz]; exact hmax he
    · have hne := (h.retried hp hpos).2
      simp only [RetrialPolicy.isExhausted, he, Bool.true_and, decide_eq_false_iff_not] at hne
      exact Nat.lt_of_not_le hne

theorem Trying.not_untried (h : r.Trying policy) : ¬ r.attempts = 0 ∧ ¬ r.lastAttemptOn = none := by
  refine ⟨Nat.ne_of_gt h.counted, fun hn => ?_⟩
  have hs := h.stamped
  rw [hn] at hs
  cases hs

theorem Trying.markDelivered {now : Instant} (h : r.Trying policy) (hm : r.markDelivered now = .ok r') :
    r'.WellFormed policy ∧ r'.lock = none := by
  obtain ⟨-, rfl⟩ := markDelivered_eq_ok_iff.1 hm
  obtain ⟨hattempts, hstamp⟩ := h.not_untried
  refine ⟨?_, rfl⟩
  constructor
  · intro hl; exact absurd rfl hl
  · exact ⟨fun _ => rfl, fun _ => rfl⟩
  · exact ⟨fun hz => absurd hz hattempts, fun hn => absurd hn hstamp⟩
  · intro hz; exact absurd hz hattempts
  · intro hp; cases hp
  · intro hx; cases hx

theorem Trying.markFailed {e : String} (h : r.Trying policy) (hm : r.markFailed e policy = .ok r') :
    r'.WellFormed policy ∧ r'.lock = none := by
  obtain ⟨-, rfl⟩ := markFailed_eq_ok_iff.1 hm
  obtain ⟨hattempts, hstamp⟩ := h.not_untried
  refine ⟨?_, rfl⟩
  constructor
  · intro hl; exact absurd rfl hl
  · refine ⟨fun hs => ?_, fun hd => absurd hd stateAfterFailure_ne_delivered⟩
    rw [h.unprocessed] at hs
    cases hs
  · exact ⟨fun hz => absurd hz hattempts, fun hn => absurd hn hstamp⟩
  · intro hz; exact absurd hz hattempts
  · intro hp _
    refine ⟨rfl, Bool.eq_false_iff.2 fun he => ?_⟩
    dsimp only at hp
    rw [stateAfterFailure, if_pos he] at hp
    cases hp
  · intro hx
    obtain ⟨hen, hle⟩ := enabled_of_stateAfterFailure hx
    exact ⟨hen, Nat.le_antisymm (h.granted hen) hle, rfl⟩

theorem Trying.markDelivered_ne_error {now : Instant} {x : OutboxError} (h : r.Trying policy) :
    r.markDelivered now ≠ .error x := by
  rw [markDelivered_eq_ok_iff.2 ⟨h.pending, rfl⟩]
  exact fun he => nomatch he

theorem Trying.markFailed_ne_error {e : String} {x : OutboxError} (h : r.Trying policy) :
    r.markFailed e policy ≠ .error x := by
  rw [markFailed_eq_ok_iff.2 ⟨h.pending, rfl⟩]
  exact fun he => nomatch he

end Record

/-! ## In every world -/

namespace Pass

/-- What holds of the copy that is under way. -/
def Proper (policy : RetrialPolicy) : Pass → Prop
  | sending _ r _ | accepted _ r _ => r.Trying policy
  | saving _ r _ _ => r.WellFormed policy ∧ r.lock = none
  | _ => True

/-- The result that a pass has come to. -/
def outcome? : Pass → Option (Except OutboxError Report)
  | releasing result | finished result => some result
  | _ => none

variable {policy : RetrialPolicy} {report : Report} {r : Record} {rest : List Record}
  {failure : Option BrokerError}

theorem proper_proceed : (proceed report rest).Proper policy := by
  cases rest <;> trivial

theorem proper_saved : (saved report r failure rest (.ok ())).1.Proper policy := by
  cases failure with
  | none => exact proper_proceed
  | some e => trivial

theorem outcome?_proceed {e : OutboxError} : (proceed report rest).outcome? ≠ some (.error e) := by
  cases rest <;> simp [proceed, outcome?]

theorem outcome?_saved {e : OutboxError}
    (h : (saved report r failure rest (.ok ())).1.outcome? = some (.error e)) :
    e.isInvalidTransition = false := by
  cases failure with
  | none => exact absurd h outcome?_proceed
  | some cause => cases h; rfl

end Pass

/-- Whatever comes into the store is well formed already as a copy. -/
structure World.Proper (f : Fleet) (w : World) : Prop where
  fresh : Fresh w
  stored : ∀ {v}, v ∈ w.store.records → v.WellFormed f.policy
  untried : ∀ {k c}, c ∈ (w.pass k).untried → c.WellFormed f.policy ∧ c.state = .pending
  underWay : ∀ k, (w.pass k).Proper f.policy

/-- No pass has an illegal transition for its result. -/
def World.Legal (w : World) : Prop :=
  ∀ k e, (w.pass k).outcome? = some (.error e) → e.isInvalidTransition = false

namespace World.Proper

variable {f : Fleet} {w w' : World} {a : Action} {k : Nat}

theorem start (f : Fleet) : (World.start .empty).Proper f where
  fresh := .start .empty
  stored h := nomatch h
  untried h := nomatch h
  underWay _ := trivial

theorem pending_of_fetch (h : w.Proper f) {owner : MachineId} {r : Record} (hr : r ∈ w.store.fetch owner) :
    r.state = .pending := by
  obtain ⟨hm, ho⟩ := Store.mem_fetch.1 hr
  refine (h.stored hm).locked fun hn => ?_
  rw [Record.owner?, hn] at ho
  cases ho

theorem stored_step (hs : Step f w a w') (h : w.Proper f) {v : Record} (hv : v ∈ w'.store.records) :
    v.WellFormed f.policy := by
  have hv := Store.get?_of_mem hv
  have old : ∀ {u}, w.store.get? v.id = some u → u.WellFormed f.policy :=
    fun hu => h.stored (Store.mem_of_get? hu)
  cases hs with
  | committed ht =>
      rcases Store.get?_putAll_cases hv with hm | hold
      · rw [h.fresh.staged_new ht hm]
        exact .of_new ..
      · exact old hold
  | expired | released =>
      rw [Store.get?_unlock] at hv
      obtain ⟨u, hu, rfl⟩ := Option.map_eq_some_iff.1 hv
      split
      · exact (old hu).relock fun hn => absurd rfl hn
      · exact old hu
  | cleaned =>
      rw [Store.get?_remove, Option.filter_eq_some_iff] at hv
      exact old hv.1
  | claimed =>
      rw [Store.get?_claim] at hv
      obtain ⟨u, hu, rfl⟩ := Option.map_eq_some_iff.1 hv
      split
      · rename_i hc
        simp only [Store.Claimable, Bool.and_eq_true, decide_eq_true_eq] at hc
        exact (old hu).relock fun _ => hc.1
      · exact old hu
  | @saved j report r failure rest _ hp =>
      rw [Store.get?_save] at hv
      split at hv
      · obtain ⟨-, -, rfl⟩ := Option.map_eq_some_iff.1 hv
        have hr := h.underWay j
        rw [hp] at hr
        exact hr.1
      · exact old hv
  | _ => exact old hv

theorem untried_step (hs : Step f w a w') (h : w.Proper f) {c : Record} (hc : c ∈ (w'.pass k).untried) :
    c.WellFormed f.policy ∧ c.state = .pending := by
  rcases hs.untried_cases hc with hc | ⟨n, -, hm⟩
  · exact h.untried hc
  · exact ⟨h.stored (Store.mem_fetch.1 hm).1, h.pending_of_fetch hm⟩

theorem update {p : Pass} {j : Nat} (h : w.Proper f) (hp : p.Proper f.policy) (k : Nat) :
    (update w.pass j p k).Proper f.policy := by
  rw [Function.update_apply]
  split
  · exact hp
  · exact h.underWay k

theorem trying (h : w.Proper f) {report : Report} {r : Record} {rest : List Record}
    (hp : w.pass k = .sending report r rest ∨ w.pass k = .accepted report r rest) : r.Trying f.policy := by
  have hr := h.underWay k
  rcases hp with hp | hp
  · rw [hp] at hr
    exact hr
  · rw [hp] at hr
    exact hr

theorem underWay_step (hmax : f.policy.enabled = true → 0 < f.policy.max) (hs : Step f w a w')
    (h : w.Proper f) (k : Nat) : (w'.pass k).Proper f.policy := by
  cases hs with
  | still | begun | wasted | added | committed | dropped | expired | cleaned | handedOver => exact h.underWay k
  | fetched => exact h.update Pass.proper_proceed k
  | saved => exact h.update Pass.proper_saved k
  | @attempted j now report r rest r' hp hr =>
      have hm : r ∈ (w.pass j).untried := by rw [hp]; exact List.mem_cons_self
      obtain ⟨hwf, hpending⟩ := h.untried hm
      exact h.update (p := .sending report r' rest) (hwf.startAttempt hmax hpending hr) k
  | @accepted j report r rest hp =>
      exact h.update (p := .accepted report r rest) (h.trying (.inl hp)) k
  | @refused j report r rest e r' hp _ hr =>
      exact h.update (p := .saving report r' (some e) rest) ((h.trying (.inl hp)).markFailed hr) k
  | @delivered j now report r rest r' hp hr =>
      exact h.update (p := .saving report r' none rest) ((h.trying (.inr hp)).markDelivered hr) k
  | _ =>
      refine h.update ?_ k
      trivial

theorem step (hmax : f.policy.enabled = true → 0 < f.policy.max) (hs : Step f w a w') (h : w.Proper f) :
    w'.Proper f where
  fresh := h.fresh.step hs
  stored := h.stored_step hs
  untried := h.untried_step hs
  underWay := h.underWay_step hmax hs

theorem run (hmax : f.policy.enabled = true → 0 < f.policy.max) (as : List Action) :
    ((World.start .empty).run f as).Proper f :=
  World.run_induction (fun hs _ h => h.step hmax hs) (World.along_true ..) (start f)

/-- The check of a transition never fails; what is left are the errors of the store. -/
theorem legal_step (hs : Step f w a w') (h : w.Proper f)
    (ok : ∀ j e, a = .call j (some e) → e.isInvalidTransition = false) (hl : w.Legal) : w'.Legal := by
  intro k e he
  have moved : ∀ {j p}, (Function.update w.pass j p k).outcome? = some (.error e) →
      (w.pass k).outcome? = some (.error e) ∨ (j = k ∧ p.outcome? = some (.error e)) :=
    Step.of_update (P := fun q => q.outcome? = some (.error e))
  cases hs with
  | still | begun | wasted | added | committed | dropped | expired | cleaned | handedOver => exact hl k e he
  | fetched =>
      rcases moved he with he | ⟨-, he⟩
      · exact hl k e he
      · exact absurd he Pass.outcome?_proceed
  | saved =>
      rcases moved he with he | ⟨-, he⟩
      · exact hl k e he
      · exact Pass.outcome?_saved he
  | barredFailure hp _ hr => exact absurd hr (h.trying (.inl hp)).markFailed_ne_error
  | barredDelivery hp hr => exact absurd hr (h.trying (.inr hp)).markDelivered_ne_error
  | missed =>
      rcases moved he with he | ⟨-, he⟩
      · exact hl k e he
      · cases he; rfl
  | failed =>
      rcases moved he with he | ⟨-, he⟩
      · exact hl k e he
      · cases he; exact ok _ _ rfl
  | released hp | stuck hp =>
      rcases moved he with he | ⟨rfl, hr⟩
      · exact hl k e he
      · exact hl _ e (by rw [hp]; exact hr)
  | _ =>
      rcases moved he with he | ⟨-, he⟩
      · exact hl k e he
      · cases he

end World.Proper

/-! ## In every run -/

namespace Step

variable {f : Fleet} {w w' : World} {a : Action} {k : Nat}

theorem call_of_fetched (hs : Step f w a w') {n : Nat} (hp : w.pass k = .fetching n) {c : Record}
    (hc : c ∈ (w'.pass k).untried) : a = .call k none ∧ w'.history = .fetched k :: w.history := by
  have hold : c ∉ (w.pass k).untried := by rw [hp]; exact List.not_mem_nil
  have moved : ∀ {j p}, c ∈ (update w.pass j p k).untried → j = k ∧ c ∈ p.untried :=
    fun hc => (of_update (P := fun q => c ∈ q.untried) hc).resolve_left hold
  cases hs with
  | still | begun | wasted | added | committed | dropped | expired | cleaned | handedOver =>
      exact absurd hc hold
  | fetched =>
      obtain ⟨rfl, -⟩ := moved hc
      exact ⟨rfl, rfl⟩
  | attempted hp' | accepted hp' | refused hp' | delivered hp' | saved hp' =>
      obtain ⟨rfl, -⟩ := moved hc
      exact nomatch hp.symm.trans hp'
  | _ => cases (moved hc).2

theorem version_of_underWay (hs : Step f w a w') {r' : Record} (hr : (w'.pass k).underWay? = some r') :
    ∃ r ∈ (w.pass k).copies, r'.VersionOf r := by
  rcases hs.underWay_cases hr with hr | ⟨report, r, rest, now, hp, he⟩ | ⟨report, r, rest, now, hp, he⟩ |
    ⟨report, r, rest, e, hp, he⟩
  · exact ⟨r', Pass.mem_copies.2 (.inl hr), rfl, rfl, rfl⟩
  · obtain ⟨-, rfl⟩ := Record.startAttempt_eq_some_iff.1 he
    exact ⟨r, by rw [hp]; exact Pass.mem_copies.2 (.inr List.mem_cons_self), rfl, rfl, rfl⟩
  · obtain ⟨-, rfl⟩ := Record.markDelivered_eq_ok_iff.1 he
    exact ⟨r, by rw [hp]; exact Pass.mem_copies.2 (.inl rfl), rfl, rfl, rfl⟩
  · obtain ⟨-, rfl⟩ := Record.markFailed_eq_ok_iff.1 he
    exact ⟨r, by rw [hp]; exact Pass.mem_copies.2 (.inl rfl), rfl, rfl, rfl⟩

theorem handedOver_cases (hs : Step f w a w') {id : RecordId} {m : Message}
    (ho : .handedOver k id m ∈ w'.history) :
    .handedOver k id m ∈ w.history ∨
      ∃ report r rest, w.pass k = .sending report r rest ∧ r.id = id ∧ r.message = m := by
  cases hs with
  | handedOver hp =>
      rcases List.mem_cons.1 ho with he | ho
      · cases he; exact Or.inr ⟨_, _, _, hp, rfl, rfl⟩
      · exact Or.inl ho
  | _ => exact Or.inl (by simpa using ho)

end Step

namespace World

/-- At some moment of the run worker `k` has fetched the record. -/
def FetchedIn (f : Fleet) (as : List Action) (k : Nat) (r : Record) : Prop :=
  ∃ before after n, as = before ++ .call k none :: after ∧
    ((start .empty).run f before).pass k = .fetching n ∧
    r ∈ ((start .empty).run f before).store.fetch (f.machine k)

variable {f : Fleet} {as : List Action} {k : Nat} {r : Record}

theorem FetchedIn.append (h : FetchedIn f as k r) (bs : List Action) : FetchedIn f (as ++ bs) k r := by
  obtain ⟨before, after, n, rfl, hp, hr⟩ := h
  exact ⟨before, after ++ bs, n, by simp, hp, hr⟩

theorem run_append_singleton (f : Fleet) (w : World) (as : List Action) (a : Action) :
    w.run f (as ++ [a]) = (w.run f as).step f a := List.foldl_append

/-- Passes hold copies of what they fetched, and hand over nothing else. -/
theorem fetchedIn_of_copy (f : Fleet) (as : List Action) :
    (∀ {k r}, r ∈ (((start .empty).run f as).pass k).copies → ∃ u, FetchedIn f as k u ∧ r.VersionOf u) ∧
      ∀ {k id m}, .handedOver k id m ∈ ((start .empty).run f as).history →
        ∃ u, FetchedIn f as k u ∧ u.id = id ∧ u.message = m := by
  induction as using List.reverseRecOn with
  | nil => exact ⟨fun h => (nomatch h), fun h => (nomatch h)⟩
  | append_singleton as a ih =>
      have hs := step_spec (f := f) ((start .empty).run f as) a
      rw [← run_append_singleton] at hs
      obtain ⟨hcopies, hsent⟩ := ih
      constructor
      · intro k r hr
        rcases Pass.mem_copies.1 hr with hr | hr
        · obtain ⟨v, hv, hrv⟩ := hs.version_of_underWay hr
          obtain ⟨u, hu, hvu⟩ := hcopies hv
          exact ⟨u, hu.append [a], hrv.1.trans hvu.1, hrv.2.1.trans hvu.2.1, hrv.2.2.trans hvu.2.2⟩
        · rcases hs.untried_cases hr with hold | ⟨n, hp, hm⟩
          · obtain ⟨u, hu, hv⟩ := hcopies (Pass.mem_copies.2 (.inr hold))
            exact ⟨u, hu.append [a], hv⟩
          · obtain ⟨rfl, -⟩ := hs.call_of_fetched hp hr
            exact ⟨r, ⟨as, [], n, rfl, hp, hm⟩, rfl, rfl, rfl⟩
      · intro k id m ho
        rcases hs.handedOver_cases ho with ho | ⟨report, r, rest, hp, rfl, rfl⟩
        · obtain ⟨u, hu, he⟩ := hsent ho
          exact ⟨u, hu.append [a], he⟩
        · obtain ⟨u, hu, hv⟩ := hcopies (k := k) (by rw [hp]; exact Pass.mem_copies.2 (.inl rfl))
          exact ⟨u, hu.append [a], hv.1.symm, hv.2.1.symm⟩

theorem along_of_forall {ok : Action → Prop} (h : ∀ a ∈ as, ok a) (w : World) :
    w.Along f (fun _ => ok) as := by
  induction as generalizing w with
  | nil => trivial
  | cons a as ih => exact ⟨h a List.mem_cons_self, ih (fun b hb => h b (List.mem_cons_of_mem _ hb)) _⟩

theorem legal_run (hmax : f.policy.enabled = true → 0 < f.policy.max)
    (hok : ∀ k e, .call k (some e) ∈ as → e.isInvalidTransition = false) :
    ((start .empty).run f as).Legal := by
  have hall : ∀ a ∈ as, ∀ k e, a = .call k (some e) → e.isInvalidTransition = false :=
    fun a ha k e he => hok k e (he ▸ ha)
  have hstart : (start .empty).Legal := fun _ _ h => nomatch h
  have hrun : ((start .empty).run f as).Proper f ∧ ((start .empty).run f as).Legal :=
    run_induction (P := fun w => w.Proper f ∧ w.Legal)
      (fun hs ok h => ⟨h.1.step hmax hs, h.1.legal_step hs ok h.2⟩) (along_of_forall hall _)
      ⟨.start f, hstart⟩
  exact hrun.2

/-- What can be said of every run. -/
structure Orderly (f : Fleet) (as : List Action) : Prop where
  stored : ∀ {id v}, ((start .empty).run f as).store.get? id = some v → v.WellFormed f.policy
  /-- Nothing that is fetched is in a terminal state, and nothing else is sent. -/
  fetched : ∀ {k r}, FetchedIn f as k r → r.state = .pending
  sent : ∀ {k id m}, .handedOver k id m ∈ ((start .empty).run f as).history →
    ∃ r, FetchedIn f as k r ∧ r.id = id ∧ r.message = m
  /-- No pass ends with an illegal transition, unless a faulty store comes up with that error. -/
  legal : (∀ k e, .call k (some e) ∈ as → e.isInvalidTransition = false) →
    ∀ {k e}, ((start .empty).run f as).pass k = .finished (.error e) → e.isInvalidTransition = false

theorem run_orderly {c : Config} (hc : c.validate = .ok ()) (machine : Nat → MachineId)
    (as : List Action) : Orderly ⟨machine, c.retrialPolicy⟩ as := by
  have hmax := fun he => Config.max_pos hc he
  constructor
  · intro id v hv
    exact (Proper.run (f := ⟨machine, c.retrialPolicy⟩) hmax as).stored (Store.mem_of_get? hv)
  · rintro k r ⟨before, after, n, -, -, hr⟩
    exact (Proper.run (f := ⟨machine, c.retrialPolicy⟩) hmax before).pending_of_fetch hr
  · exact (fetchedIn_of_copy _ as).2
  · intro hok k e hp
    exact legal_run (f := ⟨machine, c.retrialPolicy⟩) hmax hok k e (by rw [hp]; rfl)

/-- Two workers of one name fetch the same record. The first uses up its only attempt, and the second,
whose copy is older, has its message accepted and cannot save that at first. -/
def contested (id : RecordId) (now : Instant) : List Action :=
  [.begin 0, .publish 0 id default now none, .commit 0,
    .start 0, .read 0 now, .call 0 none, .call 0 none,
    .start 1, .read 1 now, .call 1 none, .call 1 none,
    .read 0 now, .handOver 0, .answer 0 (.error { message := "nack" }), .call 0 none, .call 0 none,
    .read 1 now, .handOver 1, .answer 1 (.ok ()), .read 1 now, .call 1 (some (Fault.injected "down")),
    .call 1 none]

theorem orderly_contested : ({ retrialPolicy := .limited 1 } : Config).validate = .ok () ∧
    Orderly ⟨fun _ => ⟨"m"⟩, .limited 1⟩ (contested (.nth 1) default) := by
  have hc : ({ retrialPolicy := .limited 1 } : Config).validate = .ok () := by decide
  exact ⟨hc, run_orderly hc (fun _ => ⟨"m"⟩) (contested (.nth 1) default)⟩

end World

end Outbox

import Outbox.Proofs.Fleet.Copies
import Outbox.Proofs.Fleet.Publication

/-!
# Nothing is lost

Whatever the broker answers, whichever calls fail and wherever passes are cut off, a committed record
stays in the store until a sweep is entitled to delete it, and its state is one that it came by.
-/

namespace Outbox

open Function (update)

/-- The same record at another time: what was published is the same. -/
def Record.VersionOf (v r : Record) : Prop :=
  v.id = r.id ∧ v.message = r.message ∧ v.createdOn = r.createdOn

namespace World

variable (f : Fleet) (w : World)

def Accepted (id : RecordId) (m : Message) : Prop := ∃ k, .answered k id m (.ok ()) ∈ w.history

/-- A version of a committed record, in a state that it came by. -/
structure Backed (v : Record) : Prop where
  origin : ∃ r, .committed r ∈ w.history ∧ v.VersionOf r
  delivered : v.state = .delivered → w.Accepted v.id v.message
  exhausted : v.state = .exhausted → f.policy.enabled = true ∧ f.policy.max ≤ v.attempts

/-- Copies are backed as well as what is stored, since they will be stored. -/
structure Sound : Prop where
  fresh : Fresh w
  published : ∀ {r}, .committed r ∈ w.history → r = .new r.id r.message r.createdOn
  stored : ∀ {v}, v ∈ w.store.records → w.Backed f v
  copies : ∀ {k r}, r ∈ (w.pass k).copies → w.Backed f r
  accepted : ∀ {k report r rest}, w.pass k = .accepted report r rest → w.Accepted r.id r.message
  kept : ∀ {r}, .committed r ∈ w.history →
    (w.store.get? r.id).isSome ∨ ∃ s now v, .removed s now v ∈ w.history ∧ v.id = r.id
  removed : ∀ {s now v}, .removed s now v ∈ w.history → w.Backed f v ∧
    ∃ age finishedOnly, s = .cleaning age finishedOnly ∧
      Store.Outdated (now.before age) finishedOnly v = true

end World

namespace World.Backed

variable {f : Fleet} {w w' : World} {a : Action} {v u : Record}

theorem mono (hs : Step f w a w') (h : w.Backed f v) : w'.Backed f v := by
  obtain ⟨r, hr, hv⟩ := h.origin
  constructor
  · exact ⟨r, hs.history_subset hr, hv⟩
  · intro hd
    obtain ⟨k, hk⟩ := h.delivered hd
    exact ⟨k, hs.history_subset hk⟩
  · exact h.exhausted

theorem startAttempt {now : Instant} (h : w.Backed f u) (hv : u.startAttempt now = some v) :
    w.Backed f v := by
  obtain ⟨-, rfl⟩ := Record.startAttempt_eq_some_iff.1 hv
  exact ⟨h.origin, h.delivered, fun he => ⟨(h.exhausted he).1, Nat.le_succ_of_le (h.exhausted he).2⟩⟩

theorem markDelivered {now : Instant} (h : w.Backed f u) (ha : w.Accepted u.id u.message)
    (hv : u.markDelivered now = .ok v) : w.Backed f v := by
  obtain ⟨-, rfl⟩ := Record.markDelivered_eq_ok_iff.1 hv
  exact ⟨h.origin, fun _ => ha, fun he => nomatch he⟩

theorem markFailed {e : String} (h : w.Backed f u) (hv : u.markFailed e f.policy = .ok v) :
    w.Backed f v := by
  obtain ⟨-, rfl⟩ := Record.markFailed_eq_ok_iff.1 hv
  refine ⟨h.origin, fun hd => ?_, fun he => Record.enabled_of_stateAfterFailure he⟩
  exact absurd hd Record.stateAfterFailure_ne_delivered

end World.Backed

namespace World.Sound

variable {f : Fleet} {w w' : World} {a : Action}

theorem start : (World.start .empty).Sound f where
  fresh := .start .empty
  published h := nomatch h
  stored h := nomatch h
  copies h := nomatch h
  accepted h := nomatch h
  kept h := nomatch h
  removed h := nomatch h

theorem published_step (hs : Step f w a w') (h : w.Sound f) {r : Record}
    (hr : .committed r ∈ w'.history) : r = .new r.id r.message r.createdOn := by
  cases hs with
  | committed ht =>
      rcases List.mem_append.1 hr with hr | hr
      · obtain ⟨r, hm, ⟨⟩⟩ := List.mem_map.1 hr
        exact h.fresh.staged_new ht hm
      · exact h.published hr
  | _ => exact h.published (by simpa using hr)

theorem stored_step (hs : Step f w a w') (h : w.Sound f) {v : Record} (hv : v ∈ w'.store.records) :
    w'.Backed f v := by
  rcases hs.stored_cases (Store.get?_of_mem hv) with
    ⟨u, lock, hu, rfl⟩ | ⟨k, report, failure, rest, hp, -⟩ | ⟨hc, tx, t, ht, hm⟩
  · obtain ⟨horigin, hdelivered, hexhausted⟩ := (h.stored (Store.mem_of_get? hu)).mono hs
    exact ⟨horigin, hdelivered, hexhausted⟩
  · exact (h.copies (k := k) (by rw [hp]; exact Pass.mem_copies.2 (Or.inl rfl))).mono hs
  · have hnew : v.state = .pending := by rw [h.fresh.staged_new ht hm]; rfl
    exact ⟨⟨v, hc, rfl, rfl, rfl⟩, by simp [hnew], by simp [hnew]⟩

theorem copies_step (hs : Step f w a w') (h : w.Sound f) {k : Nat} {r : Record}
    (hr : r ∈ (w'.pass k).copies) : w'.Backed f r := by
  suffices hb : w.Backed f r from hb.mono hs
  rcases Pass.mem_copies.1 hr with hr | hr
  · have backed : ∀ {u}, (w.pass k).underWay? = some u → w.Backed f u :=
      fun hu => h.copies (Pass.mem_copies.2 (Or.inl hu))
    rcases hs.underWay_cases hr with hr | ⟨report, u, rest, now, hp, he⟩ |
      ⟨report, u, rest, now, hp, he⟩ | ⟨report, u, rest, e, hp, he⟩
    · exact backed hr
    · have hu : u ∈ (w.pass k).untried := by rw [hp]; exact List.mem_cons_self
      exact (h.copies (Pass.mem_copies.2 (Or.inr hu))).startAttempt he
    · exact (backed (by rw [hp]; rfl)).markDelivered (h.accepted hp) he
    · exact (backed (by rw [hp]; rfl)).markFailed he
  · rcases hs.untried_cases hr with hr | ⟨n, -, hr⟩
    · exact h.copies (Pass.mem_copies.2 (Or.inr hr))
    · exact h.stored (Store.mem_fetch.1 hr).1

theorem accepted_step (hs : Step f w a w') (h : w.Sound f) {k : Nat} {report : Report} {r : Record}
    {rest : List Record} (hp : w'.pass k = .accepted report r rest) : w'.Accepted r.id r.message := by
  have old : w.pass k = .accepted report r rest → w'.Accepted r.id r.message := by
    intro hp
    obtain ⟨j, hj⟩ := h.accepted hp
    exact ⟨j, hs.history_subset hj⟩
  have moved : ∀ {j p}, update w.pass j p k = .accepted report r rest →
      w.pass k = .accepted report r rest ∨ (j = k ∧ p = .accepted report r rest) :=
    Step.of_update (P := fun q => q = .accepted report r rest)
  cases hs with
  | still | begun | wasted | added | committed | dropped | expired | cleaned | handedOver => exact old hp
  | @accepted j =>
      rcases moved hp with hp | ⟨-, he⟩
      · exact old hp
      · cases he; exact ⟨j, List.mem_cons_self⟩
  | fetched =>
      rcases moved hp with hp | ⟨-, he⟩
      · exact old hp
      · have hu := congrArg Pass.underWay? he
        rw [Pass.underWay?_proceed] at hu
        cases hu
  | saved =>
      rcases moved hp with hp | ⟨-, he⟩
      · exact old hp
      · have hu := congrArg Pass.underWay? he
        rw [Pass.underWay?_saved] at hu
        cases hu
  | _ =>
      rcases moved hp with hp | ⟨-, he⟩
      · exact old hp
      · cases he

theorem removed_step (hs : Step f w a w') (h : w.Sound f) {s : Sweep} {now : Instant} {v : Record}
    (hv : .removed s now v ∈ w'.history) : w'.Backed f v ∧
      ∃ age finishedOnly, s = .cleaning age finishedOnly ∧
        Store.Outdated (now.before age) finishedOnly v = true := by
  have old : .removed s now v ∈ w.history → w'.Backed f v ∧
      ∃ age finishedOnly, s = .cleaning age finishedOnly ∧
        Store.Outdated (now.before age) finishedOnly v = true := by
    intro hv
    obtain ⟨hb, ho⟩ := h.removed hv
    exact ⟨hb.mono hs, ho⟩
  cases hs with
  | @cleaned age finishedOnly now' =>
      rcases List.mem_append.1 hv with hv | hv
      · obtain ⟨v, hm, ⟨⟩⟩ := List.mem_map.1 hv
        obtain ⟨hm, ho⟩ := List.mem_filter.1 hm
        exact ⟨(h.stored hm).mono .cleaned, age, finishedOnly, rfl, ho⟩
      · exact old hv
  | _ => exact old (by simpa using hv)

theorem kept_step (hs : Step f w a w') (h : w.Sound f) {r : Record} (hr : .committed r ∈ w'.history) :
    (w'.store.get? r.id).isSome ∨ ∃ s now v, .removed s now v ∈ w'.history ∧ v.id = r.id := by
  -- All but commits and cleaning sweeps leave the ids in the store alone.
  have old : (∀ id, (w.store.get? id).isSome → (w'.store.get? id).isSome) → .committed r ∈ w.history →
      (w'.store.get? r.id).isSome ∨ ∃ s now v, .removed s now v ∈ w'.history ∧ v.id = r.id := by
    intro hst hr
    rcases h.kept hr with hk | ⟨s, now, v, hv, he⟩
    · exact Or.inl (hst r.id hk)
    · exact Or.inr ⟨s, now, v, hs.history_subset hv, he⟩
  cases hs with
  | @committed tx t ht new =>
      rcases List.mem_append.1 hr with hr | hr
      · obtain ⟨r, hm, ⟨⟩⟩ := List.mem_map.1 hr
        exact Or.inl (by rw [Store.get?_putAll_of_mem (h.fresh.staged_nodup ht) hm]; rfl)
      · refine old (fun id hid => ?_) hr
        have hne : ∀ r ∈ t.staged, r.id ≠ id := by
          rintro r hm rfl
          simp [new r hm] at hid
        rwa [Store.get?_putAll_of_not_mem hne]
  | @cleaned age finishedOnly now =>
      have hr : .committed r ∈ w.history := by simpa using hr
      rcases h.kept hr with hk | ⟨s, now, v, hv, he⟩
      · obtain ⟨v, hv⟩ := Option.isSome_iff_exists.1 hk
        cases ho : Store.Outdated (now.before age) finishedOnly v with
        | false => exact Or.inl (by simp [hv, ho])
        | true =>
            have hm : v ∈ w.store.records.filter (Store.Outdated (now.before age) finishedOnly) :=
              List.mem_filter.2 ⟨Store.mem_of_get? hv, ho⟩
            exact Or.inr ⟨_, _, v, List.mem_append_left _ (List.mem_map_of_mem hm), Store.id_of_get? hv⟩
      · exact Or.inr ⟨s, now, v, List.mem_append_right _ hv, he⟩
  | @saved k report r' failure rest v hp hv =>
      refine old (fun id hid => ?_) (by simpa using hr)
      rw [Store.get?_save]
      split <;> simpa using hid
  | _ => exact old (by simp) (by simpa using hr)

theorem step (hs : Step f w a w') (h : w.Sound f) : w'.Sound f where
  fresh := h.fresh.step hs
  published := h.published_step hs
  stored := h.stored_step hs
  copies := h.copies_step hs
  accepted := h.accepted_step hs
  kept := h.kept_step hs
  removed := h.removed_step hs

theorem run (as : List Action) : ((World.start .empty).run f as).Sound f :=
  World.run_induction (fun hs _ h => h.step hs) (World.along_true ..) start

end World.Sound

namespace World

/-- What can be said of every committed record in the world that a run from an empty store comes to. -/
structure NoLoss (f : Fleet) (as : List Action) (w : World) : Prop where
  /-- A record is committed if and only if a publish of its message, under its id and at the time of its creation,
  has succeeded in a transaction that was then committed. -/
  committed : ∀ {r}, .committed r ∈ w.history ↔ (start .empty).Published f r as
  /-- Records are published pending, unlocked and untried. -/
  published : ∀ {r}, .committed r ∈ w.history → r = .new r.id r.message r.createdOn
  /-- What is stored was committed, and there is at most one record with its id. -/
  genuine : ∀ {id v}, w.store.get? id = some v → ∃ r, .committed r ∈ w.history ∧ v.VersionOf r
  unique : ∀ {r r'}, .committed r ∈ w.history → .committed r' ∈ w.history → r.id = r'.id → r = r'
  /-- A committed record is stored as it was published, or a cleaning sweep has deleted it: it was old
  enough, and finished if the sweep was for finished records only. -/
  kept : ∀ {r}, .committed r ∈ w.history → (∃ v, w.store.get? r.id = some v ∧ v.VersionOf r) ∨
    ∃ age finishedOnly now v, .removed (.cleaning age finishedOnly) now v ∈ w.history ∧ v.VersionOf r ∧
      r.createdOn < now.before age ∧ (finishedOnly = true → v.state.isTerminal = true)
  delivered : ∀ {id v}, w.store.get? id = some v → v.state = .delivered → w.Accepted id v.message
  exhausted : ∀ {id v}, w.store.get? id = some v → v.state = .exhausted →
    f.policy.enabled = true ∧ f.policy.max ≤ v.attempts
  /-- While all cleaning is for finished records only, each committed record is still to be delivered,
  or its message was accepted, or it was given up after all the attempts that the policy grants. -/
  settled : (∀ age now v, .removed (.cleaning age false) now v ∉ w.history) →
    ∀ {r}, .committed r ∈ w.history →
      (∃ v, w.store.get? r.id = some v ∧ v.VersionOf r ∧ v.state = .pending) ∨
      w.Accepted r.id r.message ∨
      (f.policy.enabled = true ∧ ∃ v, v.VersionOf r ∧ v.state = .exhausted ∧ f.policy.max ≤ v.attempts ∧
        (w.store.get? r.id = some v ∨ ∃ age now, .removed (.cleaning age true) now v ∈ w.history))

namespace Sound

variable {f : Fleet} {w : World}

theorem versionOf (h : w.Sound f) {v r : Record} (hv : w.Backed f v) (hr : .committed r ∈ w.history)
    (he : v.id = r.id) : v.VersionOf r := by
  obtain ⟨u, hu, hvu⟩ := hv.origin
  rwa [h.fresh.committed_unique hr hu (he.symm.trans hvu.1)]

theorem kept_or_removed (h : w.Sound f) {r : Record} (hr : .committed r ∈ w.history) :
    (∃ v, w.store.get? r.id = some v ∧ v.VersionOf r) ∨
      ∃ age finishedOnly now v, .removed (.cleaning age finishedOnly) now v ∈ w.history ∧
        v.VersionOf r ∧ r.createdOn < now.before age ∧
        (finishedOnly = true → v.state.isTerminal = true) := by
  rcases h.kept hr with hk | ⟨s, now, v, hv, he⟩
  · obtain ⟨v, hv⟩ := Option.isSome_iff_exists.1 hk
    exact Or.inl ⟨v, hv, h.versionOf (h.stored (Store.mem_of_get? hv)) hr (Store.id_of_get? hv)⟩
  · obtain ⟨hb, age, finishedOnly, rfl, ho⟩ := h.removed hv
    have hver := h.versionOf hb hr he
    simp only [Store.Outdated, Store.CreatedBefore, Bool.and_eq_true, Bool.or_eq_true,
      Bool.not_eq_true', decide_eq_true_eq, hver.2.2] at ho
    refine Or.inr ⟨age, finishedOnly, now, v, hv, hver, ho.1, fun hf => ?_⟩
    exact ho.2.resolve_left (by simp [hf])

theorem settled (h : w.Sound f)
    (finished : ∀ age now v, .removed (.cleaning age false) now v ∉ w.history) {r : Record}
    (hr : .committed r ∈ w.history) :
    (∃ v, w.store.get? r.id = some v ∧ v.VersionOf r ∧ v.state = .pending) ∨
      w.Accepted r.id r.message ∨
      (f.policy.enabled = true ∧ ∃ v, v.VersionOf r ∧ v.state = .exhausted ∧ f.policy.max ≤ v.attempts ∧
        (w.store.get? r.id = some v ∨ ∃ age now, .removed (.cleaning age true) now v ∈ w.history)) := by
  rcases h.kept_or_removed hr with ⟨v, hv, hver⟩ | ⟨age, finishedOnly, now, v, hv, hver, -, hfin⟩
  · have hb := h.stored (Store.mem_of_get? hv)
    cases hst : v.state with
    | pending => exact Or.inl ⟨v, hv, hver, hst⟩
    | delivered => exact Or.inr (Or.inl (hver.1 ▸ hver.2.1 ▸ hb.delivered hst))
    | exhausted =>
        obtain ⟨hen, hmax⟩ := hb.exhausted hst
        exact Or.inr (Or.inr ⟨hen, v, hver, hst, hmax, Or.inl hv⟩)
  · have hb := (h.removed hv).1
    cases finishedOnly with
    | false => exact absurd hv (finished age now v)
    | true =>
        cases hst : v.state with
        | pending => simp [hst, State.isTerminal] at hfin
        | delivered => exact Or.inr (Or.inl (hver.1 ▸ hver.2.1 ▸ hb.delivered hst))
        | exhausted =>
            obtain ⟨hen, hmax⟩ := hb.exhausted hst
            exact Or.inr (Or.inr ⟨hen, v, hver, hst, hmax, Or.inr ⟨age, now, hv⟩⟩)

end Sound

/-- Delivery is at least once, in every run from an empty store. -/
theorem run_noLoss (f : Fleet) (as : List Action) : NoLoss f as ((start .empty).run f as) := by
  have h : ((start .empty).run f as).Sound f := .run as
  constructor
  · exact (published_run f as).2
  · exact h.published
  · intro id v hv
    exact (h.stored (Store.mem_of_get? hv)).origin
  · exact h.fresh.committed_unique
  · exact h.kept_or_removed
  · intro id v hv hst
    exact Store.id_of_get? hv ▸ (h.stored (Store.mem_of_get? hv)).delivered hst
  · intro id v hv
    exact (h.stored (Store.mem_of_get? hv)).exhausted
  · exact h.settled

end World

end Outbox

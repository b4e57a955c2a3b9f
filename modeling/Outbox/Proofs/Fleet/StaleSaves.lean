import Outbox.Proofs.Fleet.Copies

/-!
# Stale saves

A save puts a pass's copy over whatever is stored. It is stale when the record was saved by another
pass after the copy was fetched; a run keeps the progress of its records if and only if it has none.
-/

namespace Outbox

open Function (update)

/-! ## Progress -/

def Occurrence.IsSave (id : RecordId) : Occurrence → Bool
  | saved _ r => r.id = id
  | _ => false

def Occurrence.IsFetch (k : Nat) : Occurrence → Bool
  | fetched j => j = k
  | _ => false

namespace World

/-- How many attempts at the record had their outcome stored. -/
def saves (w : World) (id : RecordId) : Nat := w.history.countP (Occurrence.IsSave id)

def savesSince (w : World) (k : Nat) (id : RecordId) : Nat :=
  (w.history.takeWhile fun o => !o.IsFetch k).countP (Occurrence.IsSave id)

/-- From one world to a later one, terminal states stay, and attempts grow by those that were saved. -/
structure Progress (w₁ w₂ : World) : Prop where
  terminal : ∀ {id v₁ v₂}, w₁.store.get? id = some v₁ → w₂.store.get? id = some v₂ →
    v₁.state.isTerminal = true → v₂.state = v₁.state
  attempts_le : ∀ {id v₁ v₂}, w₁.store.get? id = some v₁ → w₂.store.get? id = some v₂ →
    v₁.attempts ≤ v₂.attempts
  counted : ∀ {id v₁ v₂}, w₁.store.get? id = some v₁ → w₂.store.get? id = some v₂ →
    v₂.attempts + w₁.saves id = v₁.attempts + w₂.saves id

def Saving (w : World) (a : Action) (k : Nat) (r : Record) : Prop :=
  a = .call k none ∧ (∃ report failure rest, w.pass k = .saving report r failure rest) ∧
    (w.store.get? r.id).isSome

def StaleSave (w : World) (a : Action) : Prop := ∃ k r, w.Saving a k r ∧ 0 < w.savesSince k r.id

end World

/-! ## What was read -/

/-- What a batch was told of the progress of a record. -/
structure Reading where
  id : RecordId
  state : State
  attempts : Nat

def Record.reading (r : Record) : Reading := ⟨r.id, r.state, r.attempts⟩

namespace Pass

/-- What the copies of a pass were like when they were fetched. A copy with an outcome was pending. -/
def readings : Pass → List Reading
  | starting _ r rest => (r :: rest).map Record.reading
  | sending _ r rest | accepted _ r rest => ⟨r.id, r.state, r.attempts - 1⟩ :: rest.map Record.reading
  | saving _ r _ rest => ⟨r.id, .pending, r.attempts - 1⟩ :: rest.map Record.reading
  | _ => []

@[simp] theorem readings_proceed {report : Report} {rest : List Record} :
    (proceed report rest).readings = rest.map Record.reading := by
  cases rest <;> rfl

theorem readings_saved {report : Report} {r : Record} {failure : Option BrokerError}
    {rest : List Record} :
    (saved report r failure rest (.ok ())).1.readings ⊆ (saving report r failure rest).readings := by
  cases failure with
  | none =>
      have he : (saved report r none rest (.ok ())).1.readings = rest.map Record.reading :=
        readings_proceed
      rw [he]
      exact List.subset_cons_self ..
  | some e => simp [saved, readings]

end Pass

def Occurrence.IsSilent : Occurrence → Bool
  | fetched _ | saved _ _ => false
  | _ => true

structure World.Quiet (w w' : World) : Prop where
  silent : ∃ os, w'.history = os ++ w.history ∧ ∀ o ∈ os, o.IsSilent = true
  readings : ∀ k, (w'.pass k).readings ⊆ (w.pass k).readings

namespace World.Quiet

variable {f : Fleet} {w w' : World} {a : Action}

theorem countP_isSave_of_silent {os : List Occurrence} (hos : ∀ o ∈ os, o.IsSilent = true)
    (id : RecordId) : os.countP (Occurrence.IsSave id) = 0 := by
  refine List.countP_eq_zero.2 fun o ho hs => ?_
  have := hos o ho
  cases o <;> simp_all [Occurrence.IsSilent, Occurrence.IsSave]

theorem saves_eq (h : w.Quiet w') (id : RecordId) : w'.saves id = w.saves id := by
  obtain ⟨os, he, hos⟩ := h.silent
  rw [saves, saves, he, List.countP_append, countP_isSave_of_silent hos, Nat.zero_add]

theorem savesSince_eq (h : w.Quiet w') (k : Nat) (id : RecordId) :
    w'.savesSince k id = w.savesSince k id := by
  obtain ⟨os, he, hos⟩ := h.silent
  have hall : ∀ o ∈ os, (!o.IsFetch k) = true := by
    intro o ho
    have := hos o ho
    cases o <;> simp_all [Occurrence.IsSilent, Occurrence.IsFetch]
  rw [savesSince, savesSince, he, List.takeWhile_append_of_pos hall, List.countP_append,
    countP_isSave_of_silent hos, Nat.zero_add]

theorem stored (hq : w.Quiet w') (hs : Step f w a w') (h : Fresh w) {id : RecordId} {v' : Record}
    (hc : w.Committed id) (hv : w'.store.get? id = some v') :
    ∃ v, w.store.get? id = some v ∧ v'.state = v.state ∧ v'.attempts = v.attempts := by
  obtain rfl := Store.id_of_get? hv
  rcases hs.stored_cases hv with ⟨v, lock, hv, rfl⟩ | ⟨k, report, failure, rest, -, -, hh⟩ |
    ⟨-, tx, t, ht, hm⟩
  · exact ⟨v, hv, rfl, rfl⟩
  · obtain ⟨os, ho, hos⟩ := hq.silent
    have he : os = [.saved k v'] := List.append_cancel_right (ho.symm.trans hh)
    cases hos (.saved k v') (by simp [he])
  · exact absurd hc (h.uncommitted ht hm)

end World.Quiet

namespace Step

variable {f : Fleet} {w w' : World} {a : Action}

theorem readings_update {j : Nat} {p : Pass} (hp : p.readings ⊆ (w.pass j).readings) (k : Nat) :
    (update w.pass j p k).readings ⊆ (w.pass k).readings := by
  rw [Function.update_apply]
  split
  · rename_i he; rw [he]; exact hp
  · exact List.Subset.refl _

theorem readings_update_nil {j : Nat} {p : Pass} (hp : p.readings = []) (k : Nat) :
    (update w.pass j p k).readings ⊆ (w.pass k).readings :=
  readings_update (by rw [hp]; exact List.nil_subset _) k

/-- Starting an attempt, and putting an outcome on the copy, leaves the reading as it was. -/
theorem save_fetch_or_quiet (hs : Step f w a w') :
    (∃ k report r failure rest v, a = .call k none ∧ w.pass k = .saving report r failure rest ∧
        w.store.get? r.id = some v ∧
        w' = { w with
          store := w.store.save r
          pass := update w.pass k (Pass.saved report r failure rest (.ok ())).1
          history := .saved k r :: w.history }) ∨
      (∃ k n, w' = { w with
          pass := update w.pass k (.proceed ⟨n, 0⟩ (w.store.fetch (f.machine k)))
          history := .fetched k :: w.history }) ∨
      w.Quiet w' := by
  have refl : ∀ k, (w.pass k).readings ⊆ (w.pass k).readings := fun k => List.Subset.refl _
  have nothing : ∃ os, w.history = os ++ w.history ∧ ∀ o ∈ os, o.IsSilent = true := ⟨[], rfl, by simp⟩
  have one : ∀ {o : Occurrence}, o.IsSilent = true →
      ∃ os, o :: w.history = os ++ w.history ∧ ∀ o ∈ os, o.IsSilent = true :=
    fun {o} ho => ⟨[o], rfl, by simpa using ho⟩
  have each : ∀ {rs : List Record} {g : Record → Occurrence}, (∀ r, (g r).IsSilent = true) →
      ∃ os, rs.map g ++ w.history = os ++ w.history ∧ ∀ o ∈ os, o.IsSilent = true :=
    fun {rs g} hg => ⟨rs.map g, rfl, by simpa using fun r _ => hg r⟩
  cases hs with
  | saved hp hv => exact Or.inl ⟨_, _, _, _, _, _, rfl, hp, hv, rfl⟩
  | fetched => exact Or.inr (Or.inl ⟨_, _, rfl⟩)
  | still | begun | wasted | added | dropped | expired => exact Or.inr (Or.inr ⟨nothing, refl⟩)
  | committed | cleaned => exact Or.inr (Or.inr ⟨each fun _ => rfl, refl⟩)
  | handedOver => exact Or.inr (Or.inr ⟨one rfl, refl⟩)
  | barredFailure => exact Or.inr (Or.inr ⟨one rfl, readings_update_nil rfl⟩)
  | attempted hp hr =>
      obtain ⟨-, rfl⟩ := Record.startAttempt_eq_some_iff.1 hr
      refine Or.inr (Or.inr ⟨nothing, readings_update ?_⟩)
      rw [hp]
      exact List.Subset.refl _
  | accepted hp =>
      refine Or.inr (Or.inr ⟨one rfl, readings_update ?_⟩)
      rw [hp]
      exact List.Subset.refl _
  | refused hp ha hr =>
      obtain ⟨hpending, rfl⟩ := Record.markFailed_eq_ok_iff.1 hr
      refine Or.inr (Or.inr ⟨one rfl, readings_update ?_⟩)
      rw [hp, Pass.readings, Pass.readings, hpending]
      exact List.Subset.refl _
  | delivered hp hr =>
      obtain ⟨hpending, rfl⟩ := Record.markDelivered_eq_ok_iff.1 hr
      refine Or.inr (Or.inr ⟨nothing, readings_update ?_⟩)
      rw [hp, Pass.readings, Pass.readings, hpending]
      exact List.Subset.refl _
  | _ => exact Or.inr (Or.inr ⟨nothing, readings_update_nil rfl⟩)

end Step

/-! ## Runs without stale saves -/

/-- A copy lags behind the store by what was saved since it was fetched. -/
structure Current (w : World) : Prop where
  fresh : Fresh w
  known : ∀ {k c}, c ∈ (w.pass k).readings → w.Committed c.id
  tried : ∀ {k r}, (w.pass k).underWay? = some r → 0 < r.attempts
  lag : ∀ {k c v}, c ∈ (w.pass k).readings → w.store.get? c.id = some v →
    v.attempts = c.attempts + w.savesSince k c.id ∧ (w.savesSince k c.id = 0 → v.state = c.state)

namespace Current

variable {f : Fleet} {w w' : World} {a : Action}

theorem start (s : Store) : Current (.start s) where
  fresh := .start s
  known h := nomatch h
  tried h := nomatch h
  lag h := nomatch h

theorem lag_of_saving (h : Current w) {k : Nat} {report : Report} {r v : Record}
    {failure : Option BrokerError} {rest : List Record} (hp : w.pass k = .saving report r failure rest)
    (hv : w.store.get? r.id = some v) :
    v.attempts + 1 = r.attempts + w.savesSince k r.id ∧
      (w.savesSince k r.id = 0 → v.state = .pending) := by
  have hpos : 0 < r.attempts := h.tried (k := k) (by rw [hp]; rfl)
  have hmem : (⟨r.id, .pending, r.attempts - 1⟩ : Reading) ∈ (w.pass k).readings := by
    rw [hp]; exact List.mem_cons_self
  obtain ⟨hlag, hst⟩ := h.lag hmem hv
  exact ⟨by dsimp only at hlag; omega, hst⟩

theorem known_step (hs : Step f w a w') (h : Current w) {k : Nat} {c : Reading}
    (hc : c ∈ (w'.pass k).readings) : w'.Committed c.id := by
  suffices hk : w.Committed c.id from hs.committed_mono hk
  rcases hs.save_fetch_or_quiet with
    ⟨j, report, r, failure, rest, v, -, hp, -, rfl⟩ | ⟨j, n, rfl⟩ | hq
  · exact h.known (Step.readings_update (by rw [hp]; exact Pass.readings_saved) k hc)
  · dsimp only at hc
    rw [Function.update_apply] at hc
    split at hc
    · rw [Pass.readings_proceed] at hc
      obtain ⟨r, hr, rfl⟩ := List.mem_map.1 hc
      have hm : r ∈ w.store.records := (Store.mem_fetch.1 hr).1
      exact h.fresh.stored_committed (by rw [Record.reading, Store.get?_of_mem hm]; rfl)
    · exact h.known hc
  · exact h.known (hq.readings k hc)

theorem tried_step (hs : Step f w a w') (h : Current w) {k : Nat} {r : Record}
    (hr : (w'.pass k).underWay? = some r) : 0 < r.attempts := by
  rcases hs.underWay_origin hr with ⟨u, -, -, he⟩ | ⟨u, hu, -, he⟩
  · rw [he]; exact Nat.succ_pos _
  · rw [he]; exact h.tried hu

theorem lag_step (hs : Step f w a w') (ok : ¬ w.StaleSave a) (h : Current w) {k : Nat} {c : Reading}
    {v : Record} (hc : c ∈ (w'.pass k).readings) (hv : w'.store.get? c.id = some v) :
    v.attempts = c.attempts + w'.savesSince k c.id ∧
      (w'.savesSince k c.id = 0 → v.state = c.state) := by
  rcases hs.save_fetch_or_quiet with
    ⟨j, report, r, failure, rest, u, rfl, hp, hu, rfl⟩ | ⟨j, n, rfl⟩ | hq
  -- The store and the count of saves both go up by one, for every copy of the saved record.
  · have hc : c ∈ (w.pass k).readings :=
      Step.readings_update (by rw [hp]; exact Pass.readings_saved) k hc
    have hsince : w.savesSince j r.id = 0 := by
      by_contra hne
      exact ok ⟨j, r, ⟨rfl, ⟨_, _, _, hp⟩, by rw [hu]; rfl⟩, Nat.pos_of_ne_zero hne⟩
    have hru : u.attempts + 1 = r.attempts := by
      have := (h.lag_of_saving hp hu).1
      omega
    dsimp only at hv
    rw [Store.get?_save] at hv
    by_cases he : r.id = c.id
    · rw [if_pos he] at hv
      obtain ⟨-, -, rfl⟩ := Option.map_eq_some_iff.1 hv
      have hlag := (h.lag hc (he ▸ hu)).1
      simp only [World.savesSince] at hlag ⊢
      simp only [List.takeWhile_cons, Occurrence.IsFetch, Bool.not_false, if_true, List.countP_cons,
        Occurrence.IsSave, he, decide_true] at hlag ⊢
      exact ⟨by omega, by omega⟩
    · rw [if_neg he] at hv
      have hlag := h.lag hc hv
      simpa [World.savesSince, Occurrence.IsFetch, Occurrence.IsSave, he] using hlag
  -- A new batch is as the store is, and the count starts again.
  · dsimp only at hc hv
    rw [Function.update_apply] at hc
    split at hc
    · rename_i hk
      rw [Pass.readings_proceed] at hc
      obtain ⟨r, hr, rfl⟩ := List.mem_map.1 hc
      obtain rfl : r = v := Option.some.inj ((Store.get?_of_mem (Store.mem_fetch.1 hr).1).symm.trans hv)
      simp [World.savesSince, Occurrence.IsFetch, hk, Record.reading]
    · rename_i hk
      have hlag := h.lag hc hv
      simpa [World.savesSince, Occurrence.IsFetch, Occurrence.IsSave, Ne.symm hk] using hlag
  · have hc := hq.readings k hc
    obtain ⟨u, hu, hst, hat⟩ := hq.stored hs h.fresh (h.known hc) hv
    rw [hq.savesSince_eq, hst, hat]
    exact h.lag hc hu

theorem step (hs : Step f w a w') (ok : ¬ w.StaleSave a) (h : Current w) : Current w' where
  fresh := h.fresh.step hs
  known := h.known_step hs
  tried := h.tried_step hs
  lag := h.lag_step hs ok

end Current

namespace World

variable {f : Fleet} {w₀ w w' : World} {a : Action}

/-- What becomes of the progress from a fixed world on. Deleted records do not come back, since their
ids are used up. -/
structure Since (w₀ w : World) : Prop where
  progress : Progress w₀ w
  committed : ∀ {id}, (w₀.store.get? id).isSome → w.Committed id

theorem Since.refl (h : Fresh w) : Since w w where
  progress := by
    have same : ∀ {id v₁ v₂}, w.store.get? id = some v₁ → w.store.get? id = some v₂ → v₁ = v₂ :=
      fun h₁ h₂ => Option.some.inj (h₁.symm.trans h₂)
    constructor
    · intro id v₁ v₂ h₁ h₂ _; rw [same h₁ h₂]
    · intro id v₁ v₂ h₁ h₂; exact Nat.le_of_eq (by rw [same h₁ h₂])
    · intro id v₁ v₂ h₁ h₂; rw [same h₁ h₂]
  committed := h.stored_committed

theorem Progress.trans_of_eq {w₁ w₂ : World} (h : Progress w₀ w₁)
    (he : ∀ {id v₀ v₂}, w₀.store.get? id = some v₀ → w₂.store.get? id = some v₂ →
      ∃ v₁, w₁.store.get? id = some v₁ ∧ (v₁.state.isTerminal = true → v₂.state = v₁.state) ∧
        v₁.attempts ≤ v₂.attempts ∧ v₂.attempts + w₁.saves id = v₁.attempts + w₂.saves id) :
    Progress w₀ w₂ := by
  constructor
  · intro id v₀ v₂ h₀ h₂ ht
    obtain ⟨v₁, h₁, hst, -, -⟩ := he h₀ h₂
    have h₀₁ := h.terminal h₀ h₁ ht
    exact (hst (h₀₁ ▸ ht)).trans h₀₁
  · intro id v₀ v₂ h₀ h₂
    obtain ⟨v₁, h₁, -, hle, -⟩ := he h₀ h₂
    exact Nat.le_trans (h.attempts_le h₀ h₁) hle
  · intro id v₀ v₂ h₀ h₂
    obtain ⟨v₁, h₁, -, -, hc⟩ := he h₀ h₂
    have := h.counted h₀ h₁
    omega

theorem Since.step (hs : Step f w a w') (ok : ¬ w.StaleSave a) (hc : Current w) (h : Since w₀ w) :
    Since w₀ w' where
  committed hid := hs.committed_mono (h.committed hid)
  progress := by
    refine h.progress.trans_of_eq fun {id v₀ v'} h₀ hv => ?_
    rcases hs.save_fetch_or_quiet with
      ⟨k, report, r, failure, rest, u, rfl, hp, hu, rfl⟩ | ⟨k, n, rfl⟩ | hq
    · have hsince : w.savesSince k r.id = 0 := by
        by_contra hne
        exact ok ⟨k, r, ⟨rfl, ⟨_, _, _, hp⟩, by rw [hu]; rfl⟩, Nat.pos_of_ne_zero hne⟩
      obtain ⟨hlag, hst⟩ := hc.lag_of_saving hp hu
      dsimp only at hv
      rw [Store.get?_save] at hv
      by_cases he : r.id = id
      · rw [if_pos he] at hv
        obtain ⟨-, -, rfl⟩ := Option.map_eq_some_iff.1 hv
        refine ⟨u, he ▸ hu, ?_, by omega, ?_⟩
        · rw [hst hsince]; exact fun ht => nomatch ht
        · simp only [saves, List.countP_cons, Occurrence.IsSave, he, decide_true, if_true]
          omega
      · rw [if_neg he] at hv
        refine ⟨v', hv, fun _ => rfl, Nat.le_refl _, ?_⟩
        simp [saves, Occurrence.IsSave, he]
    · refine ⟨v', hv, fun _ => rfl, Nat.le_refl _, ?_⟩
      simp [saves, Occurrence.IsSave]
    · obtain ⟨v, hv, hst, hat⟩ := hq.stored hs hc.fresh (h.committed (by rw [h₀]; rfl)) hv
      exact ⟨v, hv, fun _ => hst, Nat.le_of_eq hat.symm, by rw [hat, hq.saves_eq]⟩

/-- The store takes over the attempts of a copy as they are, and those of the saves in between are
lost. -/
theorem not_progress_of_staleSave (hc : Current w) (h : w.StaleSave a) : ¬ Progress w (w.step f a) := by
  obtain ⟨k, r, ⟨rfl, ⟨report, failure, rest, hp⟩, hr⟩, hpos⟩ := h
  obtain ⟨v, hv⟩ := Option.isSome_iff_exists.1 hr
  have hs : w.step f (.call k none) =
      { w with
        store := w.store.save r
        pass := update w.pass k (Pass.saved report r failure rest (.ok ())).1
        history := .saved k r :: w.history } := by
    simp only [World.step, hp, Pass.next, Store.call, Store.perform, hv]
    rfl
  intro hprog
  have hnew : (w.step f (.call k none)).store.get? r.id = some r := by
    rw [hs, Store.get?_save, if_pos rfl, hv]
    rfl
  have hcount := hprog.counted hv hnew
  have hlag := (hc.lag_of_saving hp hv).1
  rw [hs] at hcount
  simp only [saves, List.countP_cons, Occurrence.IsSave, decide_true, if_true] at hcount
  omega

theorem since_of_mem_scanl {as : List Action} (hok : w.Along f (fun w a => ¬ w.StaleSave a) as)
    (hc : Current w) (h : Since w₀ w) : ∀ w' ∈ as.scanl (World.step f) w, Since w₀ w' := by
  have hall : ∀ w' ∈ as.scanl (World.step f) w, Current w' ∧ Since w₀ w' :=
    scanl_induction (P := fun w' => Current w' ∧ Since w₀ w')
      (fun hs ok h => ⟨h.1.step hs ok, h.2.step hs ok h.1⟩) hok ⟨hc, h⟩
  exact fun w' hw' => (hall w' hw').2

theorem progress_iff (hc : Current w) (as : List Action) :
    (as.scanl (World.step f) w).Pairwise Progress ↔ w.Along f (fun w a => ¬ w.StaleSave a) as := by
  induction as generalizing w with
  | nil => simp [Along]
  | cons a as ih =>
      rw [List.scanl_cons, List.pairwise_cons]
      constructor
      · rintro ⟨hhead, htail⟩
        have hmem : w.step f a ∈ as.scanl (World.step f) (w.step f a) := by
          cases as <;> simp
        have ok : ¬ w.StaleSave a := fun hstale => not_progress_of_staleSave hc hstale (hhead _ hmem)
        exact ⟨ok, (ih (hc.step (step_spec w a) ok)).1 htail⟩
      · rintro ⟨ok, hok⟩
        have hc' : Current (w.step f a) := hc.step (step_spec w a) ok
        refine ⟨fun w' hw' => ?_, (ih hc').2 hok⟩
        have hsince : Since w (w.step f a) := (Since.refl hc.fresh).step (step_spec w a) ok hc
        exact (since_of_mem_scanl hok hc' hsince w' hw').progress

theorem run_progress_iff_no_staleSave (f : Fleet) (s : Store) (as : List Action) :
    (as.scanl (World.step f) (start s)).Pairwise Progress ↔
      (start s).Along f (fun w a => ¬ w.StaleSave a) as :=
  progress_iff (.start s) as

/-- Worker 0 loses its lock while the broker has its message, and worker 1 delivers the record. -/
def overtaken (id : RecordId) (t : Instant) : List Action :=
  [.begin 0, .publish 0 id default default none, .commit 0,
    .start 0, .read 0 default, .call 0 none, .call 0 none, .read 0 default, .handOver 0,
    .sweep (.unlocking 0) t none,
    .start 1, .read 1 t, .call 1 none, .call 1 none, .read 1 t, .handOver 1, .answer 1 (.ok ()),
    .read 1 t, .call 1 none]

theorem stale_save_reopens_delivered : ¬ ∀ (f : Fleet) (s : Store) (as : List Action),
    Function.Injective f.machine → (as.scanl (World.step f) (start s)).Pairwise Progress := by
  intro h
  let f : Fleet := .numbered .unlimited
  let as : List Action := overtaken (.nth 1) ⟨1, by decide, by decide⟩
  let bs : List Action := [.answer 0 (.error { message := "nack" }), .call 0 none]
  have hp : Progress ((start .empty).run f as) ((start .empty).run f (as ++ bs)) := by
    have hpair := h f .empty (as ++ bs) (Fleet.numbered_injective _)
    have hget := List.pairwise_iff_getElem.1 hpair 19 21 (by decide) (by decide) (by decide)
    rw [List.getElem_scanl, List.getElem_scanl] at hget
    exact hget
  have h₁ : (((start .empty).run f as).store.get? (.nth 1)).map Record.state = some .delivered := by
    decide +kernel
  have h₂ : (((start .empty).run f (as ++ bs)).store.get? (.nth 1)).map Record.state =
      some .pending := by
    decide +kernel
  obtain ⟨v₁, hv₁, hd⟩ := Option.map_eq_some_iff.1 h₁
  obtain ⟨v₂, hv₂, hpending⟩ := Option.map_eq_some_iff.1 h₂
  have := hp.terminal hv₁ hv₂ (by rw [hd]; rfl)
  rw [hd, hpending] at this
  cases this

end World

end Outbox

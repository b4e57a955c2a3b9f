import Outbox.Proofs.Fleet.Custody
import Outbox.Proofs.Fleet.StaleSaves
import Outbox.Proofs.Fleet.WellFormed

/-!
# A worker on its own

The sweeps beside a single worker may release the locks of its batch and delete its records at any
moment. They do no harm: its passes follow one another, so that it saves no copy that is older than the
last save.
-/

namespace Outbox

open Function (update)

/-- Only worker 0 works, and its calls do not fail. Publishers and sweeps, of whatever age, do as they
please. -/
def Action.IsLone : Action → Prop
  | .start k | .read k _ | .handOver k | .answer k _ => k = 0
  | .call k fault => k = 0 ∧ fault = none
  | .crash _ => False
  | _ => True

/-! ## Sends that were followed by a save -/

namespace Occurrence

def IsSendBy (k : Nat) (id : RecordId) : Occurrence → Bool
  | handedOver j id' _ => j = k && id' = id
  | _ => false

def IsSaveBy (k : Nat) (id : RecordId) : Occurrence → Bool
  | saved j r => j = k && r.id = id
  | _ => false

/-- Whether worker `k` saves the record before its pass is over. `later` is what happens from here on,
the earliest first. -/
def savedIn (k : Nat) (id : RecordId) (later : List Occurrence) : Bool :=
  (later.takeWhile fun o => !o.IsFetch k).any (IsSaveBy k id)

def IsKept (id : RecordId) (later : List Occurrence) : Occurrence → Bool
  | handedOver k id' _ => id' = id && savedIn k id later
  | _ => false

/-- The sends of the record whose pass went on to save it, in a history and what came after it. -/
def keptSends (id : RecordId) : (later history : List Occurrence) → Nat
  | _, [] => 0
  | later, o :: os => (o.IsKept id later).toNat + keptSends id (o :: later) os

variable {k : Nat} {id : RecordId} {o : Occurrence} {later os : List Occurrence}

theorem isSaveBy_eq_false (h : o.IsSave id = false) : o.IsSaveBy k id = false := by
  cases o with
  | saved j r => simp only [IsSave, decide_eq_false_iff_not] at h; simp [IsSaveBy, h]
  | _ => rfl

theorem savedIn_append : savedIn k id (later ++ os) =
    (savedIn k id later || (later.all fun o => !o.IsFetch k) && savedIn k id os) := by
  induction later with
  | nil => simp [savedIn]
  | cons o later ih =>
      unfold savedIn at ih ⊢
      cases ho : o.IsFetch k with
      | true => simp [ho]
      | false => simp [ho, ih, Bool.or_assoc]

theorem savedIn_singleton : savedIn k id [o] = o.IsSaveBy k id := by
  cases o with
  | fetched j => by_cases hj : j = k <;> simp [savedIn, IsFetch, IsSaveBy, hj]
  | _ => simp [savedIn, IsFetch]

/-- What is no save of the record makes no difference to what came before. -/
theorem keptSends_append_singleton (h : o.IsSave id = false) :
    keptSends id (later ++ [o]) os = keptSends id later os := by
  induction os generalizing later with
  | nil => rfl
  | cons u os ih =>
      have hu : u.IsKept id (later ++ [o]) = u.IsKept id later := by
        cases u with
        | handedOver => simp [IsKept, savedIn_append, savedIn_singleton, isSaveBy_eq_false h]
        | _ => rfl
      rw [keptSends, keptSends, hu, ← List.cons_append, ih]

theorem isKept_nil : o.IsKept id [] = false := by
  cases o with
  | handedOver => simp [IsKept, savedIn]
  | _ => rfl

theorem keptSends_cons (h : o.IsSave id = false) : keptSends id [] (o :: os) = keptSends id [] os := by
  have hk : keptSends id ([] ++ [o]) os = keptSends id [] os := keptSends_append_singleton h
  simpa [keptSends, isKept_nil] using hk

theorem keptSends_map_append {g : Record → Occurrence} (hg : ∀ r, (g r).IsSave id = false)
    (rs : List Record) : keptSends id [] (rs.map g ++ os) = keptSends id [] os := by
  induction rs with
  | nil => rfl
  | cons r rs ih => exact (keptSends_cons (hg r)).trans ih

/-- A save does not concern earlier passes. -/
theorem keptSends_saved_of_fetch {r : Record} (h : (later.all fun o => !o.IsFetch k) = false) :
    keptSends id (later ++ [saved k r]) os = keptSends id later os := by
  induction os generalizing later with
  | nil => rfl
  | cons u os ih =>
      have hu : u.IsKept id (later ++ [saved k r]) = u.IsKept id later := by
        cases u with
        | handedOver j id' m =>
            by_cases hj : k = j
            · simp [IsKept, savedIn_append, ← hj, h]
            · simp [IsKept, savedIn_append, savedIn_singleton, IsSaveBy, hj]
        | _ => rfl
      rw [keptSends, keptSends, hu, ← List.cons_append, ih (by rw [List.all_cons, h, Bool.and_false])]

/-- The first save in a pass is for all sends of the record in it. -/
theorem keptSends_saved {r : Record} (hid : r.id = id) (hl : (later.all fun o => !o.IsFetch k) = true)
    (hn : savedIn k id later = false)
    (hs : (os.takeWhile fun o => !o.IsFetch k).countP (IsSave id) = 0) :
    keptSends id (later ++ [saved k r]) os =
      keptSends id later os + (os.takeWhile fun o => !o.IsFetch k).countP (IsSendBy k id) := by
  induction os generalizing later with
  | nil => rfl
  | cons u os ih =>
      cases hu : u.IsFetch k with
      | true =>
          have hcut : ((u :: later).all fun o => !o.IsFetch k) = false := by simp [hu]
          have hk : ∀ l, u.IsKept id l = false := by
            intro l
            cases u with
            | fetched => rfl
            | _ => cases hu
          rw [keptSends, keptSends, hk, hk, ← List.cons_append, keptSends_saved_of_fetch hcut]
          simp [hu]
      | false =>
          rw [List.takeWhile_cons_of_pos (by rw [hu]; rfl), List.countP_cons] at hs ⊢
          have hsave : u.IsSave id = false := by
            cases hx : u.IsSave id with
            | false => rfl
            | true => simp [hx] at hs
          have hl' : ((u :: later).all fun o => !o.IsFetch k) = true := by simpa [hu] using hl
          have hn' : savedIn k id (u :: later) = false := by
            have := isSaveBy_eq_false (k := k) hsave
            simpa [savedIn, hu, this] using hn
          have hrest := ih hl' hn' (Nat.eq_zero_of_add_eq_zero_right hs)
          have hkept : (u.IsKept id (later ++ [saved k r])).toNat =
              (u.IsKept id later).toNat + if u.IsSendBy k id = true then 1 else 0 := by
            cases u with
            | handedOver j id' m =>
                by_cases hj : j = k
                · subst hj
                  by_cases he : id' = id
                  · simp [IsKept, savedIn_append, savedIn_singleton, hl, hn, IsSendBy, IsSaveBy, he, hid]
                  · simp [IsKept, IsSendBy, he]
                · have hj' : k ≠ j := Ne.symm hj
                  simp [IsKept, savedIn_append, savedIn_singleton, IsSendBy, IsSaveBy, hj, hj']
            | _ => rfl
          rw [keptSends, keptSends, hkept, ← List.cons_append, hrest]
          omega

end Occurrence

theorem Pass.map_id_readings (p : Pass) : p.readings.map Reading.id = p.copies.map Record.id := by
  cases p <;> simp [readings, copies, underWay?, untried, Record.reading, Function.comp_def]

namespace World

def keptSends (w : World) (id : RecordId) : Nat := Occurrence.keptSends id [] w.history

/-- How often worker `k` has sent the record since it fetched its batch. -/
def sendsSince (w : World) (k : Nat) (id : RecordId) : Nat :=
  (w.history.takeWhile fun o => !o.IsFetch k).countP (Occurrence.IsSendBy k id)

/-- From one world to a later one, terminal states stay, and attempts grow by the sends whose pass went
on to save the record. -/
structure Unharmed (w₁ w₂ : World) : Prop where
  terminal : ∀ {id v₁ v₂}, w₁.store.get? id = some v₁ → w₂.store.get? id = some v₂ →
    v₁.state.isTerminal = true → v₂.state = v₁.state
  counted : ∀ {id v₁ v₂}, w₁.store.get? id = some v₁ → w₂.store.get? id = some v₂ →
    v₂.attempts + w₁.keptSends id = v₁.attempts + w₂.keptSends id

/-- How far the attempt of worker 0 has come in its pass. -/
def Attempt (w : World) : Pass → Prop
  | .sending _ r _ => r.state = .pending ∧ w.acceptances r.id = 0 ∧
      w.sendsSince 0 r.id = if w.awaiting 0 then 1 else 0
  | .accepted _ r _ => w.awaiting 0 = false ∧ r.state = .pending ∧ w.sendsSince 0 r.id = 1
  | .saving _ r _ _ => w.awaiting 0 = false ∧ r.lock = none ∧ w.sendsSince 0 r.id = 1 ∧
      (r.state ≠ .delivered → w.acceptances r.id = 0)
  | _ => w.awaiting 0 = false

/-- A worker on its own saves before it fetches again, and so it fetches no record of which an attempt
is open. -/
structure Sole (w : World) : Prop where
  current : Current w
  locked_pending : ∀ {v}, v ∈ w.store.records → v.lock ≠ none → v.state = .pending
  nodup : ((w.pass 0).copies.map Record.id).Nodup
  unsaved : ∀ {c}, c ∈ (w.pass 0).readings → w.savesSince 0 c.id = 0
  waiting : ∀ {c}, c ∈ (w.pass 0).untried →
    c.state = .pending ∧ w.acceptances c.id = 0 ∧ w.sendsSince 0 c.id = 0
  stage : w.Attempt (w.pass 0)
  unknown : ∀ {id}, ¬ w.Committed id → w.acceptances id = 0
  once : ∀ id, w.acceptances id ≤ 1
  counted : ∀ {id v}, w.store.get? id = some v → (∀ {r}, (w.pass 0).underWay? = some r → r.id ≠ id) →
    v.state ≠ .delivered → w.acceptances id = 0
  kept : ∀ id, w.keptSends id = w.saves id

theorem Attempt.awaiting_eq_false {w : World} {p : Pass} (h : w.Attempt p)
    (hp : ∀ report r rest, p ≠ .sending report r rest) : w.awaiting 0 = false := by
  cases p with
  | sending report r rest => exact absurd rfl (hp report r rest)
  | accepted | saving => exact h.1
  | _ => exact h

theorem Attempt.frame {w w' : World} {p : Pass} (h : w.Attempt p) (ha : w'.awaiting = w.awaiting)
    (hn : ∀ id, w'.sendsSince 0 id = w.sendsSince 0 id ∧ w'.acceptances id = w.acceptances id) :
    w'.Attempt p := by
  unfold Attempt at h ⊢
  rw [ha]
  cases p with
  | sending report r rest | accepted report r rest | saving report r failure rest =>
      simpa only [(hn r.id).1, (hn r.id).2] using h
  | _ => exact h

end World

namespace Step

variable {f : Fleet} {w w' : World} {a : Action} {id : RecordId}

theorem acceptances_eq (hs : Step f w a w') (ok : a.IsLone)
    (hno : ∀ {r}, (w.pass 0).underWay? = some r → r.id ≠ id) : w'.acceptances id = w.acceptances id := by
  cases hs with
  | committed | cleaned => exact Occurrence.countP_map_append (fun _ => rfl) ..
  | @accepted k report r rest hp =>
      obtain rfl : k = 0 := ok
      have hne : r.id ≠ id := hno (by rw [hp]; rfl)
      simp [World.acceptances, Occurrence.IsAcceptance, hne]
  | fetched | handedOver | refused | barredFailure | saved =>
      simp [World.acceptances, Occurrence.IsAcceptance]
  | _ => rfl

theorem sendsSince_map_append {g : Record → Occurrence} {k : Nat} {os : List Occurrence}
    (hg : ∀ r, (g r).IsFetch k = false ∧ (g r).IsSendBy k id = false) (rs : List Record) :
    ((rs.map g ++ os).takeWhile fun o => !o.IsFetch k).countP (Occurrence.IsSendBy k id) =
      (os.takeWhile fun o => !o.IsFetch k).countP (Occurrence.IsSendBy k id) := by
  rw [List.takeWhile_append_of_pos (by simp [hg])]
  exact Occurrence.countP_map_append (fun r => (hg r).2) ..

theorem sendsSince_le (hs : Step f w a w') {k : Nat}
    (hno : ∀ {r}, (w.pass k).underWay? = some r → r.id ≠ id) : w'.sendsSince k id ≤ w.sendsSince k id := by
  cases hs with
  | committed | cleaned => exact Nat.le_of_eq (sendsSince_map_append (fun _ => ⟨rfl, rfl⟩) _)
  | @fetched j =>
      by_cases hj : j = k
      · simp [World.sendsSince, Occurrence.IsFetch, hj]
      · simp [World.sendsSince, Occurrence.IsFetch, Occurrence.IsSendBy, hj]
  | @handedOver j report r rest hp =>
      by_cases hj : j = k
      · have hne : r.id ≠ id := hno (by rw [← hj, hp]; rfl)
        simp [World.sendsSince, Occurrence.IsFetch, Occurrence.IsSendBy, hne]
      · simp [World.sendsSince, Occurrence.IsFetch, Occurrence.IsSendBy, hj]
  | accepted | refused | barredFailure | saved =>
      simp [World.sendsSince, Occurrence.IsFetch, Occurrence.IsSendBy]
  | _ => exact Nat.le_refl _

end Step

namespace World.Sole

variable {f : Fleet} {w w' : World} {a : Action}

theorem acceptances_start (s : Store) (id : RecordId) : (World.start s).acceptances id = 0 := by
  simp [acceptances, World.start, List.countP_map, Function.comp_def, Occurrence.IsAcceptance]

theorem start {s : Store} (hs : ∀ v ∈ s.records, v.lock = none ∨ v.state = .pending) :
    Sole (World.start s) where
  current := .start s
  locked_pending hv hl := (hs _ hv).resolve_left hl
  nodup := List.nodup_nil
  unsaved h := nomatch h
  waiting h := nomatch h
  stage := rfl
  unknown _ := acceptances_start ..
  once _ := by simp [acceptances_start]
  counted _ _ _ := acceptances_start ..
  kept id := by
    have hk : Occurrence.keptSends id [] (s.records.map .committed ++ []) = 0 :=
      Occurrence.keptSends_map_append (fun _ => rfl) s.records
    rw [List.append_nil] at hk
    simp [keptSends, hk, saves, World.start, List.countP_map, Function.comp_def,
      Occurrence.IsSave]

theorem unsaved_of_saving (h : Sole w) {report : Report} {r : Record} {failure : Option BrokerError}
    {rest : List Record} (hp : w.pass 0 = .saving report r failure rest) : w.savesSince 0 r.id = 0 := by
  have hr : (⟨r.id, .pending, r.attempts - 1⟩ : Reading) ∈ (w.pass 0).readings := by
    rw [hp]; exact List.mem_cons_self
  exact h.unsaved hr

theorem not_staleSave (h : Sole w) (ok : a.IsLone) : ¬ w.StaleSave a := by
  rintro ⟨k, r, ⟨rfl, ⟨report, failure, rest, hp⟩, -⟩, hpos⟩
  obtain ⟨rfl, -⟩ := ok
  exact Nat.ne_of_gt hpos (h.unsaved_of_saving hp)

theorem locked_pending_step (hs : Step f w a w') (ok : a.IsLone) (h : Sole w) {v : Record}
    (hv : v ∈ w'.store.records) (hl : v.lock ≠ none) : v.state = .pending := by
  refine hs.locked_pending h.current.fresh (fun {k report r failure rest} ha hp => ?_) h.locked_pending hv hl
  subst ha
  obtain ⟨rfl, -⟩ := ok
  obtain ⟨-, hlock, -⟩ : w.Attempt (.saving report r failure rest) := hp ▸ h.stage
  exact hlock

theorem unsaved_step (hs : Step f w a w') (ok : a.IsLone) (h : Sole w) {c : Reading}
    (hc : c ∈ (w'.pass 0).readings) : w'.savesSince 0 c.id = 0 := by
  rcases hs.save_fetch_or_quiet with
    ⟨k, report, r, failure, rest, v, rfl, hp, -, rfl⟩ | ⟨k, n, rfl⟩ | hq
  · obtain ⟨rfl, -⟩ := ok
    dsimp only at hc
    rw [Function.update_self] at hc
    have hne : r.id ≠ c.id := by
      intro he
      have hnd := h.nodup
      rw [hp] at hnd
      have hm : c.id ∈ (Pass.saved report r failure rest (.ok ())).1.copies.map Record.id := by
        rw [← Pass.map_id_readings]
        exact List.mem_map_of_mem hc
      exact (List.nodup_cons.1 hnd).1 (he ▸ List.map_subset _ Pass.copies_saved hm)
    have hold := h.unsaved (c := c) (by rw [hp]; exact Pass.readings_saved hc)
    simpa [savesSince, Occurrence.IsFetch, Occurrence.IsSave, hne] using hold
  · by_cases hk : k = 0
    · simp [savesSince, Occurrence.IsFetch, hk]
    · dsimp only at hc
      rw [Function.update_of_ne (Ne.symm hk)] at hc
      simpa [savesSince, Occurrence.IsFetch, Occurrence.IsSave, hk] using h.unsaved hc
  · rw [hq.savesSince_eq]
    exact h.unsaved (hq.readings 0 hc)

theorem waiting_step (hs : Step f w a w') (ok : a.IsLone) (h : Sole w) {c : Record}
    (hc : c ∈ (w'.pass 0).untried) :
    c.state = .pending ∧ w'.acceptances c.id = 0 ∧ w'.sendsSince 0 c.id = 0 := by
  rcases hs.untried_cases hc with hold | ⟨n, hp, hm⟩
  · obtain ⟨hpending, hacc, hsends⟩ := h.waiting hold
    have hno : ∀ {r}, (w.pass 0).underWay? = some r → r.id ≠ c.id :=
      fun hr => Pass.id_ne_of_untried h.nodup hr hold
    refine ⟨hpending, (hs.acceptances_eq ok hno).trans hacc, ?_⟩
    exact Nat.eq_zero_of_le_zero (Nat.le_trans (hs.sendsSince_le hno) (Nat.le_of_eq hsends))
  · obtain ⟨hm, ho⟩ := Store.mem_fetch.1 hm
    have hpending : c.state = .pending := by
      apply h.locked_pending hm
      rintro hl
      simp [Record.owner?, hl] at ho
    have hno : ∀ {r}, (w.pass 0).underWay? = some r → r.id ≠ c.id := by
      intro r hr
      rw [hp] at hr
      cases hr
    refine ⟨hpending, ?_, ?_⟩
    · rw [hs.acceptances_eq ok hno]
      exact h.counted (Store.get?_of_mem hm) hno (by simp [hpending])
    · obtain ⟨-, hh⟩ := hs.call_of_fetched hp hc
      simp [sendsSince, hh, Occurrence.IsFetch]

theorem stage_step (hs : Step f w a w') (ok : a.IsLone) (h : Sole w) : w'.Attempt (w'.pass 0) := by
  have idle : (∀ report r rest, w.pass 0 ≠ .sending report r rest) → w.awaiting 0 = false :=
    h.stage.awaiting_eq_false
  have cleared : update w.awaiting 0 false 0 = false := Function.update_self ..
  have moved : ∀ {w' : World} {p}, w'.Attempt p → w'.Attempt (update w.pass 0 p 0) := by
    intro w' p hp
    rwa [Function.update_self]
  cases hs with
  | still => exact h.stage
  | begun | wasted | added | dropped | expired => exact h.stage.frame rfl fun _ => ⟨rfl, rfl⟩
  | committed | cleaned =>
      refine h.stage.frame rfl fun _ => ⟨Step.sendsSince_map_append (fun _ => ⟨rfl, rfl⟩) _, ?_⟩
      exact Occurrence.countP_map_append (fun _ => rfl) ..
  | @started k hp =>
      obtain rfl : k = 0 := ok
      apply moved
      apply idle
      intro report r rest he
      rw [he] at hp
      cases hp
  | @clocked k _ hp | @jammed k _ _ _ _ hp | @barredDelivery k _ _ _ _ _ hp =>
      obtain rfl : k = 0 := ok
      apply moved
      apply idle
      simp [hp]
  | @claimed k _ hp | @missed k _ _ _ _ hp | @released k _ hp =>
      obtain ⟨rfl, -⟩ := ok
      apply moved
      apply idle
      simp [hp]
  | @fetched k n hp =>
      obtain ⟨rfl, -⟩ := ok
      have ha : w.awaiting 0 = false := idle (by simp [hp])
      apply moved
      generalize w.store.fetch (f.machine 0) = batch
      cases batch <;> exact ha
  | @attempted k now report r rest r' hp hr =>
      obtain rfl : k = 0 := ok
      obtain ⟨-, rfl⟩ := Record.startAttempt_eq_some_iff.1 hr
      have ha : w.awaiting 0 = false := idle (by simp [hp])
      obtain ⟨hpending, hacc, hsends⟩ := h.waiting (c := r) (by rw [hp]; exact List.mem_cons_self)
      apply moved
      refine ⟨hpending, hacc, ?_⟩
      rw [if_neg (by simp [ha])]
      exact hsends
  | @handedOver k report r rest hp ha =>
      obtain rfl : k = 0 := ok
      obtain ⟨hpending, hacc, hsends⟩ : w.Attempt (.sending report r rest) := hp ▸ h.stage
      rw [hp]
      refine ⟨hpending, ?_, ?_⟩
      · simpa [acceptances, Occurrence.IsAcceptance] using hacc
      · rw [if_pos (Function.update_self ..)]
        simpa [sendsSince, Occurrence.IsFetch, Occurrence.IsSendBy, ha] using hsends
  | @accepted k report r rest hp ha =>
      obtain rfl : k = 0 := ok
      obtain ⟨hpending, -, hsends⟩ : w.Attempt (.sending report r rest) := hp ▸ h.stage
      apply moved
      refine ⟨cleared, hpending, ?_⟩
      simpa [sendsSince, Occurrence.IsFetch, Occurrence.IsSendBy, ha] using hsends
  | @refused k report r rest e r' hp ha hr =>
      obtain rfl : k = 0 := ok
      obtain ⟨-, rfl⟩ := Record.markFailed_eq_ok_iff.1 hr
      obtain ⟨-, hacc, hsends⟩ : w.Attempt (.sending report r rest) := hp ▸ h.stage
      apply moved
      refine ⟨cleared, rfl, ?_, fun _ => ?_⟩
      · simpa [sendsSince, Occurrence.IsFetch, Occurrence.IsSendBy, ha] using hsends
      · simpa [acceptances, Occurrence.IsAcceptance] using hacc
  | @barredFailure k =>
      obtain rfl : k = 0 := ok
      apply moved
      exact cleared
  | @delivered k now report r rest r' hp hr =>
      obtain rfl : k = 0 := ok
      obtain ⟨-, rfl⟩ := Record.markDelivered_eq_ok_iff.1 hr
      obtain ⟨ha, -, hsends⟩ : w.Attempt (.accepted report r rest) := hp ▸ h.stage
      apply moved
      exact ⟨ha, rfl, hsends, fun hne => absurd rfl hne⟩
  | @saved k report r failure rest _ hp =>
      obtain ⟨rfl, -⟩ := ok
      have ha : w.awaiting 0 = false := idle (by simp [hp])
      apply moved
      cases failure with
      | none => cases rest <;> exact ha
      | some e => exact ha
  | failed | stuck => cases ok.2
  | crashed => cases ok

theorem counted_step (hs : Step f w a w') (ok : a.IsLone) (h : Sole w) {id : RecordId} {v : Record}
    (hv : w'.store.get? id = some v) (hno : ∀ {r}, (w'.pass 0).underWay? = some r → r.id ≠ id)
    (hne : v.state ≠ .delivered) : w'.acceptances id = 0 := by
  by_cases hany : ∃ r, (w.pass 0).underWay? = some r ∧ r.id = id
  · obtain ⟨r, hr, rfl⟩ := hany
    have hpending : ∀ {report u rest},
        w.pass 0 = .sending report u rest ∨ w.pass 0 = .accepted report u rest → u.state = .pending := by
      intro report u rest hp
      have hst := h.stage
      rcases hp with hp | hp
      · rw [hp] at hst; exact hst.1
      · rw [hp] at hst; exact hst.2.1
    have hcall : ∀ e, a ≠ .call 0 (some e) := by
      rintro e rfl
      cases ok.2
    have hcrash : a ≠ .crash 0 := by
      rintro rfl
      exact ok
    rcases hs.end_of_attempt hr hpending hcall hcrash with
      ⟨r', hr', he⟩ | hnone | ⟨report, failure, rest, hp, hsome, hh⟩
    · exact absurd he (hno hr')
    · rw [hnone] at hv; cases hv
    · obtain rfl : r = v := Option.some.inj (hsome.symm.trans hv)
      obtain ⟨-, -, -, hacc⟩ : w.Attempt (.saving report r failure rest) := hp ▸ h.stage
      simpa [acceptances, hh, Occurrence.IsAcceptance] using hacc hne
  · have hold : ∀ {r}, (w.pass 0).underWay? = some r → r.id ≠ id := fun hr he => hany ⟨_, hr, he⟩
    rw [hs.acceptances_eq ok hold]
    have hid := Store.id_of_get? hv
    rcases hs.stored_cases (hid.symm ▸ hv) with ⟨u, lock, hu, rfl⟩ | ⟨k, report, failure, rest, hp, rfl, -⟩ |
      ⟨-, tx, t, ht, hm⟩
    · exact h.counted (v := u) (hid ▸ hu) hold hne
    · obtain ⟨rfl, -⟩ := ok
      exact absurd hid (hold (by rw [hp]; rfl))
    · exact h.unknown (hid ▸ h.current.fresh.uncommitted ht hm)

theorem unknown_step (hs : Step f w a w') (ok : a.IsLone) (h : Sole w) {id : RecordId}
    (hc : ¬ w'.Committed id) : w'.acceptances id = 0 := by
  have hc : ¬ w.Committed id := fun hold => hc (hs.committed_mono hold)
  have hno : ∀ {r}, (w.pass 0).underWay? = some r → r.id ≠ id := by
    rintro r hr rfl
    have hm : r.id ∈ (w.pass 0).readings.map Reading.id := by
      rw [Pass.map_id_readings]
      exact List.mem_map_of_mem (Pass.mem_copies.2 (Or.inl hr))
    obtain ⟨c, hm, he⟩ := List.mem_map.1 hm
    exact hc (he ▸ h.current.known hm)
  rw [hs.acceptances_eq ok hno]
  exact h.unknown hc

theorem once_step (hs : Step f w a w') (ok : a.IsLone) (h : Sole w) (id : RecordId) :
    w'.acceptances id ≤ 1 := by
  have old : w.acceptances id ≤ 1 := h.once id
  cases hs with
  | @accepted k report r rest hp =>
      obtain rfl : k = 0 := ok
      obtain ⟨-, hacc, -⟩ : w.Attempt (.sending report r rest) := hp ▸ h.stage
      simp only [acceptances, List.countP_cons, Occurrence.IsAcceptance] at hacc old ⊢
      by_cases he : r.id = id
      · rw [← he, hacc]; simp
      · simpa [he] using old
  | committed | cleaned =>
      rw [acceptances, Occurrence.countP_map_append fun _ => rfl]
      exact old
  | fetched | handedOver | refused | barredFailure | saved =>
      simpa [acceptances, Occurrence.IsAcceptance] using old
  | _ => exact old

theorem kept_step (hs : Step f w a w') (ok : a.IsLone) (h : Sole w) (id : RecordId) :
    w'.keptSends id = w'.saves id := by
  have old : Occurrence.keptSends id [] w.history = w.history.countP (Occurrence.IsSave id) := h.kept id
  cases hs with
  | committed | cleaned =>
      rw [keptSends, saves, Occurrence.keptSends_map_append fun _ => rfl,
        Occurrence.countP_map_append fun _ => rfl]
      exact old
  | fetched | handedOver | accepted | refused | barredFailure =>
      rw [keptSends, Occurrence.keptSends_cons rfl]
      simpa [saves, Occurrence.IsSave] using old
  | @saved k report r failure rest v hp =>
      obtain ⟨rfl, -⟩ := ok
      by_cases he : r.id = id
      -- The one send of this pass is kept now.
      · obtain ⟨-, -, hsends, -⟩ : w.Attempt (.saving report r failure rest) := hp ▸ h.stage
        have hsaves := h.unsaved_of_saving hp
        rw [he] at hsends hsaves
        have hone : Occurrence.keptSends id ([] ++ [.saved 0 r]) w.history =
            Occurrence.keptSends id [] w.history + w.sendsSince 0 id :=
          Occurrence.keptSends_saved he rfl rfl hsaves
        rw [hsends] at hone
        simp only [keptSends, Occurrence.keptSends, Occurrence.isKept_nil, List.nil_append, Bool.toNat_false,
          saves, List.countP_cons, Occurrence.IsSave, he, decide_true, if_true] at hone ⊢
        omega
      · rw [keptSends, Occurrence.keptSends_cons (by simp [Occurrence.IsSave, he])]
        simpa [saves, Occurrence.IsSave, he] using old
  | _ => exact old

theorem step (hs : Step f w a w') (ok : a.IsLone) (h : Sole w) : Sole w' where
  current := h.current.step hs (h.not_staleSave ok)
  locked_pending := h.locked_pending_step hs ok
  nodup := hs.nodup_copies h.nodup
  unsaved := h.unsaved_step hs ok
  waiting := h.waiting_step hs ok
  stage := h.stage_step hs ok
  unknown := h.unknown_step hs ok
  once := h.once_step hs ok
  counted := h.counted_step hs ok
  kept := h.kept_step hs ok

theorem along_not_staleSave {as : List Action} (h : Sole w) (hok : ∀ a ∈ as, a.IsLone) :
    w.Along f (fun w a => ¬ w.StaleSave a) as := by
  induction as generalizing w with
  | nil => trivial
  | cons a as ih =>
      have ok : a.IsLone := hok a List.mem_cons_self
      exact ⟨h.not_staleSave ok, ih (h.step (step_spec w a) ok) fun b hb => hok b (List.mem_cons_of_mem _ hb)⟩

theorem of_mem_scanl {as : List Action} (h : Sole w) (hok : ∀ a ∈ as, a.IsLone) :
    ∀ w' ∈ as.scanl (World.step f) w, Sole w' :=
  scanl_induction (fun hs ok h => h.step hs ok) (along_of_forall hok w) h

end World.Sole

namespace World

/-- However soon the sweeps come, whatever the broker answers and however long it takes, and whoever
publishes: a worker on its own has no record accepted twice, reopens none, and counts each send whose
outcome it saved. -/
theorem run_unharmed (f : Fleet) {s : Store} (hs : ∀ v ∈ s.records, v.lock = none ∨ v.state = .pending)
    {as : List Action} (hok : ∀ a ∈ as, a.IsLone) :
    (as.scanl (World.step f) (start s)).Pairwise Unharmed ∧
      ∀ id, ((start s).run f as).acceptances id ≤ 1 := by
  have h : Sole (start s) := .start hs
  have hworlds := h.of_mem_scanl (f := f) hok
  constructor
  · have hprogress := (progress_iff h.current as).2 (h.along_not_staleSave (f := f) hok)
    refine hprogress.imp_of_mem fun {w₁ w₂} h₁ h₂ hp => ⟨hp.terminal, fun {id v₁ v₂} hv₁ hv₂ => ?_⟩
    rw [(hworlds w₁ h₁).kept id, (hworlds w₂ h₂).kept id]
    exact hp.counted hv₁ hv₂
  · exact (run_induction (fun hs ok h => h.step hs ok) (along_of_forall hok _) h).once

end World

end Outbox

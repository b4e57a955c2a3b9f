import Outbox.Proofs.Fleet.Copies

/-!
# Custody of locked records

A worker whose locks are left alone has the records of its batch to itself: nobody else changes them,
fetches them or sends them, and the history counts its attempts.
-/

namespace Outbox

open Function (update)

def Occurrence.IsSend (id : RecordId) : Occurrence → Bool
  | handedOver _ id' _ => id' = id
  | _ => false

def Occurrence.IsAcceptance (id : RecordId) : Occurrence → Bool
  | answered _ id' _ (.ok ()) => id' = id
  | _ => false

theorem Occurrence.countP_map_append {p : Occurrence → Bool} {g : Record → Occurrence}
    (hg : ∀ r, p (g r) = false) (rs : List Record) (os : List Occurrence) :
    (rs.map g ++ os).countP p = os.countP p := by
  simp [List.countP_map, Function.comp_def, hg]

namespace World

def sends (w : World) (id : RecordId) : Nat := w.history.countP (Occurrence.IsSend id)

def acceptances (w : World) (id : RecordId) : Nat := w.history.countP (Occurrence.IsAcceptance id)

/-- No pass is cut off or fails in the store, and no sweep takes a lock from a batch in progress. -/
def Undisturbed (w : World) : Action → Prop
  | .call _ fault => fault = none
  | .crash _ => False
  | .sweep (.unlocking age) now none => ∀ k, ∀ r ∈ (w.pass k).copies, ∀ v,
      w.store.get? r.id = some v → Store.LockedBefore (now.before age) v = false
  | _ => True

variable (f : Fleet) (w : World) (k : Nat)

/-- A copy that still waits in the batch of worker `k`. -/
structure Waiting (c : Record) : Prop where
  pending : c.state = .pending
  owned : c.owner? = some (f.machine k)
  stored : ∀ {v}, w.store.get? c.id = some v → v = c
  sends_eq : w.sends c.id = c.attempts
  unaccepted : w.acceptances c.id = 0

/-- How far the attempt of a pass has come, and what has been counted of it. -/
def Stage : Pass → Prop
  | .sending _ r _ => r.state = .pending ∧ w.acceptances r.id = 0 ∧
      w.sends r.id + (if w.awaiting k then 0 else 1) = r.attempts
  | .accepted _ r _ => w.awaiting k = false ∧ r.state = .pending ∧ w.sends r.id = r.attempts
  | .saving _ r _ _ => w.awaiting k = false ∧ r.lock = none ∧ w.sends r.id = r.attempts ∧
      (r.state ≠ .delivered → w.acceptances r.id = 0)
  | _ => w.awaiting k = false

/-- What worker `k` can rely on when this is its pass. -/
structure Held (p : Pass) : Prop where
  nodup : (p.copies.map Record.id).Nodup
  waiting : ∀ {c}, c ∈ p.untried → w.Waiting f k c
  underWay : ∀ {r v}, p.underWay? = some r → w.store.get? r.id = some v →
    v.owner? = some (f.machine k) ∧ v.attempts + 1 = r.attempts
  stage : w.Stage k p

structure Custody : Prop where
  fresh : Fresh w
  locked_pending : ∀ {v}, v ∈ w.store.records → v.lock ≠ none → v.state = .pending
  known : ∀ {k r}, r ∈ (w.pass k).copies → w.Committed r.id
  apart : ∀ {j k r r'}, r ∈ (w.pass j).copies → r' ∈ (w.pass k).copies → r.id = r'.id → j = k
  held : ∀ k, w.Held f k (w.pass k)
  unknown : ∀ {id}, ¬ w.Committed id → w.sends id = 0 ∧ w.acceptances id = 0
  once : ∀ id, w.acceptances id ≤ 1
  counted : ∀ {id v}, w.store.get? id = some v →
    (∀ {k r}, (w.pass k).underWay? = some r → r.id ≠ id) →
    w.sends id = v.attempts ∧ (v.state ≠ .delivered → w.acceptances id = 0)

end World

theorem World.Stage.frame {w w' : World} {k : Nat} {p : Pass} (h : w.Stage k p)
    (ha : w'.awaiting k = w.awaiting k)
    (hn : ∀ {r}, p.underWay? = some r → w'.sends r.id = w.sends r.id ∧ w'.acceptances r.id = w.acceptances r.id) :
    w'.Stage k p := by
  unfold World.Stage at h ⊢
  rw [ha]
  cases p with
  | sending report r rest | accepted report r rest | saving report r failure rest =>
      obtain ⟨h₁, h₂⟩ := hn (r := r) rfl
      simpa only [h₁, h₂] using h
  | _ => exact h

theorem World.Stage.awaiting_eq_false {w : World} {k : Nat} {p : Pass} (h : w.Stage k p)
    (hp : ∀ report r rest, p ≠ .sending report r rest) : w.awaiting k = false := by
  unfold World.Stage at h
  cases p with
  | sending report r rest => exact absurd rfl (hp report r rest)
  | accepted | saving => exact h.1
  | _ => exact h

namespace World.Held

variable {f : Fleet} {w w' : World} {k : Nat} {p : Pass} {r v : Record}

theorem owned (h : w.Held f k p) (hr : r ∈ p.copies) (hv : w.store.get? r.id = some v) :
    v.owner? = some (f.machine k) := by
  rcases Pass.mem_copies.1 hr with hr | hr
  · exact (h.underWay hr hv).1
  · rw [(h.waiting hr).stored hv]; exact (h.waiting hr).owned

theorem of_copies_nil (hc : p.copies = []) (hs : w.Stage k p) : w.Held f k p where
  nodup := by rw [hc]; exact List.nodup_nil
  waiting hm := by
    have := Pass.mem_copies.2 (Or.inr hm)
    simp [hc] at this
  underWay hm := by
    have := Pass.mem_copies.2 (Or.inl hm)
    simp [hc] at this
  stage := hs

end World.Held

namespace World.Custody

variable {f : Fleet} {w w' : World} {a : Action} {r v : Record} {k : Nat}

theorem start (f : Fleet) : (World.start .empty).Custody f where
  fresh := .start .empty
  locked_pending h := nomatch h
  known h := nomatch h
  apart h := nomatch h
  held _ := .of_copies_nil rfl rfl
  unknown _ := ⟨rfl, rfl⟩
  once _ := Nat.zero_le _
  counted h := nomatch h

theorem owned (h : w.Custody f) (hr : r ∈ (w.pass k).copies) (hv : w.store.get? r.id = some v) :
    v.owner? = some (f.machine k) := (h.held k).owned hr hv

theorem known_step (hs : Step f w a w') (h : w.Custody f) (hr : r ∈ (w'.pass k).copies) :
    w.Committed r.id := by
  rcases hs.id_of_copy hr with ⟨u, hu, he⟩ | ⟨n, -, hm⟩
  · exact he ▸ h.known hu
  · exact h.fresh.stored_committed (by rw [Store.get?_of_mem (Store.mem_fetch.1 hm).1]; rfl)

theorem owned_of_copy (hs : Step f w a w') (h : w.Custody f) (hr : r ∈ (w'.pass k).copies)
    (hv : w.store.get? r.id = some v) : v.owner? = some (f.machine k) := by
  rcases hs.id_of_copy hr with ⟨u, hu, he⟩ | ⟨n, -, hm⟩
  · exact h.owned hu (he ▸ hv)
  · obtain ⟨hm, ho⟩ := Store.mem_fetch.1 hm
    rwa [Option.some.inj (hv.symm.trans (Store.get?_of_mem hm))]

/-- Workers with names of their own cannot hold copies of one record: the lock of it has one owner. -/
theorem apart_step (hf : Function.Injective f.machine) (hs : Step f w a w') (h : w.Custody f) {j : Nat}
    {r' : Record} (hr : r ∈ (w'.pass j).copies) (hr' : r' ∈ (w'.pass k).copies) (he : r.id = r'.id) :
    j = k := by
  have same : ∀ {v}, w.store.get? r.id = some v → j = k := by
    intro v hv
    have ho := h.owned_of_copy hs hr hv
    have ho' := h.owned_of_copy hs hr' (he ▸ hv)
    exact hf (Option.some.inj (ho.symm.trans ho'))
  rcases hs.id_of_copy hr with ⟨u, hu, hur⟩ | ⟨n, -, hm⟩
  · rcases hs.id_of_copy hr' with ⟨u', hu', hur'⟩ | ⟨n, -, hm⟩
    · exact h.apart hu hu' (hur.trans (he.trans hur'.symm))
    · exact same (he ▸ Store.get?_of_mem (Store.mem_fetch.1 hm).1)
  · exact same (Store.get?_of_mem (Store.mem_fetch.1 hm).1)

/-- Of the records in a batch, none is changed but by the worker itself, which lets go of it then. -/
theorem stored_of_copy (hf : Function.Injective f.machine) (hs : Step f w a w') (ok : w.Undisturbed a)
    (h : w.Custody f) (hr : r ∈ (w'.pass k).copies) (hv : w'.store.get? r.id = some v) :
    w.store.get? r.id = some v := by
  have mine : ∀ {u}, w.store.get? r.id = some u → u.owner? = some (f.machine k) :=
    h.owned_of_copy hs hr
  cases hs with
  | committed ht new =>
      rcases Store.get?_putAll_cases hv with hm | hold
      · exact absurd (h.known (k := k) hr) (Store.id_of_get? hv ▸ h.fresh.uncommitted ht hm)
      · exact hold
  | expired =>
      rw [Store.get?_unlock] at hv
      obtain ⟨u, hu, rfl⟩ := Option.map_eq_some_iff.1 hv
      rw [hu, ok k r hr u hu]
      rfl
  | cleaned =>
      rw [Store.get?_remove, Option.filter_eq_some_iff] at hv
      exact hv.1
  | claimed =>
      rw [Store.get?_claim] at hv
      obtain ⟨u, hu, rfl⟩ := Option.map_eq_some_iff.1 hv
      -- It is locked, and a claim passes over what is locked.
      have hlocked : Store.Claimable .pending u = false := by
        have ho := mine hu
        cases hl : u.lock <;> simp_all [Store.Claimable, Record.isLocked, Record.owner?]
      rw [hu, hlocked]
      rfl
  | @released j result hp =>
      rw [Store.get?_unlock] at hv
      obtain ⟨u, hu, rfl⟩ := Option.map_eq_some_iff.1 hv
      have hne : j ≠ k := by
        rintro rfl
        dsimp only at hr
        rw [Function.update_self] at hr
        simp [Pass.copies, Pass.underWay?, Pass.untried] at hr
      have hother : Store.OwnedBy (f.machine j) u = false := by
        have ho := mine hu
        simp only [Store.OwnedBy, ho, Option.some.injEq, decide_eq_false_iff_not]
        exact fun he => hne (hf he.symm)
      rw [hu, hother]
      rfl
  | @saved j report u failure rest _ hp =>
      have hu : u ∈ (w.pass j).copies := by rw [hp]; exact Pass.mem_copies.2 (Or.inl rfl)
      -- Ids in a batch differ, so what remains of it does not have the record that was saved.
      have hne : u.id ≠ r.id := by
        intro he
        dsimp only at hr
        by_cases hk : k = j
        · subst hk
          rw [Function.update_self] at hr
          have hnd := (h.held k).nodup
          rw [hp] at hnd
          exact (List.nodup_cons.1 hnd).1 (he ▸ List.mem_map_of_mem (Pass.copies_saved hr))
        · rw [Function.update_of_ne hk] at hr
          exact hk (h.apart hu hr he).symm
      rwa [Store.get?_save, if_neg hne] at hv
  | _ => exact hv

theorem locked_pending_step (hs : Step f w a w') (h : w.Custody f) (hv : v ∈ w'.store.records)
    (hl : v.lock ≠ none) : v.state = .pending := by
  refine hs.locked_pending h.fresh (fun {j report u failure rest} _ hp => ?_) h.locked_pending hv hl
  obtain ⟨-, hlock, -⟩ : w.Stage j (.saving report u failure rest) := hp ▸ (h.held j).stage
  exact hlock

theorem counts_eq (hs : Step f w a w') {id : RecordId}
    (hno : ∀ {k r}, (w.pass k).underWay? = some r → r.id ≠ id) :
    w'.sends id = w.sends id ∧ w'.acceptances id = w.acceptances id := by
  cases hs with
  | committed | cleaned =>
      exact ⟨Occurrence.countP_map_append (fun _ => rfl) .., Occurrence.countP_map_append (fun _ => rfl) ..⟩
  | @handedOver k report r rest hp | @accepted k report r rest hp =>
      have hne : r.id ≠ id := hno (k := k) (by rw [hp]; rfl)
      simp [sends, acceptances, Occurrence.IsSend, Occurrence.IsAcceptance, hne]
  | fetched | refused | barredFailure | saved =>
      simp [sends, acceptances, Occurrence.IsSend, Occurrence.IsAcceptance]
  | _ => exact ⟨rfl, rfl⟩

theorem not_underWay_of_untried (h : w.Custody f) {c : Record} (hc : c ∈ (w.pass k).untried) {j : Nat}
    {u : Record} (hu : (w.pass j).underWay? = some u) : u.id ≠ c.id := by
  intro he
  have hm : u ∈ (w.pass j).copies := Pass.mem_copies.2 (Or.inl hu)
  obtain rfl := h.apart hm (Pass.mem_copies.2 (Or.inr hc)) he
  exact Pass.id_ne_of_untried (h.held j).nodup hu hc he

theorem waiting_step (hf : Function.Injective f.machine) (hs : Step f w a w') (ok : w.Undisturbed a)
    (h : w.Custody f) {c : Record} (hc : c ∈ (w'.pass k).untried) : w'.Waiting f k c := by
  have hst : ∀ {v}, w'.store.get? c.id = some v → w.store.get? c.id = some v :=
    h.stored_of_copy hf hs ok (Pass.mem_copies.2 (Or.inr hc))
  rcases hs.untried_cases hc with hold | ⟨n, hp, hm⟩
  · have hw := (h.held k).waiting hold
    obtain ⟨h₁, h₂⟩ := counts_eq hs (h.not_underWay_of_untried hold)
    exact ⟨hw.pending, hw.owned, fun hv => hw.stored (hst hv), h₁.trans hw.sends_eq,
      h₂.trans hw.unaccepted⟩
  · obtain ⟨hm, ho⟩ := Store.mem_fetch.1 hm
    have hc := Store.get?_of_mem hm
    have hpending : c.state = .pending := h.locked_pending hm (by rintro hl; simp [Record.owner?, hl] at ho)
    have hno : ∀ {j u}, (w.pass j).underWay? = some u → u.id ≠ c.id := by
      intro j u hu he
      have hu' := h.owned (Pass.mem_copies.2 (Or.inl hu)) (he ▸ hc)
      obtain rfl := hf (Option.some.inj (hu'.symm.trans ho))
      rw [hp] at hu
      cases hu
    obtain ⟨h₁, h₂⟩ := counts_eq hs hno
    obtain ⟨hsends, hacc⟩ := h.counted hc hno
    refine ⟨hpending, ho, fun hv => ?_, h₁.trans hsends, h₂.trans (hacc (by simp [hpending]))⟩
    exact Option.some.inj ((hst hv).symm.trans hc)

theorem underWay_step (hf : Function.Injective f.machine) (hs : Step f w a w') (ok : w.Undisturbed a)
    (h : w.Custody f) (hr : (w'.pass k).underWay? = some r) (hv : w'.store.get? r.id = some v) :
    v.owner? = some (f.machine k) ∧ v.attempts + 1 = r.attempts := by
  have hst : w.store.get? r.id = some v :=
    h.stored_of_copy hf hs ok (Pass.mem_copies.2 (Or.inl hr)) hv
  rcases hs.underWay_origin hr with ⟨u, hu, hid, hat⟩ | ⟨u, hu, hid, hat⟩
  · have hw := (h.held k).waiting hu
    obtain rfl : v = u := hw.stored (hid ▸ hst)
    exact ⟨hw.owned, hat.symm⟩
  · rw [hat]; exact (h.held k).underWay hu (hid ▸ hst)

/-- The stages of the workers that do not move stay, and so it is enough to look at worker `j`. -/
theorem stage_update (h : w.Custody f) {j : Nat} {p : Pass} (hp : w'.pass = update w.pass j p)
    (ha : ∀ k, k ≠ j → w'.awaiting k = w.awaiting k)
    (hn : ∀ {id}, (∀ {r}, (w.pass j).underWay? = some r → r.id ≠ id) →
      w'.sends id = w.sends id ∧ w'.acceptances id = w.acceptances id)
    (hj : w'.Stage j p) : w'.Stage k (w'.pass k) := by
  by_cases hk : k = j
  · rw [hp, hk, Function.update_self]; exact hj
  · rw [hp, Function.update_of_ne hk]
    refine (h.held k).stage.frame (ha k hk) fun {r} hr => hn fun {u} hu he => hk ?_
    exact h.apart (Pass.mem_copies.2 (Or.inl hr)) (Pass.mem_copies.2 (Or.inl hu)) he.symm

theorem stage_step (hs : Step f w a w') (ok : w.Undisturbed a) (h : w.Custody f) :
    w'.Stage k (w'.pass k) := by
  have idle : ∀ {j}, (∀ report r rest, w.pass j ≠ .sending report r rest) → w.awaiting j = false :=
    fun {j} hne => (h.held j).stage.awaiting_eq_false hne
  have same : ∀ {id : RecordId}, w.sends id = w.sends id ∧ w.acceptances id = w.acceptances id :=
    ⟨rfl, rfl⟩
  have elsewhere : ∀ {j b}, ∀ i, i ≠ j → update w.awaiting j b i = w.awaiting i :=
    fun i hi => Function.update_of_ne hi ..
  cases hs with
  | still => exact (h.held k).stage
  | begun | wasted | added | dropped | expired =>
      exact (h.held k).stage.frame rfl fun _ => same
  | committed | cleaned =>
      refine (h.held k).stage.frame rfl fun _ => ?_
      exact ⟨Occurrence.countP_map_append (fun _ => rfl) .., Occurrence.countP_map_append (fun _ => rfl) ..⟩
  | started hp =>
      refine h.stage_update rfl (fun _ _ => rfl) (fun _ => same) (idle ?_)
      intro report r rest he
      have hnone := Pass.underWay?_of_next hp
      rw [he] at hnone
      cases hnone
  | clocked hp | claimed hp | jammed hp | barredDelivery hp | released hp =>
      refine h.stage_update rfl (fun _ _ => rfl) (fun _ => same) (idle ?_)
      simp [hp]
  | missed hp =>
      refine h.stage_update rfl (fun _ _ => rfl) (fun _ => same) (idle ?_)
      simp [hp]
  | @fetched j n hp =>
      have ha : w.awaiting j = false := idle (by simp [hp])
      refine h.stage_update rfl (fun _ _ => rfl) (fun _ => ?_) ?_
      · simp [sends, acceptances, Occurrence.IsSend, Occurrence.IsAcceptance]
      · generalize w.store.fetch (f.machine j) = batch
        cases batch <;> exact ha
  | @attempted j now report r rest r' hp hr =>
      obtain ⟨-, rfl⟩ := Record.startAttempt_eq_some_iff.1 hr
      have ha : w.awaiting j = false := idle (by simp [hp])
      have hw := (h.held j).waiting (c := r) (by rw [hp]; exact List.mem_cons_self)
      refine h.stage_update rfl (fun _ _ => rfl) (fun _ => same) ?_
      refine ⟨hw.pending, hw.unaccepted, ?_⟩
      show w.sends r.id + (if w.awaiting j = true then 0 else 1) = r.attempts + 1
      rw [ha, hw.sends_eq]
      rfl
  | @handedOver j report r rest hp ha =>
      obtain ⟨hpending, hacc, hsends⟩ : w.Stage j (.sending report r rest) := hp ▸ (h.held j).stage
      have hpass : w.pass = update w.pass j (.sending report r rest) := by rw [← hp, Function.update_eq_self]
      refine h.stage_update hpass elsewhere (fun hno => ?_) ?_
      · have hne := hno (r := r) (by rw [hp]; rfl)
        simp [sends, acceptances, Occurrence.IsSend, Occurrence.IsAcceptance, hne]
      · rw [ha] at hsends
        refine ⟨hpending, ?_, ?_⟩
        · simpa [acceptances, Occurrence.IsAcceptance] using hacc
        · simpa [sends, Occurrence.IsSend] using hsends
  | @accepted j report r rest hp ha =>
      obtain ⟨hpending, -, hsends⟩ : w.Stage j (.sending report r rest) := hp ▸ (h.held j).stage
      refine h.stage_update rfl elsewhere (fun hno => ?_) ?_
      · have hne := hno (r := r) (by rw [hp]; rfl)
        simp [sends, acceptances, Occurrence.IsSend, Occurrence.IsAcceptance, hne]
      · rw [ha] at hsends
        refine ⟨Function.update_self .., hpending, ?_⟩
        simpa [sends, Occurrence.IsSend] using hsends
  | @refused j report r rest e r' hp ha hr =>
      obtain ⟨-, rfl⟩ := Record.markFailed_eq_ok_iff.1 hr
      obtain ⟨-, hacc, hsends⟩ : w.Stage j (.sending report r rest) := hp ▸ (h.held j).stage
      refine h.stage_update rfl elsewhere (fun _ => ?_) ?_
      · simp [sends, acceptances, Occurrence.IsSend, Occurrence.IsAcceptance]
      · rw [ha] at hsends
        refine ⟨Function.update_self .., rfl, ?_, fun _ => ?_⟩
        · simpa [sends, Occurrence.IsSend] using hsends
        · simpa [acceptances, Occurrence.IsAcceptance] using hacc
  | barredFailure =>
      refine h.stage_update rfl elsewhere (fun _ => ?_) (Function.update_self ..)
      simp [sends, acceptances, Occurrence.IsSend, Occurrence.IsAcceptance]
  | @delivered j now report r rest r' hp hr =>
      obtain ⟨-, rfl⟩ := Record.markDelivered_eq_ok_iff.1 hr
      obtain ⟨ha, -, hsends⟩ : w.Stage j (.accepted report r rest) := hp ▸ (h.held j).stage
      refine h.stage_update rfl (fun _ _ => rfl) (fun _ => same) ?_
      exact ⟨ha, rfl, hsends, fun hne => absurd rfl hne⟩
  | @saved j report r failure rest _ hp =>
      have ha : w.awaiting j = false := idle (by simp [hp])
      refine h.stage_update rfl (fun _ _ => rfl) (fun _ => ?_) ?_
      · simp [sends, acceptances, Occurrence.IsSend, Occurrence.IsAcceptance]
      · cases failure with
        | none => cases rest <;> exact ha
        | some e => exact ha
  | failed | stuck => cases ok
  | crashed => exact ok.elim

theorem end_of_attempt (hs : Step f w a w') (ok : w.Undisturbed a) (h : w.Custody f)
    (hr : (w.pass k).underWay? = some r) :
    (∃ r', (w'.pass k).underWay? = some r' ∧ r'.id = r.id) ∨ w'.store.get? r.id = none ∨
      (w'.store.get? r.id = some r ∧ w'.sends r.id = r.attempts ∧
        (r.state ≠ .delivered → w'.acceptances r.id = 0)) := by
  have hpending : ∀ {report u rest}, w.pass k = .sending report u rest ∨ w.pass k = .accepted report u rest →
      u.state = .pending := by
    intro report u rest hp
    have hst := (h.held k).stage
    rcases hp with hp | hp
    · rw [hp] at hst; exact hst.1
    · rw [hp] at hst; exact hst.2.1
  have hcall : ∀ e, a ≠ .call k (some e) := by
    rintro e rfl
    cases ok
  have hcrash : a ≠ .crash k := by
    rintro rfl
    exact ok
  rcases hs.end_of_attempt hr hpending hcall hcrash with hmore | hnone | ⟨report, failure, rest, hp, hv, hh⟩
  · exact Or.inl hmore
  · exact Or.inr (Or.inl hnone)
  · obtain ⟨-, -, hsends, hacc⟩ : w.Stage k (.saving report r failure rest) := hp ▸ (h.held k).stage
    refine Or.inr (Or.inr ⟨hv, ?_, fun hne => ?_⟩)
    · simpa [sends, hh, Occurrence.IsSend] using hsends
    · simpa [acceptances, hh, Occurrence.IsAcceptance] using hacc hne

theorem counted_step (hs : Step f w a w') (ok : w.Undisturbed a) (h : w.Custody f) {id : RecordId}
    (hv : w'.store.get? id = some v) (hno : ∀ {k r}, (w'.pass k).underWay? = some r → r.id ≠ id) :
    w'.sends id = v.attempts ∧ (v.state ≠ .delivered → w'.acceptances id = 0) := by
  by_cases hany : ∃ k r, (w.pass k).underWay? = some r ∧ r.id = id
  · obtain ⟨k, r, hr, rfl⟩ := hany
    rcases end_of_attempt hs ok h hr with ⟨r', hr', he⟩ | hnone | ⟨hsome, hsends, hacc⟩
    · exact absurd he (hno hr')
    · rw [hnone] at hv; cases hv
    · obtain rfl : r = v := Option.some.inj (hsome.symm.trans hv)
      exact ⟨hsends, hacc⟩
  · have hold : ∀ {k r}, (w.pass k).underWay? = some r → r.id ≠ id :=
      fun hr he => hany ⟨_, _, hr, he⟩
    obtain ⟨h₁, h₂⟩ := counts_eq hs hold
    have hid := Store.id_of_get? hv
    rw [h₁, h₂]
    rcases hs.stored_cases (hid.symm ▸ hv) with ⟨u, lock, hu, rfl⟩ | ⟨k, report, failure, rest, hp, -⟩ |
      ⟨-, tx, t, ht, hm⟩
    · exact h.counted (v := u) (hid ▸ hu) hold
    · exact absurd hid (hold (k := k) (by rw [hp]; rfl))
    · obtain ⟨hsends, hacc⟩ := h.unknown (hid ▸ h.fresh.uncommitted ht hm)
      refine ⟨hsends.trans ?_, fun _ => hacc⟩
      rw [h.fresh.staged_new ht hm]
      rfl

theorem unknown_step (hs : Step f w a w') (h : w.Custody f) {id : RecordId} (hc : ¬ w'.Committed id) :
    w'.sends id = 0 ∧ w'.acceptances id = 0 := by
  have hc : ¬ w.Committed id := fun hold => hc (hs.committed_mono hold)
  have hno : ∀ {k r}, (w.pass k).underWay? = some r → r.id ≠ id := by
    rintro k r hr rfl
    exact hc (h.known (Pass.mem_copies.2 (Or.inl hr)))
  obtain ⟨h₁, h₂⟩ := counts_eq hs hno
  rw [h₁, h₂]
  exact h.unknown hc

theorem once_step (hs : Step f w a w') (h : w.Custody f) (id : RecordId) : w'.acceptances id ≤ 1 := by
  have old : w.acceptances id ≤ 1 := h.once id
  cases hs with
  | @accepted k report r rest hp =>
      obtain ⟨-, hacc, -⟩ : w.Stage k (.sending report r rest) := hp ▸ (h.held k).stage
      simp only [acceptances, List.countP_cons, Occurrence.IsAcceptance] at hacc old ⊢
      by_cases he : r.id = id
      · rw [← he, hacc]; simp
      · simpa [he] using old
  | committed | cleaned =>
      rw [acceptances, Occurrence.countP_map_append fun _ => rfl]
      exact old
  | fetched | handedOver | refused | barredFailure | saved =>
      simpa [acceptances, Occurrence.IsAcceptance] using old
  | _ => exact old

theorem step (hf : Function.Injective f.machine) (hs : Step f w a w') (ok : w.Undisturbed a)
    (h : w.Custody f) : w'.Custody f where
  fresh := h.fresh.step hs
  locked_pending := h.locked_pending_step hs
  known hr := hs.committed_mono (h.known_step hs hr)
  apart := h.apart_step hf hs
  held k :=
    { nodup := hs.nodup_copies (h.held k).nodup
      waiting := h.waiting_step hf hs ok
      underWay := h.underWay_step hf hs ok
      stage := h.stage_step hs ok }
  unknown := h.unknown_step hs
  once := h.once_step hs
  counted := h.counted_step hs ok

theorem run (hf : Function.Injective f.machine) {as : List Action}
    (hok : (World.start .empty).Along f Undisturbed as) : ((World.start .empty).run f as).Custody f :=
  World.run_induction (fun hs ok h => h.step hf hs ok) hok (start f)

end World.Custody

end Outbox

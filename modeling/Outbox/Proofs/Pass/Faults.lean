import Outbox.Proofs.Pass.Attempts

/-!
# Faults of the store

A pass on a store of its own whose calls may fail. Whatever fails, no attempt is left half made, and the
result tells what has happened.
-/

namespace Outbox

/-! ## The result -/

/-- What stands behind a result. -/
inductive Verdict (e : Surroundings) (s : Pass.Settings) (store : Store) (w : Scene) :
    Except OutboxError Report → Prop where
  | delivered (hall : ∀ {i : Nat} {u}, (store.batch s.machine)[i]? = some u →
        w.sends[i]? = some (u.message, .ok ()) ∧
          ∃ v, w.store.get? u.id = some v ∧ u.Attempted s.policy (.ok ()) v)
      (hno : w.setback? = none) :
      Verdict e s store w (.ok ⟨store.count (Store.Claimable .pending), (store.batch s.machine).length⟩)
  | refused {i : Nat} {u v cause} (hu : (store.batch s.machine)[i]? = some u)
      (hs : w.sends[i]? = some (u.message, .error cause)) (hv : w.store.get? u.id = some v)
      (ha : u.Attempted s.policy (.error cause) v) (hno : w.setback? = none) :
      Verdict e s store w (.error (.delivery u.id v.attempts cause))
  | setback {x op i} (hx : w.setback? = some x) (hf : e.faults op i = some x) :
      Verdict e s store w (.error x)

/-- The next record of the batch is `u`, and `rest` are the copies of those behind it. -/
structure Due (s : Pass.Settings) (store : Store) (w : Scene) (n : Nat) (u : Record) (rest : List Record) :
    Prop where
  ledger : Ledger s store n w
  due : (store.batch s.machine)[n]? = some u
  behind : rest.map Record.unlocked = ((store.batch s.machine).drop (n + 1)).map Record.unlocked

/-- Where a pass stands, stage by stage. -/
inductive Kept (e : Surroundings) (s : Pass.Settings) (store : Store) : Pass → Scene → Prop where
  | opening {w} (h : Ledger s store 0 w) : Kept e s store .opening w
  | claiming {now w} (h : Ledger s store 0 w) : Kept e s store (.claiming now) w
  | fetching {n w} (h : Ledger s store 0 w) : Kept e s store (.fetching n) w
  | starting {n rest w} {u r : Record} (h : Due s store w n u rest) (hr : r.unlocked = u.unlocked) :
      Kept e s store (.starting ⟨store.count (Store.Claimable .pending), n⟩ r rest) w
  | sending {n rest w tried} {u r r' : Record} (h : Due s store w n u rest) (hr : r.unlocked = u.unlocked)
      (ht : r.startAttempt tried = some r') :
      Kept e s store (.sending ⟨store.count (Store.Claimable .pending), n⟩ r' rest) w
  | accepted {n rest w tried} {u r r' : Record} (h : Due s store w n u rest) (hr : r.unlocked = u.unlocked)
      (ht : r.startAttempt tried = some r') :
      Kept e s store (.accepted ⟨store.count (Store.Claimable .pending), n⟩ r' rest)
        ⟨w.store, .sent u.message (.ok ()) :: w.deeds⟩
  | delivered {n u v rest w} (h : Due s store w n u rest) (ha : u.Attempted s.policy (.ok ()) v) :
      Kept e s store (.saving ⟨store.count (Store.Claimable .pending), n⟩ v none rest)
        ⟨w.store, .sent u.message (.ok ()) :: w.deeds⟩
  | refused {n u v cause rest w} (h : Due s store w n u rest) (ha : u.Attempted s.policy (.error cause) v) :
      Kept e s store (.saving ⟨store.count (Store.Claimable .pending), n⟩ v (some cause) rest)
        ⟨w.store, .sent u.message (.error cause) :: w.deeds⟩
  | releasing {result w} (hb : Books s store w) (hv : Verdict e s store w result) :
      Kept e s store (.releasing result) w

namespace Kept

variable {e : Surroundings} {s : Pass.Settings} {store : Store} {n : Nat} {w w' : Scene} {p p' : Pass}

theorem goesOn (h : Kept e s store p w) : p.next s ≠ none := by
  cases h <;> exact (nomatch ·)

theorem proceed {rest : List Record} (h : Ledger s store n w)
    (hrest : rest.map Record.unlocked = ((store.batch s.machine).drop n).map Record.unlocked) :
    Kept e s store (Pass.proceed ⟨store.count (Store.Claimable .pending), n⟩ rest) w := by
  cases rest with
  | nil =>
      have hn : n = (store.batch s.machine).length := by
        have hdrop := congrArg List.length hrest
        rw [List.length_map, List.length_map, List.length_drop, List.length_nil] at hdrop
        exact Nat.le_antisymm h.le (Nat.le_of_sub_eq_zero hdrop.symm)
      subst hn
      refine .releasing h.books (.delivered ?_ h.unfailed.setback?_eq)
      intro i u hu
      refine ⟨?_, h.accepted u ?_⟩
      · rw [h.sends, List.take_length, List.getElem?_map, hu]
        rfl
      · rw [List.take_length]
        exact List.mem_of_getElem? hu
  | cons r rest =>
      cases hdrop : (store.batch s.machine).drop n with
      | nil => rw [hdrop] at hrest; cases hrest
      | cons u us =>
          have hu : (store.batch s.machine)[n]? = some u := by
            rw [← List.head?_drop, hdrop]
            rfl
          have hus : (store.batch s.machine).drop (n + 1) = us := by
            rw [← List.tail_drop, hdrop]
            rfl
          rw [hdrop, List.map_cons, List.map_cons, List.cons.injEq] at hrest
          exact .starting ⟨h, hu, hus ▸ hrest.2⟩ hrest.1

theorem fail {a : Answer} {c : Call a} {x : OutboxError} (hb : Books s store w) (hno : w.setback? = none)
    (hc : c.operation ∈ [.claim, .fetch, .save]) (hf : e.faults c.operation w.now = some x) :
    Kept e s store (.releasing (.error x)) (w.after (some x) c) := by
  refine .releasing (hb.call c fun _ => Or.inl rfl) (.setback ?_ hf)
  rw [Scene.setback?_after, hno, Option.none_or]
  exact if_pos hc

theorem turn (hl : ∀ r ∈ store.records, r.lock ≠ none → r.state = .pending)
    (ha : ∀ r ∈ store.records, r.attempts < Record.maxAttempts) (hm : ∀ n st, e.meanwhile n st = st)
    (ho : p.Opens e s store w) (h : Kept e s store p w) (ht : Pass.Turn e s w p p' w') :
    Kept e s store p' w' := by
  have begun : ∀ {r r' u : Record} {tried}, r.unlocked = u.unlocked → r.startAttempt tried = some r' →
      r'.message = u.message ∧ r'.state = u.state := by
    intro r r' u tried hr ht
    have hmessage := congrArg Record.message hr
    have hstate := congrArg Record.state hr
    obtain ⟨-, rfl⟩ := Record.startAttempt_eq_some_iff.1 ht
    exact ⟨hmessage, hstate⟩
  have sent : ∀ {r u : Record} {answer}, r.message = u.message → e.answers w.now = answer →
      e.sending r.message w = ⟨w.store, .sent u.message answer :: w.deeds⟩ := by
    intro r u answer hr hanswer
    rw [Surroundings.sending, hm, hanswer, hr]
  cases ht with
  | opened =>
      cases h with
      | opening h => exact .claiming h
  | claimed =>
      cases h with
      | claiming h => exact .fetching (h.claim _)
  | @fetched n =>
      cases h with
      | fetching h =>
          obtain ⟨-, now, -, hbatch⟩ := ho.fetch
          obtain ⟨rfl, -⟩ := ho
          refine proceed (h.fetch _) ?_
          rw [hbatch, List.map_map, List.drop_zero]
          exact List.map_congr_left fun _ _ => Store.unlocked_claimed
  | attempted hr =>
      cases h with
      | starting h hu => exact .sending h hu hr
  | jammed hr =>
      cases h with
      | starting h hu =>
          have hlt := ha _ (Store.mem_batch.1 (List.mem_of_getElem? h.due)).1
          have hattempts := congrArg Record.attempts hu
          exact absurd (Record.startAttempt_eq_none_iff.1 hr) (Nat.not_le_of_lt (hattempts ▸ hlt))
  | accepted hanswer =>
      cases h with
      | sending h hu hr =>
          rw [sent (begun hu hr).1 hanswer]
          exact .accepted h hu hr
  | refused hanswer hf =>
      cases h with
      | sending h hu hr =>
          rw [sent (begun hu hr).1 hanswer]
          exact .refused h (Record.Attempted.of_unlocked (.failed hr hf) hu)
  | barredFailure hanswer hf =>
      cases h with
      | sending h hu hr =>
          have hp := (begun hu hr).2.trans (Store.pending_of_mem_batch hl (List.mem_of_getElem? h.due))
          rw [Record.markFailed_eq_ok_iff.2 ⟨hp, rfl⟩] at hf
          cases hf
  | delivered hd =>
      cases h with
      | accepted h hu hr => exact .delivered h (Record.Attempted.of_unlocked (.delivered hr hd) hu)
  | barredDelivery hd =>
      cases h with
      | accepted h hu hr =>
          have hp := (begun hu hr).2.trans (Store.pending_of_mem_batch hl (List.mem_of_getElem? h.due))
          rw [Record.markDelivered_eq_ok_iff.2 ⟨hp, rfl⟩] at hd
          cases hd
  | saved hf hv =>
      cases h with
      | delivered h ha => exact proceed (h.ledger.next h.due ha _) h.behind
      | refused h ha =>
          obtain ⟨hb, hget⟩ := (Books.send h.ledger h.due).save h.due h.ledger.getElem?_sends ha
          have hid := ha.eq_of.1
          refine .releasing (hb.logging _) ?_
          rw [hid]
          refine .refused h.due ?_ hget ha ?_
          · rw [Scene.sends_logging, Scene.sends_after]
            exact h.ledger.getElem?_sends
          · rw [Scene.setback?_logging, Scene.setback?_after, Scene.setback?_sent,
              h.ledger.unfailed.setback?_eq]
            simp only [Store.call, Store.perform_save (Option.isSome_of_mem hv), Deed.setback?, Option.none_or]
  | missed hf hv =>
      cases h with
      | delivered h ha | refused h ha =>
          have hfound := h.ledger.books.isSome_get? h.due
          rw [← ha.eq_of.1, hv] at hfound
          cases hfound
  | failed hp hc hf =>
      cases h with
      | claiming h | fetching h =>
          cases hp
          exact fail h.books h.unfailed.setback?_eq (by simp [Call.operation]) hf
      | delivered h ha | refused h ha =>
          cases hp
          refine fail (Books.send h.ledger h.due) ?_ (by simp [Call.operation]) hf
          rw [Scene.setback?_sent]
          exact h.ledger.unfailed.setback?_eq
      | releasing =>
          cases hp
          exact absurd rfl hc
      | _ => cases hp

end Kept

/-! ## The whole pass -/

namespace Scene

variable {s : Pass.Settings} {result : Except OutboxError Report} {fault : Option OutboxError} {w : Scene}

theorem get?_release (id : RecordId) : (w.store.call fault (.release s.machine)).2.get? id = w.store.get? id ∨
    (w.store.call fault (.release s.machine)).2.get? id = (w.store.get? id).map Record.unlocked := by
  cases fault with
  | some x => exact Or.inl rfl
  | none =>
      show (w.store.unlock (Store.OwnedBy s.machine)).get? id = _ ∨
        (w.store.unlock (Store.OwnedBy s.machine)).get? id = _
      rw [Store.get?_unlock]
      cases w.store.get? id with
      | none => exact Or.inl rfl
      | some r =>
          rw [Option.map_some, Option.map_some]
          split
          · exact Or.inr rfl
          · exact Or.inl rfl

theorem sends_release (w : Scene) : (w.release s result fault).sends = w.sends := by
  rw [release, sends_logging, sends_after]

theorem setback?_release (w : Scene) : (w.release s result fault).setback? = w.setback? := by
  have hno : Deed.setback? (.called w.store (.release s.machine) (w.store.call fault (.release s.machine)).1) =
      none := by
    cases fault <;> rfl
  rw [release, setback?_logging, setback?_after, hno, Option.or_none]

end Scene

/-- What the result of a pass tells. -/
structure Truthful (e : Surroundings) (s : Pass.Settings) (store : Store) (result : Except OutboxError Report)
    (w : Scene) : Prop where
  ok : ∀ {report}, result = .ok report →
    report = ⟨store.count (Store.Claimable .pending), (store.batch s.machine).length⟩ ∧
      ∀ {i : Nat} {u}, (store.batch s.machine)[i]? = some u → w.sends[i]? = some (u.message, .ok ()) ∧
        ∃ v, w.store.get? u.id = some v ∧ u.Attempted s.policy (.ok ()) v
  /-- Unless a call fails with such an error itself. -/
  delivery : (∀ op i x, e.faults op i = some x → x.isDelivery = false) →
    ∀ {id n cause}, result = .error (.delivery id n cause) →
      ∃ (i : Nat) (u v : Record), (store.batch s.machine)[i]? = some u ∧ u.id = id ∧
        w.sends[i]? = some (u.message, .error cause) ∧ w.store.get? id = some v ∧ v.attempts = n ∧
        u.Attempted s.policy (.error cause) v
  error : ∀ {x}, result = .error x → x.isDelivery = false → w.setback? = some x
  setback : ∀ {x}, w.setback? = some x → result = .error x

namespace Verdict

variable {e : Surroundings} {s : Pass.Settings} {store : Store} {result : Except OutboxError Report}
  {w : Scene}

theorem release (h : Verdict e s store w result) (fault : Option OutboxError) :
    Verdict e s store (w.release s result fault) result := by
  -- What is put on a record in an attempt has no lock that the release could take away.
  have kept : ∀ {u v : Record} {a}, w.store.get? u.id = some v → u.Attempted s.policy a v →
      (w.release s result fault).store.get? u.id = some v := by
    intro u v a hv ha
    refine (Scene.get?_release u.id).elim (·.trans hv) fun he => he.trans ?_
    rw [hv, Option.map_some, Record.unlocked_of_lock ha.eq_of.2.2]
  have hno : (w.release s result fault).setback? = w.setback? := w.setback?_release
  have hsends : (w.release s result fault).sends = w.sends := w.sends_release
  cases h with
  | delivered hall h =>
      refine .delivered (fun hu => ?_) (hno.trans h)
      obtain ⟨hs, v, hv, ha⟩ := hall hu
      exact ⟨hsends ▸ hs, v, kept hv ha, ha⟩
  | refused hu hs hv ha h => exact .refused hu (hsends ▸ hs) (kept hv ha) ha (hno.trans h)
  | setback hx hf => exact .setback (hno.trans hx) hf

theorem truthful (h : Verdict e s store w result) : Truthful e s store result w := by
  cases h with
  | delivered hall hno =>
      constructor
      · intro report he
        cases he
        exact ⟨rfl, hall⟩
      · intro _ _ _ _ he; cases he
      · intro _ he; cases he
      · intro x hx; rw [hno] at hx; cases hx
  | @refused i u v cause hu hs hv ha hno =>
      constructor
      · intro _ he; cases he
      · intro _ id n cause' he
        cases he
        exact ⟨i, u, v, hu, rfl, hs, hv, rfl, ha⟩
      · intro x he hx
        cases he
        cases hx
      · intro x hx; rw [hno] at hx; cases hx
  | setback hx hf =>
      constructor
      · intro _ he; cases he
      · intro hfaults id n cause he
        cases he
        cases hfaults _ _ _ hf
      · intro x he _
        cases he
        exact hx
      · intro x hx'
        rw [hx] at hx'
        cases hx'
        rfl

end Verdict

/-- A pass whose calls may fail, on a store of its own whose locked records are pending and whose attempt
counters have room. -/
theorem deliverBatch_truthful (e : Surroundings) (s : Pass.Settings) (store : Store)
    (hl : ∀ r ∈ store.records, r.lock ≠ none → r.state = .pending)
    (ha : ∀ r ∈ store.records, r.attempts < Record.maxAttempts) (hm : ∀ n st, e.meanwhile n st = st) :
    ∃ result w, deliverBatch e.host s ⟨store, []⟩ = (some result, w) ∧ Books s store w ∧
      Truthful e s store result w ∧
      ∀ g, (deliverBatch (e.withFaults .release g).host s ⟨store, []⟩).1 = some result := by
  obtain ⟨result, w, h, hout⟩ := deliverBatch_of_turns (e := e) (P := Kept e s store)
    (fun ho h ht => h.turn hl ha hm ho ht) Kept.goesOn (.opening .start)
  have he := hout (e.faults .release)
  rw [e.withFaults_self] at he
  cases h with
  | releasing hb hv =>
      exact ⟨result, _, he, (hb.call _ Scene.get?_release).logging _, (hv.release _).truthful,
        fun g => congrArg Prod.fst (hout g)⟩

/-- The broker accepts everything, and the second delivery cannot be saved. -/
def Surroundings.failing : Surroundings where
  clock _ := default
  answers _ := .ok ()
  faults op i := if op = .save ∧ i = 7 then some (.store "update_record_by_id" (.reported "down")) else none

theorem deliverBatch_truthful_mixed :
    (∀ r ∈ Store.mixed.records, r.lock ≠ none → r.state = .pending) ∧
      (∀ r ∈ Store.mixed.records, r.attempts < Record.maxAttempts) ∧
      (∀ n st, Surroundings.failing.meanwhile n st = st) ∧
      ∃ result w,
        deliverBatch Surroundings.failing.host ⟨⟨"a"⟩, .limited 1⟩ ⟨.mixed, []⟩ = (some result, w) ∧
        Books ⟨⟨"a"⟩, .limited 1⟩ .mixed w ∧ Truthful .failing ⟨⟨"a"⟩, .limited 1⟩ .mixed result w ∧
        ∀ g, (deliverBatch (Surroundings.failing.withFaults .release g).host ⟨⟨"a"⟩, .limited 1⟩
          ⟨.mixed, []⟩).1 = some result := by
  have hm : ∀ n st, Surroundings.failing.meanwhile n st = st := fun _ _ => rfl
  exact ⟨Store.mixed_pending, Store.mixed_attempts, hm,
    deliverBatch_truthful .failing ⟨⟨"a"⟩, .limited 1⟩ .mixed Store.mixed_pending Store.mixed_attempts hm⟩

end Outbox

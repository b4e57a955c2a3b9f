import Outbox.Proofs.Pass.Turns

/-!
# The release of the locks

However a pass goes, it releases its locks once, as the last thing that it asks of the store.
-/

namespace Outbox

def Deed.Calls (op : Operation) : Deed → Prop
  | called _ c _ => c.operation = op
  | _ => False

namespace Pass

variable {e : Surroundings} {s : Settings} {store : Store} {w w' : Scene} {p p' : Pass}

theorem Turn.calls_cases (ht : Turn e s w p p' w') {d : Deed} (hd : d ∈ w'.deeds)
    (hc : d.Calls .release) : d ∈ w.deeds := by
  have logged : ∀ {entries : List LogEntry}, d ∉ entries.map .logged := by
    intro entries hd
    obtain ⟨entry, -, rfl⟩ := List.mem_map.1 hd
    exact hc
  have called : ∀ {found a} {c : Call a} {answer}, d ∈ Deed.called found c answer :: w.deeds →
      c.operation ≠ .release → d ∈ w.deeds := by
    intro found a c answer hd hne
    refine (List.mem_cons.1 hd).resolve_left ?_
    rintro rfl
    exact hne hc
  have sent : ∀ {m answer}, d ∈ Deed.sent m answer :: w.deeds → d ∈ w.deeds := by
    intro m answer hd
    refine (List.mem_cons.1 hd).resolve_left ?_
    rintro rfl
    exact hc
  cases ht with
  | opened | attempted | jammed | delivered | barredDelivery => exact hd
  | accepted | refused | barredFailure => exact sent hd
  | claimed | missed => exact called hd (fun h => nomatch h)
  | fetched | saved =>
      exact called ((List.mem_append.1 hd).resolve_left logged) (fun h => nomatch h)
  | failed _ hne => exact called hd hne

theorem Turn.untried_cases (ht : Turn e s w p p' w') :
    p'.untried ⊆ p.untried ∨
      ∃ n, p = .fetching n ∧ e.faults .fetch w.now = none ∧ p'.untried = w.store.fetch s.machine := by
  cases ht with
  | fetched hf => exact Or.inr ⟨_, rfl, hf, untried_proceed⟩
  | attempted => exact Or.inl (List.subset_cons_self ..)
  | accepted | refused | delivered => exact Or.inl (List.Subset.refl _)
  | saved => exact Or.inl untried_saved
  | _ => exact Or.inl (List.nil_subset _)

theorem next_proceed {report : Report} {batch : List Record} : (proceed report batch).next s ≠ none := by
  cases batch <;> exact (nomatch ·)

theorem next_saved {report : Report} {r : Record} {failure : Option BrokerError} {rest : List Record}
    {a : Except OutboxError Unit} : (Pass.saved report r failure rest a).1.next s ≠ none := by
  cases a with
  | error => exact (nomatch ·)
  | ok =>
      cases failure with
      | none => exact next_proceed
      | some => exact (nomatch ·)

/-- A pass on its way to its release. -/
structure Unreleased (s : Settings) (p : Pass) (w : Scene) : Prop where
  goesOn : p.next s ≠ none
  unreleased : ∀ d ∈ w.deeds, ¬ d.Calls .release
  roomy : ∀ r ∈ p.untried, r.attempts < Record.maxAttempts

theorem Unreleased.turn
    (hroom : e.faults .claim 0 = none → e.faults .fetch 1 = none →
      ∀ r ∈ store.batch s.machine, r.attempts < Record.maxAttempts)
    (ho : p.Opens e s store w) (h : Unreleased s p w) (ht : Turn e s w p p' w') : Unreleased s p' w' where
  goesOn := by
    cases ht with
    | @jammed report r rest hr =>
        have hlt : r.attempts < Record.maxAttempts := h.roomy r List.mem_cons_self
        exact absurd (Record.startAttempt_eq_none_iff.1 hr) (Nat.not_le_of_lt hlt)
    | fetched => exact next_proceed
    | saved => exact next_saved
    | _ => exact (nomatch ·)
  unreleased d hd hc := h.unreleased d (ht.calls_cases hd hc) hc
  roomy := by
    rcases ht.untried_cases with hsub | ⟨n, rfl, hf, heq⟩
    · exact fun r hr => h.roomy r (hsub hr)
    · obtain ⟨hnow, now, -, hbatch⟩ := ho.fetch
      rw [hnow] at hf
      rw [heq, hbatch]
      intro c hc
      obtain ⟨r, hr, rfl⟩ := List.mem_map.1 hc
      obtain ⟨lock, he⟩ := Store.claimed_eq s.machine now r
      rw [he]
      exact hroom ho.2.1 hf r hr

end Pass

/-! ## The whole pass -/

/-- Between the scene `w` and the end of the pass, the scene `w'`, there is the release and nothing else. -/
structure Released (e : Surroundings) (s : Pass.Settings) (w w' : Scene) : Prop where
  first : ∀ d ∈ w.deeds, ¬ d.Calls .release
  last : ∃ (entries : List LogEntry) (answer : Except OutboxError Nat), w'.deeds =
    entries.map .logged ++ .called w.store (.release s.machine) answer :: w.deeds
  freed : e.faults .release w.now = none → ∀ r ∈ w'.store.records, r.owner? ≠ some s.machine
  others : e.faults .release w.now = none → ∀ id, w'.store.get? id =
    (w.store.get? id).map fun r => if r.owner? = some s.machine then r.unlocked else r
  reported : ∀ {x}, e.faults .release w.now = some x →
    .logged (.releaseFailed s.machine x) ∈ w'.deeds ∧ (LogEntry.releaseFailed s.machine x).level = .error

theorem Scene.released {e : Surroundings} {s : Pass.Settings} {w : Scene}
    {result : Except OutboxError Report} (h : Pass.Unreleased s (.releasing result) w) :
    Released e s w (w.release s result (e.faults .release w.now)) where
  first := h.unreleased
  last := by
    cases e.faults .release w.now
    · exact ⟨_, _, rfl⟩
    · exact ⟨_, _, rfl⟩
  freed hf r hr := by
    rw [hf] at hr
    obtain ⟨v, hv, rfl⟩ := List.mem_map.1 hr
    split
    · exact (nomatch ·)
    · rename_i howned
      simpa [Store.OwnedBy] using howned
  others hf id := by
    rw [hf]
    show (w.store.unlock (Store.OwnedBy s.machine)).get? id = _
    simp [Store.OwnedBy]
  reported hf := by
    rw [hf]
    exact ⟨List.mem_cons_self, rfl⟩

/-- Others may do what they like to the store while the broker has a message. -/
theorem deliverBatch_release (e : Surroundings) (s : Pass.Settings) (store : Store)
    (hroom : e.faults .claim 0 = none → e.faults .fetch 1 = none →
      ∀ r ∈ store.batch s.machine, r.attempts < Record.maxAttempts) :
    ∃ result w w', deliverBatch e.host s ⟨store, []⟩ = (some result, w') ∧ Released e s w w' ∧
      ∀ g, (deliverBatch (e.withFaults .release g).host s ⟨store, []⟩).1 = some result := by
  obtain ⟨result, w, h, hout⟩ := deliverBatch_of_turns (P := Pass.Unreleased s)
    (fun ho h ht => h.turn hroom ho ht) Pass.Unreleased.goesOn
    ⟨fun h => (nomatch h), fun d hd => (nomatch hd), fun r hr => (nomatch hr)⟩
  have he := hout (e.faults .release)
  rw [e.withFaults_self] at he
  exact ⟨result, w, _, he, Scene.released h, fun g => congrArg Prod.fst (hout g)⟩

/-- While the broker has a message others take its record away, and lock all that is free under the name
of the pass itself. -/
def Surroundings.crowded : Surroundings where
  clock _ := default
  answers i := if i = 3 then .ok () else .error { message := "nack" }
  faults _ _ := none
  meanwhile n st :=
    ((st.unlock fun _ => true).remove fun r => n = 3 && r.id = .nth 1).claim ⟨"a"⟩ default .pending

theorem deliverBatch_release_mixed :
    (Surroundings.crowded.faults .claim 0 = none → Surroundings.crowded.faults .fetch 1 = none →
      ∀ r ∈ Store.mixed.batch ⟨"a"⟩, r.attempts < Record.maxAttempts) ∧
    ∃ result w w',
      deliverBatch Surroundings.crowded.host ⟨⟨"a"⟩, .limited 1⟩ ⟨.mixed, []⟩ = (some result, w') ∧
      Released .crowded ⟨⟨"a"⟩, .limited 1⟩ w w' ∧
      ∀ g, (deliverBatch (Surroundings.crowded.withFaults .release g).host ⟨⟨"a"⟩, .limited 1⟩
        ⟨.mixed, []⟩).1 = some result :=
  ⟨fun _ _ => Store.mixed_room,
    deliverBatch_release .crowded ⟨⟨"a"⟩, .limited 1⟩ .mixed fun _ _ => Store.mixed_room⟩

end Outbox

import Mathlib.Data.List.Pairwise
import Outbox.Proofs.Pass.Rounds

/-!
# Delivery in age order

One machine sends the records of a store that nobody else uses in the order of their age, from one pass to
the next as well, and nothing is accepted before an older record that is still pending.
-/

namespace Outbox

def Record.Older (a b : Record) : Prop :=
  a.createdOn < b.createdOn ∨ (a.createdOn = b.createdOn ∧ a.id < b.id)

namespace Record

variable {a b : Record}

theorem Older.olderOrSame (h : a.Older b) : Store.olderOrSame a b = true :=
  Store.olderOrSame_iff.2 (h.imp_right fun h => ⟨h.1, Nat.le_of_lt h.2⟩)

theorem olderOrSame_of_age_eq (h : a.age = b.age) : Store.olderOrSame a b = true := by
  obtain ⟨hc, hi⟩ := Prod.mk.inj h
  exact Store.olderOrSame_iff.2 (Or.inr ⟨hc, Nat.le_of_eq (congrArg RecordId.number hi)⟩)

theorem Older.age_ne (h : a.Older b) : a.age ≠ b.age := by
  intro he
  obtain ⟨hc, hi⟩ := Prod.mk.inj he
  rcases h with h | ⟨-, h⟩
  · rw [hc] at h
    exact Int.lt_irrefl _ h
  · rw [hi] at h
    exact Nat.lt_irrefl _ h

theorem VersionOf.age_eq (h : a.VersionOf b) : a.age = b.age := Prod.ext h.2.2 h.1

end Record

namespace Sending

def isAccepted (x : Sending) : Bool :=
  match x.answer with
  | .ok _ => true
  | .error _ => false

/-- `r` is not older than the record that was sent, and younger if that was accepted. -/
def Precedes (x : Sending) (r : Record) : Prop :=
  Store.olderOrSame x.record r = true ∧ (x.answer = .ok () → x.record.Older r)

variable {x : Sending} {r r' : Record}

theorem isAccepted_iff : x.isAccepted = true ↔ x.answer = .ok () := by
  unfold isAccepted
  cases x.answer with
  | ok => exact ⟨fun _ => rfl, fun _ => rfl⟩
  | error => exact ⟨fun h => (nomatch h), fun h => (nomatch h)⟩

theorem Precedes.of_older (h : x.record.Older r) : x.Precedes r := ⟨h.olderOrSame, fun _ => h⟩

theorem Precedes.congr (h : x.Precedes r) (he : r.age = r'.age) : x.Precedes r' := by
  obtain ⟨hc, hi⟩ := Prod.mk.inj he
  simpa only [Precedes, Record.Older, Store.olderOrSame, hc, hi] using h

end Sending

namespace Round

variable {answers : Nat → Except BrokerError Unit} {s : Pass.Settings} {w w' : Solo} {xs : List Sending}
  {x y : Sending} {v : Record}

theorem sorted (h : Round answers s w xs w') : xs.Pairwise fun x y => x.record.Older y.record := by
  have hbatch := (w.store.batch_sorted s.machine).sublist (List.take_sublist xs.length _)
  have hages : (((w.store.batch s.machine).take xs.length).map Record.age).Pairwise fun a b =>
      a.1 < b.1 ∨ (a.1 = b.1 ∧ a.2 < b.2) := List.pairwise_map.2 hbatch
  rw [← h.order] at hages
  rwa [List.pairwise_map] at hages

theorem exists_taken (h : Round answers s w xs w') (hx : x ∈ xs) :
    ∃ u ∈ (w.store.batch s.machine).take xs.length, x.record.age = u.age := by
  have hm : x.record.age ∈ xs.map (·.record.age) := List.mem_map_of_mem hx
  rw [h.order] at hm
  obtain ⟨u, hu, he⟩ := List.mem_map.1 hm
  exact ⟨u, hu, he.symm⟩

theorem exists_sending (h : Round answers s w xs w') {u : Record}
    (hu : u ∈ (w.store.batch s.machine).take xs.length) : ∃ x ∈ xs, x.record.id = u.id := by
  have hm : u.age ∈ ((w.store.batch s.machine).take xs.length).map Record.age := List.mem_map_of_mem hu
  rw [← h.order] at hm
  obtain ⟨x, hx, he⟩ := List.mem_map.1 hm
  exact ⟨x, hx, (Prod.mk.inj he).2⟩

/-- Whatever is pending after a pass was pending before it. -/
theorem exists_pending (h : Round answers s w xs w') (hl : w.store.HeldBy s.machine)
    (hv : v ∈ w'.store.records) (hp : v.state = .pending) :
    ∃ u ∈ w.store.batch s.machine, v.age = u.age := by
  by_cases hno : ∀ x ∈ xs, x.record.id ≠ v.id
  · obtain ⟨u, hu, lock, rfl⟩ := h.exists_stored hv hno
    exact ⟨u, hl.mem_batch.2 ⟨hu, hp⟩, rfl⟩
  · push Not at hno
    obtain ⟨x, hx, hid⟩ := hno
    obtain ⟨u, hu, -, ha⟩ := h.exists_attempted hx hv hid
    exact ⟨u, hu, ha.versionOf.age_eq⟩

theorem precedes_of_mem (h : Round answers s w xs w') (hl : w.store.HeldBy s.machine) (hx : x ∈ xs)
    (hv : v ∈ w'.store.records) (hp : v.state = .pending) : x.Precedes v := by
  by_cases hno : ∀ y ∈ xs, y.record.id ≠ v.id
  · -- `v` was not reached, and stands behind all that was sent.
    obtain ⟨u, hu, lock, rfl⟩ := h.exists_stored hv hno
    have hb : u ∈ w.store.batch s.machine := hl.mem_batch.2 ⟨hu, hp⟩
    have hsorted := w.store.batch_sorted s.machine
    rw [← List.take_append_drop xs.length (w.store.batch s.machine)] at hb hsorted
    obtain ⟨u', hu', he⟩ := h.exists_taken hx
    rcases List.mem_append.1 hb with hb | hb
    · obtain ⟨y, hy, hid⟩ := h.exists_sending hb
      exact absurd hid (hno y hy)
    · have hold : u'.Older u := (List.pairwise_append.1 hsorted).2.2 u' hu' u hb
      obtain ⟨hc, hi⟩ := Prod.mk.inj he
      refine .of_older ?_
      simpa only [Record.Older, hc, hi] using hold
  · -- `v` is what was refused, which is the last that was sent.
    push Not at hno
    obtain ⟨y, hy, hid⟩ := hno
    obtain ⟨u, -, hyu, ha⟩ := h.exists_attempted hy hv hid
    have hage : y.record.age = v.age := hyu.age_eq.trans ha.versionOf.age_eq.symm
    have hfailed : y.answer ≠ .ok () := by
      intro hok
      rw [hok] at ha
      exact absurd (hp.symm.trans ha.delivered_of_ok) (by decide)
    let Earlier (x y : Sending) : Prop := x.record.Older y.record ∧ x.answer = .ok ()
    have hturns : xs.Pairwise fun x y => Earlier x y ∨ Earlier y x := (h.sorted.and h.failedLast).imp Or.inl
    have : Std.Symm fun x y => Earlier x y ∨ Earlier y x := ⟨fun _ _ => Or.symm⟩
    by_cases hxy : x = y
    · subst hxy
      exact ⟨Record.olderOrSame_of_age_eq hage, fun hacc => absurd hacc hfailed⟩
    · rcases hturns.forall hx hy hxy with ⟨hold, -⟩ | ⟨-, hok⟩
      · exact (Sending.Precedes.of_older hold).congr hage
      · exact absurd hok hfailed

end Round

/-! ## From one pass to the next -/

/-- What was sent so far stands in age order, and before everything that is still pending. -/
structure InTurn (xs : List Sending) (store : Store) : Prop where
  sent : xs.Pairwise fun x y => x.Precedes y.record
  waiting : ∀ {x v}, x ∈ xs → v ∈ store.records → v.state = .pending → x.Precedes v

theorem InTurn.round {answers : Nat → Except BrokerError Unit} {s : Pass.Settings} {w w' : Solo}
    {xs ys : List Sending} (hl : w.store.HeldBy s.machine) (h : InTurn xs w.store)
    (hr : Round answers s w ys w') : InTurn (xs ++ ys) w'.store where
  sent := by
    refine List.pairwise_append.2 ⟨h.sent, hr.sorted.imp Sending.Precedes.of_older, ?_⟩
    intro x hx y hy
    obtain ⟨u, hu, -, hyu, -⟩ := hr.attempted hy
    obtain ⟨hm, hp⟩ := hl.mem_batch.1 hu
    exact (h.waiting hx hm hp).congr hyu.age_eq.symm
  waiting {x v} hx hv hp := by
    rcases List.mem_append.1 hx with hx | hx
    · obtain ⟨u, hu, he⟩ := hr.exists_pending hl hv hp
      obtain ⟨hm, hpu⟩ := hl.mem_batch.1 hu
      exact (h.waiting hx hm hpu).congr he.symm
    · exact hr.precedes_of_mem hl hx hv hp

/-- How a run of passes sends the records of a store. -/
structure InAgeOrder (answers : Nat → Except BrokerError Unit) (store : Store) (xs : List Sending)
    (w : Solo) : Prop where
  sendings : Sendings answers ⟨store, [], 0⟩ xs w
  sent : xs.Pairwise fun x y => Store.olderOrSame x.record y.record = true
  accepted : (xs.filter Sending.isAccepted).Pairwise fun x y => x.record.Older y.record
  once : ((xs.filter Sending.isAccepted).map (·.record.id)).Nodup
  /-- Nothing that is accepted leaves an older record behind. -/
  waiting : ∀ {x v}, x ∈ xs → x.answer = .ok () → v ∈ w.store.records → v.state = .pending →
    x.record.Older v

theorem rounds_inAgeOrder (clock : Nat → Instant) (answers : Nat → Except BrokerError Unit)
    (s : Pass.Settings) (store : Store) (hl : store.HeldBy s.machine) (k : Nat) :
    InAgeOrder answers store (Pass.rounds (Solo.host clock answers) s k ⟨store, [], 0⟩).1
      (Pass.rounds (Solo.host clock answers) s k ⟨store, [], 0⟩).2 := by
  have hturn : InTurn (Pass.rounds (Solo.host clock answers) s k ⟨store, [], 0⟩).1
      (Pass.rounds (Solo.host clock answers) s k ⟨store, [], 0⟩).2.store :=
    Pass.rounds_induction (P := fun xs w => InTurn xs w.store) hl ⟨.nil, (nomatch ·)⟩
      (fun hl h hr => h.round hl hr) k
  have hall : Sendings answers ⟨store, [], 0⟩
      (Pass.rounds (Solo.host clock answers) s k ⟨store, [], 0⟩).1
      (Pass.rounds (Solo.host clock answers) s k ⟨store, [], 0⟩).2 := Pass.sendings_rounds hl k
  have hacc : ((Pass.rounds (Solo.host clock answers) s k ⟨store, [], 0⟩).1.filter
      Sending.isAccepted).Pairwise fun x y => x.record.Older y.record :=
    List.pairwise_filter.2 (hturn.sent.imp fun h hx _ => h.2 (Sending.isAccepted_iff.1 hx))
  refine ⟨hall, hturn.sent.imp And.left, hacc, ?_, fun hx ha hv hp => (hturn.waiting hx hv hp).2 ha⟩
  refine List.pairwise_map.2 (hacc.imp_of_mem fun {x y} hx hy hold he => hold.age_ne ?_)
  -- Sendings of one id are versions of the same stored record.
  obtain ⟨u, hu, hxu⟩ := hall.origin (List.mem_of_mem_filter hx)
  obtain ⟨v, hv, hyv⟩ := hall.origin (List.mem_of_mem_filter hy)
  obtain rfl := Store.eq_of_id_eq hu hv (hxu.1.symm.trans (he.trans hyv.1))
  exact hxu.age_eq.trans hyv.age_eq.symm

theorem rounds_inAgeOrder_restarted :
    Store.restarted.HeldBy ⟨"a"⟩ ∧
      InAgeOrder (fun i => if i = 1 then .error { message := "nack" } else .ok ()) .restarted
        (Pass.rounds (Solo.host (fun _ => default)
          fun i => if i = 1 then .error { message := "nack" } else .ok ())
          ⟨⟨"a"⟩, .unlimited⟩ 3 ⟨.restarted, [], 0⟩).1
        (Pass.rounds (Solo.host (fun _ => default)
          fun i => if i = 1 then .error { message := "nack" } else .ok ())
          ⟨⟨"a"⟩, .unlimited⟩ 3 ⟨.restarted, [], 0⟩).2 :=
  ⟨Store.heldBy_restarted,
    rounds_inAgeOrder (fun _ => default) (fun i => if i = 1 then .error { message := "nack" } else .ok ())
      ⟨⟨"a"⟩, .unlimited⟩ .restarted Store.heldBy_restarted 3⟩

end Outbox

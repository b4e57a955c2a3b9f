/-!
Lists kept in ascending order of a key, each key once: the representation of a finite map whose
entries carry their own keys.
-/

namespace Outbox.Keyed

variable {α κ : Type} [LT κ] (key : α → κ)

/-- Each key is below all that follow it. -/
def Ordered (l : List α) : Prop := l.Pairwise fun a b => key a < key b

/-- Puts `x` in its place, in the stead of an entry with the same key. -/
def insert [DecidableLT κ] (x : α) : List α → List α
  | [] => [x]
  | y :: ys =>
    if key x < key y then x :: y :: ys
    else if key y < key x then y :: insert x ys
    else x :: ys

def find? [DecidableLT κ] (k : κ) (l : List α) : Option α := l.find? fun x => ¬ key x < k ∧ ¬ k < key x

variable {key}

theorem mem_of_mem_insert [DecidableLT κ] {x y : α} {l : List α} (h : y ∈ insert key x l) : y = x ∨ y ∈ l := by
  induction l with
  | nil => simpa [insert] using h
  | cons z zs ih =>
    unfold insert at h
    split at h
    · simpa using h
    · split at h
      · rcases List.mem_cons.1 h with rfl | h
        · simp
        · rcases ih h with rfl | h <;> simp [*]
      · rcases List.mem_cons.1 h with rfl | h <;> simp [*]

theorem mem_insert_self [DecidableLT κ] (x : α) (l : List α) : x ∈ insert key x l := by
  induction l with
  | nil => simp [insert]
  | cons y ys ih =>
    unfold insert
    split
    · simp
    · split <;> simp [ih]

theorem Ordered.insert [DecidableLT κ] [Std.Trichotomous (α := κ) (· < ·)]
    [Trans (α := κ) (β := κ) (γ := κ) (· < ·) (· < ·) (· < ·)]
    {l : List α} (h : Ordered key l) (x : α) : Ordered key (insert key x l) := by
  induction l with
  | nil => simp [Keyed.insert, Ordered]
  | cons y ys ih =>
    have hy := (List.pairwise_cons.1 h).1
    have hys : Ordered key ys := (List.pairwise_cons.1 h).2
    unfold Keyed.insert
    split
    · next hxy =>
      refine List.pairwise_cons.2 ⟨fun z hz => ?_, h⟩
      rcases List.mem_cons.1 hz with rfl | hz
      · exact hxy
      · exact Trans.trans hxy (hy z hz)
    · split
      · next hyx =>
        refine List.pairwise_cons.2 ⟨fun z hz => ?_, ih hys⟩
        rcases mem_of_mem_insert hz with rfl | hz
        · exact hyx
        · exact hy z hz
      · next hxy hyx =>
        have hk : key x = key y := Std.Trichotomous.trichotomous _ _ hxy hyx
        exact List.pairwise_cons.2 ⟨fun z hz => hk ▸ hy z hz, hys⟩

theorem Ordered.map {l : List α} (h : Ordered key l) {f : α → α} (hf : ∀ x, key (f x) = key x) :
    Ordered key (l.map f) := by
  unfold Ordered at *
  rw [List.pairwise_map]
  simpa only [hf] using h

theorem Ordered.filter {l : List α} (h : Ordered key l) (p : α → Bool) :
    Ordered key (l.filter p) :=
  List.Pairwise.filter p h

theorem find?_eq_some_iff [DecidableLT κ] [Std.Trichotomous (α := κ) (· < ·)]
    [Std.Irrefl (α := κ) (· < ·)] {l : List α} (h : Ordered key l) {k : κ} {x : α} :
    find? key k l = some x ↔ x ∈ l ∧ key x = k := by
  unfold find?
  induction l with
  | nil => simp
  | cons y ys ih =>
    have hy := (List.pairwise_cons.1 h).1
    specialize ih (List.pairwise_cons.1 h).2
    by_cases hk : key y = k
    · have hp : decide (¬ key y < k ∧ ¬ k < key y) = true := by
        simp [hk, Std.Irrefl.irrefl]
      rw [List.find?_cons_of_pos (p := fun x => decide (¬ key x < k ∧ ¬ k < key x)) hp]
      constructor
      · intro e; cases e; exact ⟨by simp, hk⟩
      · rintro ⟨hm, hkx⟩
        rcases List.mem_cons.1 hm with rfl | hm
        · rfl
        · have := hy x hm
          rw [hk, hkx] at this
          exact absurd this (Std.Irrefl.irrefl _)
    · have hp : ¬ decide (¬ key y < k ∧ ¬ k < key y) = true := by
        intro hd
        have hd := of_decide_eq_true hd
        exact hk (Std.Trichotomous.trichotomous _ _ hd.1 hd.2)
      rw [List.find?_cons_of_neg (p := fun x => decide (¬ key x < k ∧ ¬ k < key x)) hp, ih]
      constructor
      · rintro ⟨hm, hkx⟩; exact ⟨List.mem_cons_of_mem _ hm, hkx⟩
      · rintro ⟨hm, hkx⟩
        rcases List.mem_cons.1 hm with rfl | hm
        · exact absurd hkx hk
        · exact ⟨hm, hkx⟩

end Outbox.Keyed

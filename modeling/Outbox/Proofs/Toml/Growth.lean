import Outbox.Toml.Value

/-!
# Tables line by line

Lines with new keys are all taken, in their order. A line that has just been taken is refused when it comes
again, since no key is given twice and no table has two headers.
-/

namespace Outbox.Toml

namespace Table

/-! ## Look-up -/

theorem get?_eq_none_iff {t : Table} {key : String} :
    t.get? key = none ↔ key ∉ t.entries.map Prod.fst := by
  rw [get?, List.lookup_eq_none_iff, List.mem_map]
  simp only [bne_iff_ne, not_exists, not_and]
  exact forall₂_congr fun e _ => ne_comm

theorem lookup_replaced (key : String) (v : Value) (entries : List (String × Value)) :
    (entries.map fun e => if e.1 = key then (key, v) else e).lookup key =
      (entries.lookup key).map fun _ => v := by
  induction entries with
  | nil => rfl
  | cons e entries ih =>
      obtain ⟨k, w⟩ := e
      by_cases hk : k = key
      · simp [hk]
      · have hne : (key == k) = false := beq_false_of_ne (Ne.symm hk)
        simp [List.lookup_cons, hk, hne, ih]

theorem lookup_concat {key : String} {entries : List (String × Value)} (h : entries.lookup key = none)
    (v : Value) : (entries ++ [(key, v)]).lookup key = some v := by
  rw [List.lookup_append, h, Option.none_or, List.lookup_cons_self]

theorem get?_put (t : Table) (key : String) (v : Value) : (t.put key v).get? key = some v := by
  unfold put
  split
  next h =>
    obtain ⟨w, hw⟩ := Option.isSome_iff_exists.1 h
    exact (lookup_replaced key v t.entries).trans (congrArg (Option.map fun _ => v) hw)
  next h => exact lookup_concat (Option.not_isSome_iff_eq_none.1 h) v

/-! ## The same twice -/

theorem add_twice {key : String} {v w : Value} {t t' : Table} (h : t.add key v = some t') :
    t'.add key w = none := by
  unfold add at h
  split at h
  · cases h
    rw [add, get?_put]
  · cases h

/-- Where one change makes another impossible in the table at the end of a path, it does so from the root. -/
theorem modifyAt_twice {dotted : Bool} {f g : Table → Option Table}
    (hfg : ∀ t t', f t = some t' → g t' = none) {path : List String} {t t' : Table}
    (h : modifyAt dotted f path t = some t') : modifyAt dotted g path t' = none := by
  induction path generalizing t t' with
  | nil => exact hfg t t' h
  | cons k ks ih =>
      unfold modifyAt at h
      split at h
      next =>
        obtain ⟨sub, hsub, heq⟩ := Option.bind_eq_some_iff.1 h
        cases heq
        simp [modifyAt, get?_put, ih hsub]
      next sub₀ _ =>
        split at h
        · cases h
        · obtain ⟨sub, hsub, heq⟩ := Option.bind_eq_some_iff.1 h
          cases heq
          simp [modifyAt, get?_put, ih hsub]
      next ts _ =>
        split at h
        next sub₀ _ =>
          obtain ⟨sub, hsub, heq⟩ := Option.bind_eq_some_iff.1 h
          cases heq
          simp [modifyAt, get?_put, ih hsub]
        next => cases h
      next => cases h

theorem assign_twice {path : List String} {key : String} {v w : Value} {t t' : Table}
    (h : t.assign path key v = some t') : t'.assign path key w = none := by
  refine modifyAt_twice (fun sub sub' hsub => ?_) h
  split at hsub
  · cases hsub
  · rw [add_twice hsub, ite_self]

theorem openTable_twice {path : List String} {key : String} {t t' : Table}
    (h : t.openTable path key = some t') : t'.openTable path key = none := by
  refine modifyAt_twice (fun parent parent' hparent => ?_) h
  split at hparent
  next => cases hparent; rw [get?_put]; rfl
  next sub _ =>
    split at hparent
    · cases hparent; rw [get?_put]; rfl
    · cases hparent
  next => cases hparent

end Table

/-- Every line but the header of an array's element. -/
def Line.IsOnce : Line → Prop
  | .element _ _ => False
  | _ => True

theorem Draft.read_twice {d d' : Draft} {l : Line} (hl : l.IsOnce) (h : d.read l = some d') :
    d'.read l = none := by
  cases l with
  | assign path key v =>
      obtain ⟨root, hroot, heq⟩ := Option.bind_eq_some_iff.1 h
      cases heq
      have hagain := Table.modifyAt_twice (fun _ _ ht => Table.assign_twice (w := v) ht) hroot
      exact congrArg (Option.bind · _) hagain
  | table path key =>
      obtain ⟨root, hroot, heq⟩ := Option.bind_eq_some_iff.1 h
      cases heq
      exact congrArg (Option.bind · _) (Table.openTable_twice hroot)
  | element => exact hl.elim

/-- A document is refused where a line stands twice in a row. -/
theorem Table.ofLines?_twice {l : Line} (hl : l.IsOnce) (before after : List Line) :
    Table.ofLines? (before ++ l :: l :: after) = none := by
  have htwice (d : Draft) : (l :: l :: after).foldlM Draft.read d = none := by
    rw [List.foldlM_cons]
    cases hd : d.read l with
    | none => rfl
    | some d' => simp [Draft.read_twice hl hd]
  rw [ofLines?, List.foldlM_append]
  cases before.foldlM Draft.read {} with
  | none => rfl
  | some d => simp only [Option.bind_eq_bind, Option.bind_some, htwice, Option.map_none]

/-! ## New keys -/

/-- A line for each entry. -/
def assignments (entries : List (String × Value)) : List Line := entries.map fun e => .assign [] e.1 e.2

namespace Table

variable {key : String} {v w : Value} {entries rest : List (String × Value)}

theorem assign_new (h : key ∉ entries.map Prod.fst) :
    (mk .header entries).assign [] key v = some (mk .header (entries ++ [(key, v)])) := by
  have hnone : (mk .header entries).get? key = none := get?_eq_none_iff.2 h
  simp [assign, modifyAt, add, hnone, put, origin, Table.entries]

theorem get?_last (h : key ∉ entries.map Prod.fst) (o : Origin) :
    (mk o (entries ++ [(key, v)])).get? key = some v :=
  lookup_concat (get?_eq_none_iff (t := mk o entries).2 h) v

theorem put_last (h : key ∉ entries.map Prod.fst) (o : Origin) :
    (mk o (entries ++ [(key, v)])).put key w = mk o (entries ++ [(key, w)]) := by
  have hsame : entries.map (fun e => if e.1 = key then (key, w) else e) = entries := by
    refine (List.map_congr_left fun e he => if_neg ?_).trans (List.map_id _)
    rintro rfl
    exact h (List.mem_map_of_mem he)
  rw [put, get?_last h, Option.isSome_some, if_pos rfl, Table.entries, List.map_append, hsame]
  simp [origin]

theorem modifyAt_last (h : key ∉ entries.map Prod.fst) (f : Table → Option Table) {sub : Table}
    (hsub : sub.origin = .header) :
    modifyAt false f [key] (mk .header (entries ++ [(key, .table sub)])) =
      (f sub).map fun t => mk .header (entries ++ [(key, .table t)]) := by
  simp only [modifyAt, get?_last h, put_last h, hsub]
  cases f sub <;> rfl

/-- Entries go to the end of the table that a draft is at, wherever that stands in the document. -/
theorem foldlM_assignments {current : List String} (place : Table → Table)
    (entries rest : List (String × Value))
    (hplace : ∀ f t, t.origin = .header → modifyAt false f current (place t) = (f t).map place)
    (h : ((entries ++ rest).map Prod.fst).Nodup) :
    (assignments rest).foldlM Draft.read ⟨place (mk .header entries), current⟩ =
      some ⟨place (mk .header (entries ++ rest)), current⟩ := by
  induction rest generalizing entries with
  | nil => rw [List.append_nil]; rfl
  | cons e rest ih =>
      have hnew : e.1 ∉ entries.map Prod.fst := by
        rw [List.map_append, List.map_cons] at h
        exact fun hmem => (List.nodup_append.1 h).2.2 e.1 hmem e.1 List.mem_cons_self rfl
      have hread : Draft.read ⟨place (mk .header entries), current⟩ (.assign [] e.1 e.2) =
          some ⟨place (mk .header (entries ++ [e])), current⟩ := by
        rw [Draft.read, hplace _ _ rfl, assign_new hnew]
        rfl
      have hrest := ih (entries ++ [e]) (by rwa [List.append_assoc])
      rw [assignments, List.map_cons, List.foldlM_cons, hread, Option.bind_eq_bind, Option.bind_some]
      rw [List.append_assoc] at hrest
      exact hrest

theorem foldlM_root (h : (entries.map Prod.fst).Nodup) :
    (assignments entries).foldlM Draft.read {} = some ⟨mk .header entries, []⟩ :=
  foldlM_assignments id [] entries (fun f t _ => (Option.map_id' (x := f t)).symm) h

theorem ofLines?_assignments (h : (entries.map Prod.fst).Nodup) :
    ofLines? (assignments entries) = some (mk .header entries) := by
  rw [ofLines?, foldlM_root h]
  rfl

/-- A document with one table of its own at the end. -/
theorem ofLines?_section (h : (entries.map Prod.fst).Nodup) (hkey : key ∉ entries.map Prod.fst)
    (hrest : (rest.map Prod.fst).Nodup) :
    ofLines? (assignments entries ++ .table [] key :: assignments rest) =
      some (mk .header (entries ++ [(key, .table (mk .header rest))])) := by
  have hopen : Draft.read ⟨mk .header entries, []⟩ (.table [] key) =
      some ⟨mk .header (entries ++ [(key, .table (empty .header))]), [key]⟩ := by
    have hnone : (mk .header entries).get? key = none := get?_eq_none_iff.2 hkey
    simp [Draft.read, openTable, modifyAt, hnone, put, origin, Table.entries]
  have hfill := foldlM_assignments (fun t => mk .header (entries ++ [(key, .table t)])) [] rest
    (fun f _ ht => modifyAt_last hkey f ht) hrest
  rw [ofLines?, List.foldlM_append, foldlM_root h, Option.bind_eq_bind, Option.bind_some, List.foldlM_cons,
    hopen, Option.bind_eq_bind, Option.bind_some]
  exact congrArg (Option.map Draft.root) hfill

end Table

end Outbox.Toml

import Outbox.Proofs.Toml.Page

/-!
# Entries on a plain page

A page of entries under different names, with a table at the end that is filled likewise, is read as exactly
these entries if and only if all of their values fit.
-/

namespace Outbox.Toml

/-- The entries, and then the table of that name, if it has any. -/
def entriesAndTable (key : String) (entries rest : List (String × Scalar)) : List PlainLine :=
  entries.map (fun e => .assign e.1 e.2) ++
    if rest = [] then [] else .header key :: rest.map fun e => .assign e.1 e.2

section Entries

def values (entries : List (String × Scalar)) : List (String × Value) :=
  entries.map fun e => (e.1, e.2.value)

variable {ending key : String} {entries rest : List (String × Scalar)}

theorem map_fst_values : (values entries).map Prod.fst = entries.map Prod.fst := by
  simp [values, Function.comp_def]

theorem mapM_line?_of_fits (h : ∀ e ∈ entries, e.2.fits) :
    (entries.map fun e => PlainLine.assign e.1 e.2).mapM PlainLine.line? =
      some (assignments (values entries)) := by
  induction entries with
  | nil => rfl
  | cons e entries ih =>
      have hline : (PlainLine.assign e.1 e.2).line? = some (.assign [] e.1 e.2.value) := by
        rw [PlainLine.line?, Scalar.value?, if_pos (h e List.mem_cons_self), Option.map_some]
      have hrest := ih fun e he => h e (List.mem_cons_of_mem _ he)
      rw [List.map_cons, List.mapM_cons, hline, hrest]
      rfl

theorem fits_of_mapM_line? {xs : List Line}
    (h : (entries.map fun e => PlainLine.assign e.1 e.2).mapM PlainLine.line? = some xs) :
    ∀ e ∈ entries, e.2.fits := by
  induction entries generalizing xs with
  | nil => exact nofun
  | cons e entries ih =>
      rw [List.map_cons, List.mapM_cons] at h
      obtain ⟨x, hx, h⟩ := Option.bind_eq_some_iff.1 h
      obtain ⟨ys, hys, -⟩ := Option.bind_eq_some_iff.1 h
      obtain ⟨v, hv, -⟩ := Option.map_eq_some_iff.1 hx
      have he : e.2.fits := (Option.ite_none_right_eq_some.1 hv).1
      exact List.forall_mem_cons.2 ⟨he, ih hys⟩

theorem isBare_entriesAndTable (h : ∀ name ∈ entries.map Prod.fst ++ key :: rest.map Prod.fst, IsBare name) :
    ∀ l ∈ entriesAndTable key entries rest, IsBare l.name := by
  rw [List.forall_mem_append, List.forall_mem_cons, List.forall_mem_map, List.forall_mem_map] at h
  obtain ⟨hentries, hkey, hrest⟩ := h
  refine List.forall_mem_append.2 ⟨List.forall_mem_map.2 hentries, ?_⟩
  split
  · exact nofun
  · exact List.forall_mem_cons.2 ⟨hkey, List.forall_mem_map.2 hrest⟩

/-- What the entries and the table come to. -/
def rootEntries (key : String) (entries rest : List (String × Scalar)) : List (String × Value) :=
  values entries ++ if rest = [] then [] else [(key, .table (.mk .header (values rest)))]

theorem parse?_entriesAndTable (hending : ending = "" ∨ ending = "\n")
    (hbare : ∀ l ∈ entriesAndTable key entries rest, IsBare l.name)
    (hentries : (entries.map Prod.fst).Nodup) (hkey : key ∉ entries.map Prod.fst)
    (hrest : (rest.map Prod.fst).Nodup) (hfits : ∀ e ∈ entries ++ rest, e.2.fits) :
    parse? (page ending (entriesAndTable key entries rest)) =
      some (.mk .header (rootEntries key entries rest)) := by
  rw [List.forall_mem_append] at hfits
  rw [← map_fst_values] at hentries hkey hrest
  rw [parse?_page hending hbare, entriesAndTable, List.mapM_append, mapM_line?_of_fits hfits.1, rootEntries]
  by_cases hnil : rest = []
  · simp only [if_pos hnil, List.mapM_nil, Option.pure_def, Option.bind_eq_bind, Option.bind_some,
      List.append_nil]
    exact Table.ofLines?_assignments hentries
  · simp only [if_neg hnil, List.mapM_cons, mapM_line?_of_fits hfits.2]
    exact Table.ofLines?_section hentries hkey hrest

theorem fits_of_parse? (hending : ending = "" ∨ ending = "\n")
    (hbare : ∀ l ∈ entriesAndTable key entries rest, IsBare l.name) {t : Table}
    (h : parse? (page ending (entriesAndTable key entries rest)) = some t) :
    ∀ e ∈ entries ++ rest, e.2.fits := by
  rw [parse?_page hending hbare, entriesAndTable, List.mapM_append] at h
  obtain ⟨ls, hls, -⟩ := Option.bind_eq_some_iff.1 h
  obtain ⟨xs, hxs, hys⟩ := Option.bind_eq_some_iff.1 hls
  obtain ⟨ys, hys, -⟩ := Option.bind_eq_some_iff.1 hys
  refine List.forall_mem_append.2 ⟨fits_of_mapM_line? hxs, ?_⟩
  by_cases hnil : rest = []
  · rw [hnil]
    exact nofun
  · rw [if_neg hnil, List.mapM_cons] at hys
    obtain ⟨_, -, hys⟩ := Option.bind_eq_some_iff.1 hys
    obtain ⟨zs, hzs, -⟩ := Option.bind_eq_some_iff.1 hys
    exact fits_of_mapM_line? hzs

end Entries

end Outbox.Toml

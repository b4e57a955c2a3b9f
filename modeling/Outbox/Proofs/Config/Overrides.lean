import Mathlib.Data.List.Nodup
import Outbox.Config.Toml
import Outbox.Proofs.Toml.Entries

/-!
# Overrides

A page that names some of the settings, in any order, gives exactly these and leaves the others at their
defaults. A value out of range and a line that stands twice are refused.
-/

namespace Outbox

/-! ## Fields that are given -/

section Given

variable {V : Type}

/-- The fields that have a value. -/
def given (fields : List (String × Option V)) : List (String × V) :=
  fields.filterMap fun e => e.2.map (e.1, ·)

theorem given_cons (name : String) (v : Option V) (fields : List (String × Option V)) :
    given ((name, v) :: fields) = (v.map (name, ·)).toList ++ given fields := by
  cases v <;> rfl

theorem given_append (fields fields' : List (String × Option V)) :
    given (fields ++ fields') = given fields ++ given fields' := List.filterMap_append

theorem name_mem_of_mem_given {fields : List (String × Option V)} {e : String × V} (h : e ∈ given fields) :
    e.1 ∈ fields.map Prod.fst := by
  obtain ⟨f, hf, hv⟩ := List.mem_filterMap.1 h
  obtain ⟨v, -, rfl⟩ := Option.map_eq_some_iff.1 hv
  exact List.mem_map_of_mem hf

theorem forall_mem_given {p : V → Prop} {fields : List (String × Option V)} :
    (∀ e ∈ given fields, p e.2) ↔ ∀ f ∈ fields, ∀ v ∈ f.2, p v := by
  constructor
  · intro h f hf v hv
    exact h (f.1, v) (List.mem_filterMap.2 ⟨f, hf, by rw [Option.mem_def.1 hv]; rfl⟩)
  · intro h e he
    obtain ⟨f, hf, hfe⟩ := List.mem_filterMap.1 he
    obtain ⟨v, hv, rfl⟩ := Option.map_eq_some_iff.1 hfe
    exact h f hf v hv

theorem nodup_given {fields : List (String × Option V)} (h : (fields.map Prod.fst).Nodup) :
    ((given fields).map Prod.fst).Nodup := by
  induction fields with
  | nil => exact .nil
  | cons f fields ih =>
      obtain ⟨name, v⟩ := f
      obtain ⟨hname, hnames⟩ := List.nodup_cons.1 h
      rw [given_cons]
      cases v with
      | none => exact ih hnames
      | some v =>
          refine List.nodup_cons.2 ⟨fun hmem => hname ?_, ih hnames⟩
          obtain ⟨e, he, heq⟩ := List.mem_map.1 hmem
          exact heq ▸ name_mem_of_mem_given he

theorem filter_given {fields : List (String × Option V)} (hnames : (fields.map Prod.fst).Nodup)
    {name : String} {v : Option V} (h : (name, v) ∈ fields) :
    (given fields).filter (·.1 = name) = (v.map (name, ·)).toList := by
  induction fields with
  | nil => cases h
  | cons f fields ih =>
      obtain ⟨other, w⟩ := f
      obtain ⟨hother, hnames⟩ := List.nodup_cons.1 hnames
      rw [given_cons, List.filter_append]
      rcases List.mem_cons.1 h with heq | h
      · cases heq
        have hrest : (given fields).filter (·.1 = name) = [] := by
          refine List.filter_eq_nil_iff.2 fun e he => ?_
          rw [decide_eq_true_eq]
          rintro rfl
          exact hother (name_mem_of_mem_given he)
        rw [hrest, List.append_nil]
        cases v <;> simp
      · have hname : name ∈ fields.map Prod.fst := List.mem_map_of_mem h
        have hne : other ≠ name := fun heq => hother (heq ▸ hname)
        rw [ih hnames h]
        cases w <;> simp [hne]

/-- A field is read as what it was given, or else as its default, in whatever order the fields stand. -/
theorem Parts.read_given {α : Type} {fields : List (String × Option V)}
    (hnames : (fields.map Prod.fst).Nodup) {entries : List (String × V)} (hentries : entries.Perm (given fields)) {name : String} {v : Option V}
    (h : (name, v) ∈ fields) (place : Nat) (f : V → Option α) (d : α) :
    (Parts.named entries).read name place f d = v.elim (some d) f := by
  have hperm := hentries.filter (fun e => decide (e.1 = name))
  rw [filter_given hnames h] at hperm
  cases v with
  | none => simp [Parts.read, Parts.field?, List.perm_nil.1 hperm]
  | some v => simp [Parts.read, Parts.field?, List.perm_singleton.1 hperm]

end Given

/-! ## Settings or none -/

theorem Config.ofToml_eq_ok {s : String} {c : Config} :
    Config.ofToml s = .ok c ↔ (Toml.parse? s).bind (fun t => Toml.notated.config? (.table t)) = some c := by
  rw [Config.ofToml]
  split
  next hc => rw [hc, Except.ok.injEq, Option.some.injEq]
  next hnone => simp [hnone]

theorem Config.ofToml_eq_malformed {s : String} (h : ∀ c, Config.ofToml s ≠ .ok c) :
    Config.ofToml s = .error .malformed := by
  cases hread : (Toml.parse? s).bind fun t => Toml.notated.config? (.table t) with
  | none => rw [Config.ofToml, hread]
  | some c => exact absurd (Config.ofToml_eq_ok.2 hread) (h c)

/-! ## Overrides -/

/-- Some of the settings. -/
structure Overrides where
  processInterval : Option Int := none
  lockCheckerInterval : Option Int := none
  maxLockTime : Option Int := none
  cleanupInterval : Option Int := none
  retention : Option Int := none
  cleanupFinishedOnly : Option Bool := none
  enabled : Option Bool := none
  max : Option Int := none

namespace Overrides

open Toml

def times (o : Overrides) : List (String × Option Int) :=
  [("process_interval_ms", o.processInterval), ("lock_checker_interval_ms", o.lockCheckerInterval),
    ("max_lock_time_duration_ms", o.maxLockTime), ("cleanup_worker_interval_ms", o.cleanupInterval),
    ("messages_retention_duration_ms", o.retention)]

/-- The settings outside of the policy. -/
def scalars (o : Overrides) : List (String × Option Scalar) :=
  o.times.map (fun e => (e.1, e.2.map .integer)) ++
    [("cleanup_terminal_only", o.cleanupFinishedOnly.map .flag)]

def policy (o : Overrides) : List (String × Option Scalar) :=
  [("max_send_attempts_enabled", o.enabled.map .flag), ("max_send_attempts", o.max.map .integer)]

/-- All the names that the lines of a page have. -/
theorem names_eq (o : Overrides) : o.scalars.map Prod.fst ++ "retrial_policy" :: o.policy.map Prod.fst =
    ["process_interval_ms", "lock_checker_interval_ms", "max_lock_time_duration_ms",
      "cleanup_worker_interval_ms", "messages_retention_duration_ms", "cleanup_terminal_only",
      "retrial_policy", "max_send_attempts_enabled", "max_send_attempts"] := rfl

theorem nodup_names (o : Overrides) :
    (o.scalars.map Prod.fst ++ "retrial_policy" :: o.policy.map Prod.fst).Nodup := by
  rw [names_eq]
  decide

theorem isBare_of_mem_names (o : Overrides) :
    ∀ name ∈ o.scalars.map Prod.fst ++ "retrial_policy" :: o.policy.map Prod.fst, IsBare name := by
  rw [names_eq]
  decide

theorem nodup_scalars (o : Overrides) : (o.scalars.map Prod.fst).Nodup :=
  (List.nodup_append.1 o.nodup_names).1

theorem nodup_policy (o : Overrides) : (o.policy.map Prod.fst).Nodup :=
  (List.nodup_cons.1 (List.nodup_append.1 o.nodup_names).2.1).2

theorem key_notMem_scalars (o : Overrides) : "retrial_policy" ∉ o.scalars.map Prod.fst := fun h =>
  (List.nodup_append.1 o.nodup_names).2.2 _ h _ List.mem_cons_self rfl

/-- Times have 63 bits, and attempts 32. -/
structure Fits (o : Overrides) : Prop where
  times : ∀ e ∈ o.times, ∀ n ∈ e.2, 0 ≤ n ∧ n < 2 ^ 63
  max : ∀ n ∈ o.max, 0 ≤ n ∧ n < 2 ^ 32

instance (o : Overrides) : Decidable o.Fits :=
  decidable_of_iff ((∀ e ∈ o.times, ∀ n ∈ e.2, 0 ≤ n ∧ n < 2 ^ 63) ∧ ∀ n ∈ o.max, 0 ≤ n ∧ n < 2 ^ 32)
    ⟨fun h => ⟨h.1, h.2⟩, fun h => ⟨h.times, h.max⟩⟩

/-- The defaults with the overrides in their places. -/
def config (o : Overrides) : Config :=
  let d : Config := {}
  { processInterval := (o.processInterval.map Int.toNat).getD d.processInterval
    lockCheckerInterval := (o.lockCheckerInterval.map Int.toNat).getD d.lockCheckerInterval
    maxLockTime := (o.maxLockTime.map Int.toNat).getD d.maxLockTime
    cleanupInterval := (o.cleanupInterval.map Int.toNat).getD d.cleanupInterval
    retrialPolicy := {
      enabled := o.enabled.getD d.retrialPolicy.enabled
      max := (o.max.map Int.toNat).getD d.retrialPolicy.max }
    retention := (o.retention.map Int.toNat).getD d.retention
    cleanupFinishedOnly := o.cleanupFinishedOnly.getD d.cleanupFinishedOnly }

/-! ## Reading -/

theorem elim_number (n : Option Int) (d limit : Nat) :
    ((n.map Scalar.integer).map Scalar.value).elim (some d) (notated.bounded? limit) =
      if ∀ i ∈ n, 0 ≤ i ∧ i < limit then some ((n.map Int.toNat).getD d) else none := by
  cases n with
  | none => simp
  | some i => simp [Scalar.value, Notated.bounded?, notated]

theorem elim_flag (b : Option Bool) (d : Bool) :
    ((b.map Scalar.flag).map Scalar.value).elim (some d) notated.flag? = some (b.getD d) := by
  cases b <;> rfl

theorem compound?_table (size : Nat) (t : Table) :
    notated.compound? size (.table t) = some (.named t.entries) := rfl

def fieldValues (fields : List (String × Option Scalar)) : List (String × Option Value) :=
  fields.map fun e => (e.1, e.2.map Scalar.value)

theorem values_given (fields : List (String × Option Scalar)) :
    values (given fields) = given (fieldValues fields) := by
  rw [values, given, given, fieldValues, List.map_filterMap, List.filterMap_map]
  simp only [Option.map_map, Function.comp_def]

theorem map_fst_fieldValues (fields : List (String × Option Scalar)) :
    (fieldValues fields).map Prod.fst = fields.map Prod.fst := by
  simp [fieldValues, Function.comp_def]

variable {o : Overrides} {entries rest : List (String × Scalar)}

theorem policy?_values (h : rest.Perm (given o.policy)) :
    notated.policy? (.table (.mk .header (values rest))) =
      if ∀ i ∈ o.max, 0 ≤ i ∧ i < 2 ^ 32 then some o.config.retrialPolicy else none := by
  have hentries : (values rest).Perm (given (fieldValues o.policy)) := values_given o.policy ▸ h.map _
  have hnames : ((fieldValues o.policy).map Prod.fst).Nodup :=
    map_fst_fieldValues o.policy ▸ o.nodup_policy
  have henabled := Parts.read_given hnames hentries
    (show ("max_send_attempts_enabled", (o.enabled.map Scalar.flag).map Scalar.value) ∈ _ by
      simp [fieldValues, policy])
    0 notated.flag? false
  have hmax := Parts.read_given hnames hentries
    (show ("max_send_attempts", (o.max.map Scalar.integer).map Scalar.value) ∈ _ by
      simp [fieldValues, policy])
    1 (notated.bounded? (Nat.pow 2 32)) 5
  rw [elim_flag] at henabled
  rw [elim_number, show ((Nat.pow 2 32 : Nat) : Int) = 2 ^ 32 from rfl] at hmax
  simp only [Notated.policy?, compound?_table, Table.entries, Option.bind_eq_bind, Option.bind_some, henabled,
    hmax]
  split <;> rfl

/-- The fields of a page, of which the policy is one. -/
def rootFields (o : Overrides) (rest : List (String × Scalar)) : List (String × Option Value) :=
  fieldValues o.scalars ++
    [("retrial_policy", if rest = [] then none else some (.table (.mk .header (values rest))))]

theorem nodup_rootFields : ((o.rootFields rest).map Prod.fst).Nodup := by
  rw [rootFields, List.map_append, map_fst_fieldValues]
  exact o.nodup_names.sublist (((List.nil_sublist _).cons_cons _).append_left _)

theorem rootEntries_perm (h : entries.Perm (given o.scalars)) :
    (rootEntries "retrial_policy" entries rest).Perm (given (o.rootFields rest)) := by
  rw [rootFields, given_append, ← values_given]
  refine (h.map _).append (List.Perm.of_eq ?_)
  split <;> rfl

theorem read_time (h : entries.Perm (given o.scalars)) (rest : List (String × Scalar)) {name : String}
    {n : Option Int} (hn : (name, n) ∈ o.times) (place d : Nat) :
    (Parts.named (rootEntries "retrial_policy" entries rest)).read name place
        (notated.bounded? (Nat.pow 2 64)) d =
      if ∀ i ∈ n, 0 ≤ i ∧ i < 2 ^ 64 then some ((n.map Int.toNat).getD d) else none := by
  have hscalar : (name, n.map Scalar.integer) ∈ o.scalars :=
    List.mem_append_left _ (List.mem_map_of_mem (f := fun e => (e.1, e.2.map Scalar.integer)) hn)
  have hfield : (name, (n.map Scalar.integer).map Scalar.value) ∈ o.rootFields rest :=
    List.mem_append_left _ (List.mem_map_of_mem (f := fun e => (e.1, e.2.map Scalar.value)) hscalar)
  rw [Parts.read_given nodup_rootFields (rootEntries_perm h) hfield, elim_number]
  rfl

theorem read_cleanup (h : entries.Perm (given o.scalars)) :
    (Parts.named (rootEntries "retrial_policy" entries rest)).read "cleanup_terminal_only" 6 notated.flag?
        false = some (o.cleanupFinishedOnly.getD false) := by
  have hfield : ("cleanup_terminal_only", (o.cleanupFinishedOnly.map Scalar.flag).map Scalar.value) ∈
      o.rootFields rest := by
    simp [rootFields, fieldValues, scalars]
  rw [Parts.read_given nodup_rootFields (rootEntries_perm h) hfield, elim_flag]

theorem read_policy (h : entries.Perm (given o.scalars)) (hrest : rest.Perm (given o.policy)) :
    (Parts.named (rootEntries "retrial_policy" entries rest)).read "retrial_policy" 4 notated.policy? {} =
      if ∀ i ∈ o.max, 0 ≤ i ∧ i < 2 ^ 32 then some o.config.retrialPolicy else none := by
  have hfield : ("retrial_policy", if rest = [] then none else some (.table (.mk .header (values rest)))) ∈
      o.rootFields rest := List.mem_append_right _ (List.mem_singleton.2 rfl)
  rw [Parts.read_given nodup_rootFields (rootEntries_perm h) hfield, ← policy?_values hrest]
  split
  next hnil => rw [hnil]; rfl
  next => rfl

theorem config?_eq_some_iff (h : entries.Perm (given o.scalars)) (hrest : rest.Perm (given o.policy))
    {c : Config} :
    notated.config? (.table (.mk .header (rootEntries "retrial_policy" entries rest))) = some c ↔
      (∀ e ∈ o.times, ∀ i ∈ e.2, 0 ≤ i ∧ i < 2 ^ 64) ∧ (∀ i ∈ o.max, 0 ≤ i ∧ i < 2 ^ 32) ∧ o.config = c := by
  have htime (name : String) (n : Option Int) (hn : (name, n) ∈ o.times) :=
    read_time h rest hn
  have h₁ := htime "process_interval_ms" o.processInterval (by simp [times])
  have h₂ := htime "lock_checker_interval_ms" o.lockCheckerInterval (by simp [times])
  have h₃ := htime "max_lock_time_duration_ms" o.maxLockTime (by simp [times])
  have h₄ := htime "cleanup_worker_interval_ms" o.cleanupInterval (by simp [times])
  have h₅ := htime "messages_retention_duration_ms" o.retention (by simp [times])
  simp only [Notated.config?, compound?_table, Table.entries, Option.bind_eq_bind, Option.bind_some, h₁, h₂,
    h₃, h₄, h₅, read_cleanup h, read_policy h hrest]
  simp only [Option.bind_eq_some_iff, Option.ite_none_right_eq_some, times, List.forall_mem_cons,
    List.not_mem_nil, false_implies, implies_true, and_true]
  constructor
  · rintro ⟨_, ⟨hp, ⟨⟩⟩, _, ⟨hl, ⟨⟩⟩, _, ⟨hm, ⟨⟩⟩, _, ⟨hc, ⟨⟩⟩, _, ⟨hmax, ⟨⟩⟩, _, ⟨hr, ⟨⟩⟩, ⟨⟩⟩
    exact ⟨⟨hp, hl, hm, hc, hr⟩, hmax, rfl⟩
  · rintro ⟨⟨hp, hl, hm, hc, hr⟩, hmax, rfl⟩
    exact ⟨_, ⟨hp, rfl⟩, _, ⟨hl, rfl⟩, _, ⟨hm, rfl⟩, _, ⟨hc, rfl⟩, _, ⟨hmax, rfl⟩, _, ⟨hr, rfl⟩, rfl⟩

/-! ## Texts -/

section Texts

variable {ending : String}

theorem fits_iff (h : entries.Perm (given o.scalars)) (hrest : rest.Perm (given o.policy)) :
    (∀ e ∈ entries ++ rest, e.2.fits) ↔
      (∀ e ∈ o.times, ∀ i ∈ e.2, inRange i) ∧ ∀ i ∈ o.max, inRange i := by
  have hinteger (n : Option Int) : (∀ s ∈ n.map Scalar.integer, s.fits) ↔ ∀ i ∈ n, inRange i := by
    cases n <;> simp [Scalar.fits]
  have hflag (b : Option Bool) : (∀ s ∈ b.map Scalar.flag, s.fits) ↔ True := by
    cases b <;> simp [Scalar.fits]
  have hscalars : (∀ e ∈ entries, e.2.fits) ↔ ∀ e ∈ o.times, ∀ i ∈ e.2, inRange i := by
    simp only [h.mem_iff, forall_mem_given (p := fun s : Scalar => s.fits), scalars, List.forall_mem_append,
      List.forall_mem_map, hinteger, List.forall_mem_singleton, hflag, and_true]
  have hpolicy : (∀ e ∈ rest, e.2.fits) ↔ ∀ i ∈ o.max, inRange i := by
    simp only [hrest.mem_iff, forall_mem_given (p := fun s : Scalar => s.fits), policy, List.forall_mem_cons,
      List.not_mem_nil, false_implies, implies_true, hflag, hinteger, true_and, and_true]
  rw [List.forall_mem_append, hscalars, hpolicy]

theorem isBare_name (h : entries.Perm (given o.scalars)) (hrest : rest.Perm (given o.policy)) :
    ∀ l ∈ entriesAndTable "retrial_policy" entries rest, IsBare l.name := by
  have hnames := o.isBare_of_mem_names
  rw [List.forall_mem_append, List.forall_mem_cons] at hnames
  refine isBare_entriesAndTable (List.forall_mem_append.2 ⟨fun name hname => ?_,
    List.forall_mem_cons.2 ⟨hnames.2.1, fun name hname => ?_⟩⟩)
  · obtain ⟨e, he, rfl⟩ := List.mem_map.1 hname
    exact hnames.1 e.1 (name_mem_of_mem_given (h.mem_iff.1 he))
  · obtain ⟨e, he, rfl⟩ := List.mem_map.1 hname
    exact hnames.2.2 e.1 (name_mem_of_mem_given (hrest.mem_iff.1 he))

theorem ofToml_eq_ok_iff (h : entries.Perm (given o.scalars)) (hrest : rest.Perm (given o.policy))
    (hending : ending = "" ∨ ending = "\n") {c : Config} :
    Config.ofToml (page ending (entriesAndTable "retrial_policy" entries rest)) = .ok c ↔
      o.Fits ∧ o.config = c := by
  have hbare := isBare_name h hrest
  have hentries : (entries.map Prod.fst).Nodup := (h.map _).nodup_iff.2 (nodup_given o.nodup_scalars)
  have hkey : "retrial_policy" ∉ entries.map Prod.fst := fun hmem => by
    obtain ⟨e, he, heq⟩ := List.mem_map.1 hmem
    exact o.key_notMem_scalars (heq ▸ name_mem_of_mem_given (h.mem_iff.1 he))
  have hnames : (rest.map Prod.fst).Nodup := (hrest.map _).nodup_iff.2 (nodup_given o.nodup_policy)
  have hparse := parse?_entriesAndTable hending hbare hentries hkey hnames
  rw [Config.ofToml_eq_ok]
  constructor
  · intro hread
    obtain ⟨t, ht, hc⟩ := Option.bind_eq_some_iff.1 hread
    have hfits := fits_of_parse? hending hbare ht
    rw [hparse hfits] at ht
    cases ht
    obtain ⟨htimes, hmax, rfl⟩ := (config?_eq_some_iff h hrest).1 hc
    have hrange := ((fits_iff h hrest).1 hfits).1
    refine ⟨⟨fun e he n hn => ⟨(htimes e he n hn).1, ?_⟩, hmax⟩, rfl⟩
    exact (inRange_iff.1 (hrange e he n hn)).2
  · rintro ⟨hfit, rfl⟩
    have hrange : (∀ e ∈ o.times, ∀ i ∈ e.2, inRange i) ∧ ∀ i ∈ o.max, inRange i :=
      ⟨fun e he i hi => inRange_iff.2 (by have := hfit.times e he i hi; omega),
        fun i hi => inRange_iff.2 (by have := hfit.max i hi; omega)⟩
    rw [hparse ((fits_iff h hrest).2 hrange), Option.bind_some]
    refine (config?_eq_some_iff h hrest).2 ⟨fun e he i hi => ?_, hfit.max, rfl⟩
    have := hfit.times e he i hi
    omega

/-- The settings that a page names are what it says, and the other ones their defaults; a value that does
not fit, or a line that stands twice, makes it no settings at all. -/
theorem read_exactly (o : Overrides) (entries rest : List (String × Scalar)) (ending : String)
    (h : entries.Perm (given o.scalars)) (hrest : rest.Perm (given o.policy))
    (hending : ending = "" ∨ ending = "\n") :
    (o.Fits →
      Config.ofToml (page ending (entriesAndTable "retrial_policy" entries rest)) = .ok o.config) ∧
    (¬ o.Fits →
      Config.ofToml (page ending (entriesAndTable "retrial_policy" entries rest)) = .error .malformed) ∧
    ∀ before l after, entriesAndTable "retrial_policy" entries rest = before ++ l :: after →
      Config.ofToml (page ending (before ++ l :: l :: after)) = .error .malformed := by
  refine ⟨fun hfit => (ofToml_eq_ok_iff h hrest hending).2 ⟨hfit, rfl⟩, fun hfit => ?_, ?_⟩
  · exact Config.ofToml_eq_malformed fun c hc => hfit ((ofToml_eq_ok_iff h hrest hending).1 hc).1
  · intro before l after hlines
    have hbare := isBare_name h hrest
    rw [hlines, List.forall_mem_append, List.forall_mem_cons] at hbare
    obtain ⟨hbefore, hl, hafter⟩ := hbare
    have hnone : parse? (page ending (before ++ l :: l :: after)) = none :=
      parse?_twice hending (List.forall_mem_append.2
        ⟨hbefore, List.forall_mem_cons.2 ⟨hl, List.forall_mem_cons.2 ⟨hl, hafter⟩⟩⟩)
    rw [Config.ofToml, hnone]
    rfl

/-- Values at their limits, in another order than the settings have; one attempt more is too many, and so is
a second header. -/
theorem read_exactly_shuffled :
    Config.ofToml ("cleanup_terminal_only = true\nprocess_interval_ms = 0\n" ++
        "messages_retention_duration_ms = 9223372036854775807\n[retrial_policy]\n" ++
        "max_send_attempts = 4294967295\nmax_send_attempts_enabled = true\n") =
      .ok {
        processInterval := 0
        retention := 9223372036854775807
        cleanupFinishedOnly := true
        retrialPolicy := { enabled := true, max := 4294967295 } } ∧
    Config.ofToml "[retrial_policy]\nmax_send_attempts = 4294967296" = .error .malformed ∧
    Config.ofToml "process_interval_ms = -1" = .error .malformed ∧
    Config.ofToml "[retrial_policy]\n[retrial_policy]\nmax_send_attempts = 4294967295" =
      .error .malformed := by
  have hshuffled := read_exactly
    { processInterval := some 0, retention := some 9223372036854775807, cleanupFinishedOnly := some true,
      enabled := some true, max := some 4294967295 }
    [("cleanup_terminal_only", .flag true), ("process_interval_ms", .integer 0),
      ("messages_retention_duration_ms", .integer 9223372036854775807)]
    [("max_send_attempts", .integer 4294967295), ("max_send_attempts_enabled", .flag true)]
    "\n" (by decide) (by decide) (.inr rfl)
  have hmany := read_exactly { max := some 4294967296 } [] [("max_send_attempts", .integer 4294967296)]
    "" (by decide) (by decide) (.inl rfl)
  have hnegative := read_exactly { processInterval := some (-1) } [("process_interval_ms", .integer (-1))] []
    "" (by decide) (by decide) (.inl rfl)
  have htwice := read_exactly { max := some 4294967295 } [] [("max_send_attempts", .integer 4294967295)]
    "" (by decide) (by decide) (.inl rfl)
  refine ⟨?_, ?_, ?_, ?_⟩
  · refine Eq.trans (congrArg Config.ofToml ?_) (hshuffled.1 (by decide))
    decide +kernel
  · exact hmany.2.1 (by decide)
  · exact hnegative.2.1 (by decide)
  · exact htwice.2.2 [] (.header "retrial_policy") _ rfl

end Texts

end Overrides

end Outbox

import Outbox.Keyed

/-!
Message headers: a finite map from names to values, kept in the order of the names, so that equal
maps are equal values.
-/

namespace Outbox

structure Headers where
  entries : List (String × String)
  ordered : Keyed.Ordered Prod.fst entries

namespace Headers

theorem ext {a b : Headers} (h : a.entries = b.entries) : a = b := by
  cases a; cases b; cases h; rfl

instance : DecidableEq Headers := fun a b =>
  decidable_of_iff (a.entries = b.entries) ⟨ext, fun h => h ▸ rfl⟩

def empty : Headers := ⟨[], List.Pairwise.nil⟩

instance : Inhabited Headers := ⟨empty⟩

def size (h : Headers) : Nat := h.entries.length

def insert (h : Headers) (name value : String) : Headers :=
  ⟨Keyed.insert Prod.fst (name, value) h.entries, h.ordered.insert (name, value)⟩

def get? (h : Headers) (name : String) : Option String :=
  (Keyed.find? Prod.fst name h.entries).map Prod.snd

/-- Of several values for one name the last one counts. -/
def ofList (l : List (String × String)) : Headers :=
  l.foldl (fun h e => h.insert e.1 e.2) empty

end Headers

end Outbox

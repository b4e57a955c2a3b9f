import Outbox.Proofs.Toml.Growth
import Outbox.Proofs.Toml.Integer
import Outbox.Toml.Document

/-!
# Plain pages

A plain page has a number or a flag under a bare name on each line, or the header of a table. It is read
line by line, and refused as a whole where one of its integers has more than 64 bits.
-/

namespace Outbox.Toml

inductive Scalar where
  | integer (n : Int)
  | flag (b : Bool)
deriving DecidableEq

namespace Scalar

def text : Scalar → String
  | integer n => toString n
  | flag b => toString b

def value : Scalar → Value
  | integer n => .integer n
  | flag b => .flag b

def fits : Scalar → Bool
  | integer n => inRange n
  | flag _ => true

def value? (s : Scalar) : Option Value := if s.fits then some s.value else none

end Scalar

inductive PlainLine where
  | assign (name : String) (s : Scalar)
  | header (name : String)
deriving DecidableEq

namespace PlainLine

def name : PlainLine → String
  | assign name _ => name
  | header name => name

def text : PlainLine → String
  | assign name s => name ++ " = " ++ s.text
  | header name => "[" ++ name ++ "]"

/-- What the line says. -/
def line? : PlainLine → Option Line
  | assign name s => s.value?.map (.assign [] name)
  | header name => some (.table [] name)

end PlainLine

/-- The lines one below the other, with that ending behind the last one. -/
def page (ending : String) : List PlainLine → String
  | [] => ""
  | [l] => l.text ++ ending
  | l :: ls => l.text ++ "\n" ++ page ending ls

/-- A name that needs no quotation marks. -/
structure IsBare (name : String) : Prop where
  ne_nil : name.toList ≠ []
  bare : ∀ c ∈ name.toList, isBareKeyChar c

instance (name : String) : Decidable (IsBare name) :=
  decidable_of_iff (name.toList ≠ [] ∧ name.toList.all isBareKeyChar)
    ⟨fun h => ⟨h.1, List.all_eq_true.1 h.2⟩, fun h => ⟨h.ne_nil, List.all_eq_true.2 h.bare⟩⟩

/-! ## Words -/

section Words

variable {p : Char → Bool} {w rest : List Char}

theorem takeWhile_word (hw : ∀ c ∈ w, p c) (hrest : ∀ c ∈ rest.head?, p c = false) :
    (w ++ rest).takeWhile p = w := by
  rw [List.takeWhile_append_of_pos hw]
  cases rest with
  | nil => simp
  | cons c rest => simp [hrest c rfl]

theorem dropWhile_word (hw : ∀ c ∈ w, p c) (hrest : ∀ c ∈ rest.head?, p c = false) :
    (w ++ rest).dropWhile p = rest := by
  rw [List.dropWhile_append_of_pos hw]
  cases rest with
  | nil => simp
  | cons c rest => simp [hrest c rfl]

theorem exists_head (hne : w ≠ []) (hw : ∀ c ∈ w, p c) :
    ∃ c cs, w = c :: cs ∧ ∀ d, p d = false → c ≠ d := by
  obtain ⟨c, cs, rfl⟩ := List.exists_cons_of_ne_nil hne
  refine ⟨c, cs, rfl, ?_⟩
  rintro d hd rfl
  exact Bool.false_ne_true (hd.symm.trans (hw c List.mem_cons_self))

end Words

theorem skipBlanks_of_head {c : Char} (h : isBlank c = false) (cs : List Char) :
    skipBlanks (c :: cs) = c :: cs := List.dropWhile_cons_of_neg (by simp [h])

/-- What may stand behind a line, and what of it belongs to the next ones. -/
inductive EndsLine : List Char → List Char → Prop
  | last : EndsLine [] []
  | feed (rest : List Char) : EndsLine ('\n' :: rest) rest

namespace EndsLine

variable {tail rest : List Char}

theorem trailing?_eq (h : EndsLine tail rest) : trailing? tail = some rest := by cases h <;> rfl

theorem length_le (h : EndsLine tail rest) : rest.length ≤ tail.length := by cases h <;> simp

theorem stops (h : EndsLine tail rest) : ∀ c ∈ tail.head?, isWordChar c = false := by
  cases h with
  | last => simp
  | feed rest => rintro c ⟨⟩; decide

end EndsLine

/-! ## Scalars -/

namespace Scalar

theorem word?_text (s : Scalar) : word? s.text.toList = s.value? := by
  cases s with
  | integer n => exact word?_toString n
  | flag b => cases b <;> rfl

theorem text_ne_nil (s : Scalar) : s.text.toList ≠ [] := by
  cases s with
  | integer n =>
      rw [text, toList_toString]
      split
      · exact List.cons_ne_nil _ _
      · exact Nat.toDigits_ne_nil
  | flag b => cases b <;> decide

theorem isWordChar_of_mem (s : Scalar) : ∀ c ∈ s.text.toList, isWordChar c := by
  cases s with
  | integer n =>
      have hdigits : ∀ c ∈ Nat.toDigits 10 n.natAbs, isWordChar c := fun c hc => by
        simp [isWordChar, Char.isAlphanum, isDigit_of_mem n.natAbs c hc]
      rw [text, toList_toString]
      split
      · exact List.forall_mem_cons.2 ⟨by decide, hdigits⟩
      · exact hdigits
  | flag b => exact List.all_eq_true.1 (by cases b <;> decide)

variable {tail rest : List Char}

theorem scalar?_text (s : Scalar) (h : EndsLine tail rest) :
    scalar? (s.text.toList ++ tail) = s.value?.map (·, tail) := by
  rw [scalar?]
  simp only [takeWhile_word s.isWordChar_of_mem h.stops, dropWhile_word s.isWordChar_of_mem h.stops,
    s.word?_text]
  cases h <;> rfl

/-- No string, array or table begins like a number or a flag. -/
theorem readsAs (s : Scalar) (h : EndsLine tail rest) (depth : Nat) :
    Toml.value? depth (s.text.toList ++ tail) = s.value?.map (·, tail) := by
  obtain ⟨c, cs, hcs, hne⟩ := exists_head s.text_ne_nil s.isWordChar_of_mem
  rw [← s.scalar?_text h, hcs, List.cons_append]
  unfold Toml.value?
  split
  next he => cases he; exact absurd rfl (hne '\x22' (by decide))
  next he => cases he; exact absurd rfl (hne '\x27' (by decide))
  next he => cases he; exact absurd rfl (hne '[' (by decide))
  next he => cases he; exact absurd rfl (hne '\x7b' (by decide))
  next => rfl

end Scalar

/-! ## Keys -/

namespace IsBare

variable {name : String} (h : IsBare name)

include h

theorem simpleKey?_eq {c : Char} (hc : isBareKeyChar c = false) (rest : List Char) :
    simpleKey? (name.toList ++ c :: rest) = some (name, c :: rest) := by
  have hstop : ∀ d ∈ (c :: rest).head?, isBareKeyChar d = false := by simp [hc]
  have htake := takeWhile_word h.bare hstop
  have hdrop := dropWhile_word h.bare hstop
  obtain ⟨d, ds, hd, hne⟩ := exists_head h.ne_nil h.bare
  have hword : name.toList.isEmpty = false := by simp [hd]
  unfold simpleKey?
  split
  next he => rw [hd] at he; cases he; exact absurd rfl (hne '\x22' (by decide))
  next he => rw [hd] at he; cases he; exact absurd rfl (hne '\x27' (by decide))
  next => simp only [htake, hdrop, hword, Bool.false_eq_true, if_false, String.ofList_toList]

theorem dottedKey?_eq {c : Char} (hc : isBareKeyChar c = false) {cs rest : List Char}
    (hskip : skipBlanks (c :: cs) = rest) (hdot : rest.head? ≠ some '.') :
    dottedKey? (name.toList ++ c :: cs) = some (([], name), rest) := by
  have hblank : skipBlanks (name.toList ++ c :: cs) = name.toList ++ c :: cs := by
    obtain ⟨d, ds, hd, hne⟩ := exists_head h.ne_nil h.bare
    rw [hd, List.cons_append, skipBlanks_of_head]
    simp [isBlank, hne ' ' (by decide), hne '\t' (by decide)]
  have hkeys : keys? (depthLimit - 1) (name.toList ++ c :: cs) = some ([name], rest) := by
    rw [depthLimit, keys?, hblank, h.simpleKey?_eq hc]
    simp only [Option.bind_eq_bind, Option.bind_some, hskip]
    split
    · exact absurd rfl hdot
    · rfl
  rw [dottedKey?, hkeys]
  rfl

end IsBare

/-! ## Lines -/

section Lines

variable {name : String} {tail rest : List Char}

theorem assignment?_plain (h : IsBare name) (s : Scalar) (hend : EndsLine tail rest) (depth : Nat) :
    assignment? (value? depth) (name.toList ++ ' ' :: '=' :: ' ' :: (s.text.toList ++ tail)) =
      s.value?.map fun v => (([], name, v), tail) := by
  have hkey : dottedKey? (name.toList ++ ' ' :: '=' :: ' ' :: (s.text.toList ++ tail)) =
      some (([], name), '=' :: ' ' :: (s.text.toList ++ tail)) :=
    h.dottedKey?_eq (by decide) rfl (by simp)
  have hblanks : skipBlanks (' ' :: (s.text.toList ++ tail)) = s.text.toList ++ tail := by
    obtain ⟨c, cs, hcs, hne⟩ := exists_head s.text_ne_nil s.isWordChar_of_mem
    have hc : isBlank c = false := by simp [isBlank, hne ' ' (by decide), hne '\t' (by decide)]
    rw [hcs]
    exact skipBlanks_of_head hc (cs ++ tail)
  rw [assignment?, hkey]
  simp only [Option.bind_eq_bind, Option.bind_some, hblanks, s.readsAs hend depth]
  cases s.value? <;> rfl

theorem line?_assign (h : IsBare name) (s : Scalar) (hend : EndsLine tail rest) :
    line? (name.toList ++ ' ' :: '=' :: ' ' :: (s.text.toList ++ tail)) =
      s.value?.map fun v => (.assign [] name v, rest) := by
  have hassign := assignment?_plain h s hend (depthLimit - 1)
  obtain ⟨c, cs, hcs, hne⟩ := exists_head h.ne_nil h.bare
  unfold line?
  split
  next he => rw [hcs] at he; exact absurd (List.cons.inj he).1 (hne '[' (by decide))
  next he => rw [hcs] at he; exact absurd (List.cons.inj he).1 (hne '[' (by decide))
  next =>
    rw [hassign]
    cases s.value? with
    | none => rfl
    | some v => simp [hend.trailing?_eq]

theorem line?_header (h : IsBare name) (hend : EndsLine tail rest) :
    line? ('[' :: (name.toList ++ ']' :: tail)) = some (.table [] name, rest) := by
  have hkey : dottedKey? (name.toList ++ ']' :: tail) = some (([], name), ']' :: tail) :=
    h.dottedKey?_eq (by decide) rfl (by simp)
  obtain ⟨c, cs, hcs, hne⟩ := exists_head h.ne_nil h.bare
  unfold line?
  split
  next he => rw [hcs] at he; exact absurd (List.cons.inj (List.cons.inj he).2).1 (hne '[' (by decide))
  next he => cases he; rw [hkey]; simp [hend.trailing?_eq]
  next he => exact absurd rfl (he _)

end Lines

namespace PlainLine

variable {l : PlainLine} {tail rest : List Char}

theorem toList_assign (name : String) (s : Scalar) (tail : List Char) :
    (assign name s).text.toList ++ tail = name.toList ++ ' ' :: '=' :: ' ' :: (s.text.toList ++ tail) := by
  simp [text]

theorem toList_header (name : String) (tail : List Char) :
    (header name).text.toList ++ tail = '[' :: (name.toList ++ ']' :: tail) := by
  simp [text]

theorem readsAs (h : IsBare l.name) (hend : EndsLine tail rest) :
    Toml.line? (l.text.toList ++ tail) = l.line?.map (·, rest) := by
  cases l with
  | assign name s =>
      have hread := line?_assign (show IsBare name from h) s hend
      rw [toList_assign, hread, line?, Option.map_map]
      rfl
  | header name =>
      have hread := line?_header (show IsBare name from h) hend
      rw [toList_header, hread, line?, Option.map_some]

/-- A plain line begins with neither a blank nor a comment nor a line end. -/
theorem exists_first (h : IsBare l.name) :
    ∃ c cs, l.text.toList = c :: cs ∧ isBlank c = false ∧ ¬ (c = '#' ∨ c = '\n' ∨ c = '\r') ∧
      c ≠ byteOrderMark := by
  cases l with
  | assign name s =>
      have h : IsBare name := h
      obtain ⟨c, cs, hcs, hne⟩ := exists_head h.ne_nil h.bare
      have htext : (assign name s).text.toList = c :: (cs ++ (" = " ++ s.text).toList) := by
        simp [text, hcs]
      refine ⟨c, _, htext, ?_, ?_, hne byteOrderMark (by decide)⟩
      · simp [isBlank, hne ' ' (by decide), hne '\t' (by decide)]
      · simp [hne '#' (by decide), hne '\n' (by decide), hne '\r' (by decide)]
  | header name => exact ⟨'[', (name ++ "]").toList, by simp [text], by decide, by decide, by decide⟩

theorem lines?_text (h : IsBare l.name) (hend : EndsLine tail rest) :
    lines? (l.text.toList ++ tail) = l.line?.bind fun x => (lines? rest).map (x :: ·) := by
  have hread := readsAs h hend
  obtain ⟨c, cs, hcs, hblank, hmark, -⟩ := exists_first h
  rw [hcs, List.cons_append] at hread ⊢
  have hlength : rest.length < (c :: (cs ++ tail)).length := by
    have := hend.length_le
    simp only [List.length_cons, List.length_append]
    omega
  rw [lines?, skipBlanks_of_head hblank]
  simp only [hmark, if_false, hread]
  cases l.line? with
  | none => rfl
  | some x => exact if_pos hlength

end PlainLine

/-! ## Pages -/

section Pages

variable {ending : String} {ls : List PlainLine}

theorem lines?_page (hending : ending = "" ∨ ending = "\n") (h : ∀ l ∈ ls, IsBare l.name) :
    lines? (page ending ls).toList = ls.mapM PlainLine.line? := by
  have hnil : lines? [] = some [] := by rw [lines?]; rfl
  induction ls using page.induct with
  | case1 => exact hnil
  | case2 l =>
      have hend : EndsLine ending.toList [] := by
        rcases hending with rfl | rfl
        · exact .last
        · exact .feed []
      rw [page, String.toList_append, PlainLine.lines?_text (h l List.mem_cons_self) hend, hnil,
        List.mapM_cons, List.mapM_nil]
      cases l.line? <;> rfl
  | case3 l ls hne ih =>
      have hls := ih fun m hm => h m (List.mem_cons_of_mem _ hm)
      have htext : (page ending (l :: ls)).toList = l.text.toList ++ '\n' :: (page ending ls).toList := by
        rw [page, String.toList_append, String.toList_append, List.append_assoc]
        · rfl
        · exact hne
      rw [htext, PlainLine.lines?_text (h l List.mem_cons_self) (.feed _), hls, List.mapM_cons]
      cases l.line? with
      | none => rfl
      | some x => cases ls.mapM PlainLine.line? <;> rfl

theorem head?_page (h : ∀ l ∈ ls, IsBare l.name) :
    (page ending ls).toList.head? ≠ some byteOrderMark := by
  have hfirst (l : PlainLine) (hl : IsBare l.name) (t : String) :
      (l.text ++ t).toList.head? ≠ some byteOrderMark := by
    obtain ⟨c, cs, hcs, -, -, hmark⟩ := PlainLine.exists_first hl
    rw [String.toList_append, hcs]
    exact fun h => hmark (Option.some.inj h)
  cases ls using page.induct with
  | case1 => exact nofun
  | case2 l => exact hfirst l (h l List.mem_cons_self) ending
  | case3 l ls hne =>
      rw [page, String.append_assoc]
      · exact hfirst l (h l List.mem_cons_self) _
      · exact hne

theorem parse?_of_head {s : String} (h : s.toList.head? ≠ some byteOrderMark) :
    parse? s = (lines? s.toList).bind Table.ofLines? := by
  unfold parse?
  split
  next c rest hs =>
    rw [hs] at h
    rw [if_neg fun hc => h (congrArg some hc), hs]
    rfl
  next hs => rw [hs]; rfl

theorem parse?_page (hending : ending = "" ∨ ending = "\n") (h : ∀ l ∈ ls, IsBare l.name) :
    parse? (page ending ls) = (ls.mapM PlainLine.line?).bind Table.ofLines? := by
  rw [parse?_of_head (head?_page h), lines?_page hending h]

theorem isOnce_line? {l : PlainLine} {x : Line} (h : l.line? = some x) : x.IsOnce := by
  cases l with
  | assign name s =>
      obtain ⟨v, -, rfl⟩ := Option.map_eq_some_iff.1 h
      exact trivial
  | header name =>
      cases h
      exact trivial

/-- No line may stand twice in a row, whatever it says and wherever it stands. -/
theorem parse?_twice (hending : ending = "" ∨ ending = "\n") {before after : List PlainLine} {l : PlainLine}
    (h : ∀ m ∈ before ++ l :: l :: after, IsBare m.name) :
    parse? (page ending (before ++ l :: l :: after)) = none := by
  rw [parse?_page hending h, List.mapM_append, List.mapM_cons, List.mapM_cons]
  cases before.mapM PlainLine.line? with
  | none => rfl
  | some xs =>
      cases hl : l.line? with
      | none => rfl
      | some x =>
          cases after.mapM PlainLine.line? with
          | none => rfl
          | some ys => exact Table.ofLines?_twice (isOnce_line? hl) xs ys

end Pages

end Outbox.Toml

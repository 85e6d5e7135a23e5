import CodeTemplate.Text.Collation.Alphabet
import CodeTemplate.Text.Collation.Sequence

/-! The order in which names are listed, for names in any script. The letters of the whole names
decide first, then their marks, then their forms, and last the codes of the characters. -/

namespace CodeTemplate.Text
open Collation

/-- What a character adds to each level of the order. A mark has no place among the letters, and all
letters have the lowest place among the marks. -/
structure Weight where
  letter : Nat
  mark : Nat
  form : Form

namespace Weight

/-- The weights of a character that is not a composite: none if it is ignored. -/
def ofSingle (c : Nat) : List Weight :=
  match markLevel? c with
  | some level => [{ letter := 0, mark := level + 2, form := .plain }]
  | none =>
    if CodeRun.contains ignored c then []
    else [{ letter := place c, mark := 1, form := .plain }]

/-- The weights of a character, those of its members one after the other, which have members in turn
up to four times. A member that is the character itself has the weight of a single one. -/
def ofCode : Nat → Nat → List Weight
  | 0, c => ofSingle c
  | depth + 1, c =>
    match members? c with
    | none => ofSingle c
    | some (form, ms) =>
      let ws := ms.flatMap fun m => if m = c then ofSingle c else ofCode depth m
      match form with
      | none => ws
      | some f => ws.map fun w => { w with form := f.onto w.form }

end Weight

/-- The levels of a name one after the other, with a zero between them, which no level contains. -/
def sortKey (s : String) : List Nat :=
  let ws := (normalized s).flatMap (Weight.ofCode 4)
  (ws.map (·.letter)).filter (0 < ·) ++ 0 :: ws.map (·.mark) ++ 0 :: ws.map (·.form.rank) ++
    0 :: s.toList.map (·.toNat)

/-- The lexicographic order, in which a beginning comes before the whole. -/
def atMost : List Nat → List Nat → Bool
  | [], _ => true
  | _ :: _, [] => false
  | a :: as, b :: bs => a < b || (a == b && atMost as bs)

/-- Named items in the order of their names; each key is computed once. -/
def listed {α : Type} (items : List (String × α)) : List (String × α) :=
  ((items.map fun i => (sortKey i.1, i)).mergeSort fun a b => atMost a.1 b.1).map (·.2)

end CodeTemplate.Text

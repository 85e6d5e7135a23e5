import CodeTemplate.Markup.Name
import CodeTemplate.Markup.Tree.Basic

/-! Where templates come from: texts by key, and parsed templates by key. -/

namespace CodeTemplate

/-- Texts by the keys of their names. -/
abbrev Source := List (String × String)

/-- The table with `a` under the key: in the place of what was there, else at the end. -/
def setKey {α : Type} (key : String) (a : α) : List (String × α) → List (String × α)
  | [] => [(key, a)]
  | (k, b) :: rest => if k = key then (k, a) :: rest else (k, b) :: setKey key a rest

theorem lookup_setKey {α : Type} (key k : String) (a : α) (l : List (String × α)) :
    (setKey key a l).lookup k = if k = key then some a else l.lookup k := by
  induction l with
  | nil =>
    by_cases h : k = key
    · simp [setKey, h]
    · simp [setKey, List.lookup_cons, h, beq_eq_false_iff_ne.2 h]
  | cons x l ih =>
    obtain ⟨m, b⟩ := x
    by_cases hm : m = key <;> by_cases h : k = m <;>
      simp_all [setKey, List.lookup_cons, beq_eq_false_iff_ne.2]

namespace Source

/-- Adds named texts. Of two names with one key the later counts; an unusable name is a fault. -/
def adding (s : Source) : List (String × String) → Except NameFault Source
  | [] => .ok s
  | (name, text) :: rest =>
    match TemplateName.normalize name with
    | .error f => .error f
    | .ok key => adding (setKey key text s) rest

def ofTexts (texts : List (String × String)) : Except NameFault Source := adding [] texts

def read? (s : Source) (key : String) : Option String := s.lookup key

def names (s : Source) : List String := (s.map (·.1)).mergeSort (· ≤ ·)

end Source

/-- Parsed templates by key. -/
abbrev Cache := List (String × Template)

end CodeTemplate

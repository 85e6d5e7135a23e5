import CodeTemplate.Text.Blank
import CodeTemplate.Text.Measure

/-! Places in template text. Lines and columns count from one, and columns count 16-bit units. -/

namespace CodeTemplate

structure Location where
  line : Nat
  column : Nat
  deriving DecidableEq, Repr, Inhabited

/-- A location in the template of the given name, or in a text without a name. -/
structure Position where
  template : Option String
  location : Location
  deriving DecidableEq, Repr

def Position.text (p : Position) : String :=
  let place := s!"at line {p.location.line}, column {p.location.column}"
  match p.template with
  | none | some "" => place
  | some name => s!"in {name} {place}"

/-- A fault and the place in the text that it is reported at. -/
structure Located (α : Type) where
  fault : α
  location : Location
  deriving DecidableEq, Repr

/-- A place reached by reading text from its start: the next character's location, and the blanks
that start the current line. `leading` holds while nothing else was read on that line. -/
structure Cursor where
  location : Location := ⟨1, 1⟩
  indent : String := ""
  leading : Bool := true
  deriving DecidableEq, Repr

namespace Cursor

/-- The place after one more character. -/
def advance (c : Cursor) (ch : Char) : Cursor :=
  if ch = '\n' then { location := ⟨c.location.line + 1, 1⟩ }
  else
    let leading := c.leading && Text.isIndent ch
    { location := ⟨c.location.line, c.location.column + Text.charUnits ch⟩
      indent := if leading then c.indent.push ch else c.indent
      leading }

def past (c : Cursor) (cs : List Char) : Cursor := cs.foldl advance c

theorem past_append (c : Cursor) (cs ds : List Char) : c.past (cs ++ ds) = (c.past cs).past ds := by
  simp [past]

end Cursor
end CodeTemplate

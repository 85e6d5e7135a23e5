import CodeTemplate.Render.Error
import CodeTemplate.Text.Measure

/-! What a generator tells an observer about its work. -/

namespace CodeTemplate

inductive Event where
  | parsed (template : String) (cached : Bool)
  | rendered (template : String) (length : Nat)
  | failed (template kind message : String)
  deriving DecidableEq, Repr

namespace Event

/-- The event that ends the rendering of a template. -/
def ofResult (template : String) : Except TemplateError String → Event
  | .ok text => rendered template (Text.units text)
  | .error e => failed template e.cause.kind e.message

/-- The event as a line of a log; `elapsed` is the time that the work took. -/
def line (elapsed : String) : Event → String
  | parsed template cached =>
    s!"[codestencil] parse     {template} " ++ if cached then "(cached)" else elapsed
  | rendered template length => s!"[codestencil] render    {template} {elapsed} {length} chars"
  | failed template kind message => s!"[codestencil] ERROR     {template} {kind}: {message}"

end Event
end CodeTemplate

import CodeTemplate.Language.Basic
import CodeTemplate.Markup.Tree.Basic

/-! Filters: functions from values to texts, applied one after the other. -/

namespace CodeTemplate
namespace Filter

/-- The lines with runs of blank ones reduced to one empty line. -/
def squeeze (afterBlank : Bool) : List String → List String
  | [] => []
  | l :: ls =>
    if Text.isBlank l then
      if afterBlank then squeeze true ls else "" :: squeeze true ls
    else l :: squeeze false ls

def squeezeBlankLines (s : String) : String := Text.unlines (squeeze false (Text.lines s))

/-- The text as the body of a comment of the language. -/
def commentBody (l : Language) (w : Comment.Width) (s : String) : String :=
  Comment.reflow l.commentLead w (l.sanitize s)

/-- The filtered value. All filters but `literal` take the value as text. -/
def apply (l : Language) (w : Comment.Width) (v : Value) : Filter → Except ValueFault String
  | capfirst => v.toText.map Text.capitalize
  | blockComment => v.toText.map (commentBody l w)
  | noBlankLines => v.toText.map squeezeBlankLines
  | literal => l.literal v

/-- The value after all filters, from left to right; without any, its text. -/
def applyAll (l : Language) (w : Comment.Width) (v : Value) : List Filter → Except ValueFault String
  | [] => v.toText
  | f :: fs =>
    match f.apply l w v with
    | .error e => .error e
    | .ok s => applyAll l w (.string s) fs

end Filter
end CodeTemplate

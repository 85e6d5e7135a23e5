import CodeTemplate.Text.Lines

/-! The names in templates: identifiers, and template names, which are relative paths. -/

namespace CodeTemplate

/-- Whether an identifier can start with the character. -/
def isNameStart (c : Char) : Bool := c.isAlpha || c == '_'

def isNameRest (c : Char) : Bool := c.isAlphanum || c == '_'

/-- Why a template name is unusable. -/
inductive NameFault where
  | empty
  | parent (name : String)
  | backslash (name : String)
  | colon (name : String)
  | emptySegment (name : String)
  | character (segment : String)
  deriving DecidableEq, Repr

def NameFault.message : NameFault → String
  | empty => "Template name is empty"
  | parent name => s!"Template name cannot contain '..': {name}"
  | backslash name => s!"Template name cannot contain '\\': {name}"
  | colon name => s!"Template name cannot contain ':': {name}"
  | emptySegment name => s!"Template name has empty segment: {name}"
  | character segment => s!"Invalid character in template name segment: {segment}"

namespace TemplateName

/-- The extension of a name that has none of its own. -/
def extension : String := ".tmpl"

/-- The name without the one slash it may start with. -/
def relative (name : String) : String :=
  match name.toList with
  | '/' :: rest => String.ofList rest
  | _ => name

def segments (name : String) : List String := Text.split '/' (relative name)

def hasParent : List Char → Bool
  | '.' :: '.' :: _ => true
  | _ :: cs => hasParent cs
  | [] => false

def isSegmentRest (c : Char) : Bool := isNameRest c || c == '.' || c == '-'

/-- A segment starts with a letter, a digit or an underscore, and goes on with these, dots and
dashes. -/
def segmentFault? (name segment : String) : Option NameFault :=
  match segment.toList with
  | [] => some (.emptySegment name)
  | c :: cs => if isNameRest c && cs.all isSegmentRest then none else some (.character segment)

/-- What is wrong with a template name, if anything is. -/
def fault? (name : String) : Option NameFault :=
  if name = "" then some .empty
  else if hasParent name.toList then some (.parent name)
  else if name.toList.contains '\\' then some (.backslash name)
  else if name.toList.contains ':' then some (.colon name)
  else (segments name).findSome? (segmentFault? name)

/-- The key under which templates of this name are kept: relative, and with an extension. -/
def key (name : String) : String :=
  let last := ((segments name).getLast?).getD ""
  if last.toList.contains '.' then relative name else relative name ++ extension

/-- The key of a usable name. -/
def normalize (name : String) : Except NameFault String :=
  match fault? name with
  | some f => .error f
  | none => .ok (key name)

end TemplateName
end CodeTemplate

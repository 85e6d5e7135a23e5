import CodeTemplate.Markup.Tree.OfTokens
import CodeTemplate.Markup.Token.OfText
import CodeTemplate.Value.OfData

/-! What can go wrong with a template, from its text to the text that it renders. -/

namespace CodeTemplate

inductive Cause where
  | scan (fault : ScanFault)
  | parse (fault : ParseFault)
  | unresolved (fault : Unresolved)
  | value (fault : ValueFault)
  | callsNothing (template : String)
  | parameterOutsideList
  | cycle (chain : List String)
  | tooDeep (limit : Number) (chain : List String)
  | badName (fault : NameFault)
  | notFound (key : String)
  | noDirectory (path : String)
  | unknownLanguage (name : String)
  | failed (message : String)
  deriving DecidableEq

namespace Cause

def message : Cause → String
  | scan f => f.message
  | parse f => f.message
  | unresolved f => "Cannot resolve '" ++ f.name ++ "' in '" ++ f.path ++ "'"
  | value f => f.message
  | callsNothing name => "Cannot call template '" ++ name ++ "' without a composer"
  | parameterOutsideList => "'parameter' rendered outside of 'parameter_list'"
  | cycle chain => "Template cycle: " ++ " -> ".intercalate chain
  | tooDeep limit _ => "Template nesting exceeds maximum depth of " ++ limit.text
  | badName f => f.message
  | notFound key => "Template not found: " ++ key
  | noDirectory path => "Template directory not found: " ++ path
  | unknownLanguage name => "Unknown language '" ++ name ++ "'"
  | failed message => message

/-- The name of the kind of error, as it is reported. -/
def kind : Cause → String
  | scan _ => "LexerError"
  | parse (.unknownTag _) => "UnknownTagError"
  | parse (.unknownFilter _) => "UnknownFilterError"
  | parse _ => "ParseError"
  | unresolved _ => "AttributeError"
  | value _ => "ValueTypeError"
  | callsNothing _ | parameterOutsideList | failed _ => "RenderError"
  | cycle _ | tooDeep .. => "TemplateCycleError"
  | badName _ | notFound _ | noDirectory _ => "TemplateNotFoundError"
  | unknownLanguage _ => "UnknownLanguageError"

end Cause

structure TemplateError where
  cause : Cause
  position : Option Position := none
  deriving DecidableEq

namespace TemplateError

def message (e : TemplateError) : String :=
  match e.position with
  | none => e.cause.message
  | some p => e.cause.message ++ " " ++ p.text

/-- A fault in the text of a template, as an error of it. -/
def located {α : Type} (cause : α → Cause) (template : Option String) (l : Located α) :
    TemplateError :=
  ⟨cause l.fault, some ⟨template, l.location⟩⟩

end TemplateError

/-- The template of the given name that a text makes up. -/
def Template.ofText (name : Option String) (text : String) : Except TemplateError Template :=
  match Token.ofText text with
  | .error l => .error (.located .scan name l)
  | .ok tokens =>
    match Template.ofTokens name tokens with
    | .error l => .error (.located .parse name l)
    | .ok t => .ok t

end CodeTemplate

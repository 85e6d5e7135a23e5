import CodeTemplate.Markup.Name
import CodeTemplate.Markup.Token.Basic

/-! Why tokens make up no template. -/

namespace CodeTemplate

/-- Why tokens are no template. `got` is the text of the offending token, or its kind if it has
none. -/
inductive ParseFault where
  | expected (what : String) (got : TokenKind)
  | expectedWord (word got : String)
  | missingValue (kind : TokenKind)
  | missingTagName
  | strayInTag (got tag : String)
  | strayToken (kind : TokenKind)
  | unknownTag (name : String)
  | unknownFilter (name : String)
  | unknownTemplateTag (name : String)
  | badName (fault : NameFault)
  | duplicateArgument (key : String)
  | parameterOutsideList
  | parameterInParameter (outer : Location)
  | strayEnd (tag : String) (inside : Option (String × Location))
  | wrongEnd (wanted got : String)
  | unclosed (block : String)
  deriving DecidableEq, Repr

def ParseFault.message : ParseFault → String
  | expected what got => s!"Expected {what}, got " ++ got.name
  | expectedWord word got => "Expected '" ++ word ++ "', got " ++ got
  | missingValue kind => "Expected token value for " ++ kind.name
  | missingTagName => "Expected tag name"
  | strayInTag got tag => s!"Unexpected {got} in " ++ "'" ++ tag ++ "' tag"
  | strayToken kind => "Unexpected token: " ++ kind.name
  | unknownTag name => "Unknown tag '" ++ name ++ "'"
  | unknownFilter name => "Unknown filter '" ++ name ++ "'"
  | unknownTemplateTag name => "Unknown templatetag '" ++ name ++ "'"
  | badName fault => fault.message
  | duplicateArgument key => s!"Duplicate call_template argument: {key}"
  | parameterOutsideList => "'parameter' is only allowed inside 'parameter_list'"
  | parameterInParameter outer =>
    "'parameter' cannot be nested in the 'parameter' opened at " ++
      s!"line {outer.line}, column {outer.column}"
  | strayEnd tag none => "Unexpected '" ++ tag ++ "' outside of any block"
  | strayEnd tag (some (block, opened)) =>
    "Unexpected '" ++ tag ++ "' inside '" ++ block ++ "' block opened at " ++
      s!"line {opened.line}, column {opened.column}"
  | wrongEnd wanted got => "Expected '" ++ wanted ++ "', got '" ++ got ++ "'"
  | unclosed block => "Unclosed '" ++ block ++ "' block"

end CodeTemplate

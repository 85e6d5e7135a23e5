import CodeTemplate.Language.Basic

/-! The languages that are always there, and tables of languages by name. -/

namespace CodeTemplate
namespace Language

def starDoc : Comment.Style := ⟨some "/**", " * ", some " */"⟩

def starBlock : Comment.Style := ⟨some "/*", " * ", some " */"⟩

def hash : Comment.Style := ⟨none, "# ", none⟩

def braces : Group := ⟨"\x7b", "\x7d"⟩

def jsonQuoting : Quoting where
  named := [('\\', '\\'), ('"', '"'), ('\x08', 'b'), ('\x0c', 'f'), ('\n', 'n'), ('\r', 'r'),
    ('\t', 't')]
  codeLead := "\\u"
  codeDigits := 4
  upperCode := false
  escapesDelete := false

def javaQuoting : Quoting := { jsonQuoting with upperCode := true, escapesDelete := true }

def pythonQuoting : Quoting where
  named := [('\\', '\\'), ('"', '"'), ('\n', 'n'), ('\t', 't'), ('\r', 'r')]
  codeLead := "\\x"
  codeDigits := 2
  upperCode := true
  escapesDelete := true

/-- An integer beyond 32 bits gets the suffix of long ones. -/
def longLiteral (n : Number) : String :=
  match n.toInt? with
  | some i => if i < -twoTo 31 ∨ twoTo 31 ≤ i then toString i ++ "L" else n.text
  | none => n.text

/-- The characters with each end of a block comment written so that it ends none. -/
def protect : List Char → List Char
  | '*' :: '/' :: cs => "*&#47;".toList ++ protect cs
  | c :: cs => c :: protect cs
  | [] => []

def protectText (s : String) : String := String.ofList (protect s.toList)

/-- The type that is written around the type of its elements. -/
def around (before after : String) (element : PlainEntry) : PlainEntry :=
  .own (before ++ element.text ++ after)

def default : Language where
  name := "default"
  stringLiteral := jsonQuoting.quote
  numberLiteral := Number.text
  nullText := "null"
  trueText := "true"
  falseText := "false"
  docStyle := starDoc
  sanitize := protectText
  blockStyle := starBlock
  commentLead := " * "
  group := braces
  moduleSeparator := "."
  modelsFolder := ""
  types := [
    ("boolean", "boolean"),
    ("any", "any"),
    ("integer", "integer"),
    ("number", "number"),
    ("object", "object"),
    ("string", "string")]
  arrayOf := around "array<" ">"
  mapOf := around "map<string, " ">"

def java : Language where
  name := "java"
  stringLiteral := javaQuoting.quote
  numberLiteral := longLiteral
  nullText := "null"
  trueText := "true"
  falseText := "false"
  docStyle := starDoc
  sanitize := protectText
  blockStyle := starBlock
  commentLead := " * "
  group := braces
  moduleSeparator := "."
  modelsFolder := "model"
  types := [
    ("boolean", "Boolean"),
    ("any", "Object"),
    ("integer/int16", "Short"),
    ("integer/int32", "Integer"),
    ("integer/uint32", "Long"),
    ("number/double", "Double"),
    ("number/float", "Float"),
    ("object", "Object"),
    ("string", "String"),
    ("string/byte", "String"),
    ("string/date", "DateTime"),
    ("string/date-time", "DateTime"),
    ("string/int64", "Long"),
    ("string/uint64", "UnsignedLong")]
  arrayOf := around "java.util.List<" ">"
  mapOf := around "java.util.Map<String, " ">"

def gwt : Language := { java with name := "gwt" }

def python : Language where
  name := "python"
  stringLiteral := pythonQuoting.quote
  numberLiteral := Number.text
  nullText := "None"
  trueText := "True"
  falseText := "False"
  docStyle := hash
  sanitize := id
  blockStyle := hash
  commentLead := "# "
  group := braces
  moduleSeparator := "."
  modelsFolder := ""
  types := [
    ("boolean", "bool"),
    ("any", "object"),
    ("integer", "int"),
    ("number", "float"),
    ("object", "object"),
    ("string", "str")]
  arrayOf := around "list[" "]"
  mapOf := around "dict[str, " "]"

def builtin : List Language := [default, java, gwt, python]

end Language

/-- Languages by name, no two with one name. -/
abbrev LanguageTable := List Language

namespace LanguageTable

/-- The table with the language in the place of the one of its name, else at the end. -/
def put (l : Language) : LanguageTable → LanguageTable
  | [] => [l]
  | k :: ks => if k.name = l.name then l :: ks else k :: put l ks

/-- The builtin languages and further ones, which replace those of the same name. -/
def extending (more : List Language) : LanguageTable :=
  more.foldl (fun t l => put l t) Language.builtin

def find? (t : LanguageTable) (name : String) : Option Language := List.find? (·.name == name) t

end LanguageTable
end CodeTemplate

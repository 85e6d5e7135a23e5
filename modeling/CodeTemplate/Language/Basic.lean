import CodeTemplate.Comment.Layout
import CodeTemplate.Text.Capital
import CodeTemplate.Value.Basic

/-! Target languages: how they spell literals, comments and types. -/

namespace CodeTemplate

/-- How strings are quoted: the characters that have an escape of their own, and the form of all
other escapes. Control characters are always escaped. -/
structure Quoting where
  named : List (Char × Char)
  codeLead : String
  codeDigits : Nat
  upperCode : Bool
  escapesDelete : Bool
  deriving DecidableEq, Repr

namespace Quoting

def hexDigit (upper : Bool) (n : Nat) : Char :=
  if upper then (Nat.digitChar n).toUpper else Nat.digitChar n

/-- The code of a character in base sixteen, filled up with zeros. -/
def code (q : Quoting) (c : Char) : List Char :=
  (List.range q.codeDigits).reverse.map fun i => hexDigit q.upperCode (c.toNat / twoTo (4 * i) % 16)

def escape (q : Quoting) (c : Char) : List Char :=
  match q.named.lookup c with
  | some e => ['\\', e]
  | none =>
    if c.toNat < 0x20 || (q.escapesDelete && c.toNat == 0x7F) then q.codeLead.toList ++ q.code c
    else [c]

def quote (q : Quoting) (s : String) : String :=
  String.ofList ('"' :: (s.toList.flatMap q.escape ++ ['"']))

end Quoting

/-- The delimiters around the grouped entries of a parameter list. -/
structure Group where
  opening : String
  closing : String
  deriving DecidableEq, Repr

/-- What a target language is to templates: `stringLiteral` and `numberLiteral` spell strings and
finite numbers, `sanitize` rewrites text that would end a comment early, and `arrayOf` and `mapOf`
give the types of arrays and of maps for those of their elements. The types are a plain table; a key
is a type, or a type and its format with a slash between. -/
structure Language where
  name : String
  stringLiteral : String → String
  numberLiteral : Number → String
  nullText : String
  trueText : String
  falseText : String
  docStyle : Comment.Style
  sanitize : String → String
  blockStyle : Comment.Style
  commentLead : String
  group : Group
  moduleSeparator : String
  modelsFolder : String
  types : List (String × String)
  arrayOf : PlainEntry → PlainEntry
  mapOf : PlainEntry → PlainEntry

namespace Language

/-- The value as a literal. -/
def literal (l : Language) : Value → Except ValueFault String
  | .null => .ok l.nullText
  | .bool b => .ok (if b then l.trueText else l.falseText)
  | .number n => if n.isFinite then .ok (l.numberLiteral n) else .error (.notFiniteLiteral n)
  | .string s => .ok (l.stringLiteral s)
  | v => .error (.noLiteral v.kind)

/-- The words of a name, each with a capital, as one word. -/
def camelCase (s : String) : String :=
  "".intercalate ((Text.runs (!·.isAlphanum) s).map Text.capitalize)

/-- The type of the language for a type of a description, or else its name with capitals. -/
def codeType (l : Language) (type : String) (format : Option String) : PlainEntry :=
  let exact := format.bind fun f => PlainEntry.find? l.types (type ++ "/" ++ f)
  match exact.or (PlainEntry.find? l.types type) with
  | some t => t
  | none => .own (camelCase type)

end Language
end CodeTemplate

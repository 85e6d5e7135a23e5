import CodeTemplate.Data.Json
import CodeTemplate.Language.Table

/-! How languages read string literals. A reader takes a text that starts with a literal, and gives
the characters that the literal stands for and the text after it. Three quotes in a row open a
literal of several lines, which is none of those that are read here. -/

namespace CodeTemplate
namespace StringReader

open Data.Json (hex? charOf character? stringBody?)

/-! ### Java: first the escapes of code units are translated, then the literal is read -/

/-- A character of a translated text, or none where the translation fails, and what follows it in
the text as it is written. -/
structure Translated where
  char : Option Char
  rest : List Char
  deriving DecidableEq, Repr

/-- The text with each `\uXXXX` translated whose backslash has an even number of backslashes right
before it; `even` tells so of the first character. Two of them that make up one character are
translated together. -/
def translate (even : Bool) : List Char → List Translated
  | [] => []
  | c :: cs =>
    if c = '\\' ∧ even = true ∧ cs.head? = some 'u' then
      match character? c cs with
      | some (d, n) => ⟨some d, cs.drop n⟩ :: translate true (cs.drop n)
      | none => [⟨none, cs⟩]
    else ⟨some c, cs⟩ :: translate (c != '\\' || !even) cs
termination_by cs => cs.length

/-- What the character after a backslash stands for. -/
def javaEscape? : Char → Option Char
  | '\\' => some '\\'
  | '"' => some '"'
  | 'n' => some '\n'
  | 't' => some '\t'
  | 'r' => some '\r'
  | 'b' => some '\x08'
  | 'f' => some '\x0c'
  | _ => none

/-- The characters up to the closing quote, and the text after it. -/
def javaBody? : List Translated → Option (List Char × List Char)
  | [] => none
  | t :: ts => do
    let c ← t.char
    if c = '"' then some ([], t.rest)
    else if c = '\n' ∨ c = '\r' then none
    else if c = '\\' then
      match ts with
      | [] => none
      | e :: ts =>
        let d ← e.char.bind javaEscape?
        let (body, rest) ← javaBody? ts
        some (d :: body, rest)
    else
      let (body, rest) ← javaBody? ts
      some (c :: body, rest)

def java? (text : List Char) : Option (List Char × List Char) :=
  if ['"', '"', '"'].isPrefixOf text then none
  else
    match translate true text with
    | ⟨some '"', _⟩ :: ts => javaBody? ts
    | _ => none

/-! ### Python -/

/-- What the characters after a backslash stand for, and how many of them belong to the escape. -/
def pythonEscape? : List Char → Option (Char × Nat)
  | '\\' :: _ => some ('\\', 1)
  | '"' :: _ => some ('"', 1)
  | 'n' :: _ => some ('\n', 1)
  | 't' :: _ => some ('\t', 1)
  | 'r' :: _ => some ('\r', 1)
  | 'x' :: a :: b :: _ => (hex? [a, b]).map fun n => (charOf n, 3)
  | _ => none

def pythonBody? : List Char → Option (List Char × List Char)
  | [] => none
  | c :: cs =>
    if c = '"' then some ([], cs)
    else if c = '\n' ∨ c = '\r' then none
    else do
      let (d, n) ← if c = '\\' then pythonEscape? cs else some (c, 0)
      let (body, rest) ← pythonBody? (cs.drop n)
      some (d :: body, rest)
termination_by cs => cs.length

def python? (text : List Char) : Option (List Char × List Char) :=
  if ['"', '"', '"'].isPrefixOf text then none
  else
    match text with
    | '"' :: cs => pythonBody? cs
    | _ => none

/-! ### JSON -/

def json? : List Char → Option (List Char × List Char)
  | '"' :: cs => stringBody? cs
  | _ => none

end StringReader

/-- How a builtin language reads string literals. -/
def Language.readString? (l : Language) : List Char → Option (List Char × List Char) :=
  match l.name with
  | "java" | "gwt" => StringReader.java?
  | "python" => StringReader.python?
  | _ => StringReader.json?

end CodeTemplate

import CodeTemplate.Data.Plain
import CodeTemplate.Markup.Token.Basic

/-! Templates as trees. -/

namespace CodeTemplate

/-- A dotted path: a name, and the attributes to read from what it is bound to. -/
structure Path where
  name : String
  attributes : List String
  deriving DecidableEq, Repr

def Path.segments (p : Path) : List String := p.name :: p.attributes

inductive Filter where
  | capfirst
  | blockComment
  | noBlankLines
  | literal
  deriving DecidableEq, Repr

namespace Filter

def name : Filter → String
  | capfirst => "capfirst"
  | blockComment => "block_comment"
  | noBlankLines => "noblanklines"
  | literal => "literal"

def all : List Filter := [capfirst, blockComment, noBlankLines, literal]

def ofName? (name : String) : Option Filter := all.find? (·.name == name)

end Filter

inductive ArgumentValue where
  | path (p : Path)
  | string (s : String)
  deriving DecidableEq, Repr

structure Argument where
  key : String
  value : ArgumentValue
  deriving DecidableEq, Repr

/-- A node of a template. `start` is where its tag starts, and `indent` are the blanks that start
the line of its tag. What a tag finds in a plain table may be an inherited member in the place of a
text. -/
inductive Node where
  | text (value : String)
  | inherited (member : Inherited)
  | variable (path : Path) (filters : List Filter) (start : Location)
  | conditional (condition : Path) (thenBranch : List Node) (elseBranch : Option (List Node))
      (start : Location)
  | loop (item : String) (collection : Path) (body : List Node) (start : Location)
  | filtered (filters : List Filter) (body : List Node) (start : Location)
  | imports (subject : Path) (body : List Node) (start : Location)
  | call (template : String) (args : List Argument) (start : Location)
  | docComment (subject : Path) (indent : String) (start : Location)
  | literal (path : Path) (start : Location)
  | parameterList (body : List Node) (start : Location)
  | parameter (grouped : Bool) (body : List Node) (start : Location)
  | language (name : String) (start : Location)
  | copyright (indent : String) (start : Location)
  deriving Inhabited

structure Template where
  name : Option String
  nodes : List Node
  deriving Inhabited

/-- The node that writes what a plain table holds. -/
def PlainEntry.node : PlainEntry → Node
  | own text => .text text
  | inherited member => .inherited member

/-- The texts that the tag `templatetag` writes, by name. They are a plain table. -/
def templateTags : List (String × String) := [
  ("openblock", Delimiter.blockOpen),
  ("closeblock", Delimiter.blockClose),
  ("openvariable", Delimiter.varOpen),
  ("closevariable", Delimiter.varClose),
  ("openbrace", "\x7b"),
  ("closebrace", "\x7d"),
  ("opencomment", Delimiter.commentOpen),
  ("closecomment", Delimiter.commentClose)]

end CodeTemplate

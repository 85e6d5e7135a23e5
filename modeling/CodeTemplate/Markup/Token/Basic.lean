import CodeTemplate.Markup.Position

/-! The tokens of template text. -/

namespace CodeTemplate

inductive TokenKind where
  | text | blockOpen | blockClose | varOpen | varClose | ident | string
  | dot | pipe | equal | slash | eof
  deriving DecidableEq, Repr

def TokenKind.name : TokenKind → String
  | text => "text"
  | blockOpen => "block_open"
  | blockClose => "block_close"
  | varOpen => "var_open"
  | varClose => "var_close"
  | ident => "ident"
  | string => "string"
  | dot => "dot"
  | pipe => "pipe"
  | equal => "equal"
  | slash => "slash"
  | eof => "eof"

/-- A token and where it starts. Only the end of the text has no value by itself. `indent` holds the
blanks that start the line of a block tag. -/
structure Token where
  kind : TokenKind
  value : Option String
  location : Location
  indent : String := ""
  deriving DecidableEq, Repr

namespace Delimiter

def blockOpen : String := "\x7b%"
def blockClose : String := "%\x7d"
def varOpen : String := "\x7b\x7b"
def varClose : String := "\x7d\x7d"
def commentOpen : String := "\x7b#"
def commentClose : String := "#\x7d"

end Delimiter
end CodeTemplate

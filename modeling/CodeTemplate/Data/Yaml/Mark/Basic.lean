import CodeTemplate.Text.Affix
import CodeTemplate.Text.Blank

/-! The marks of YAML text: the stretches of characters that its structure is made of. -/

namespace CodeTemplate.Data.Yaml

inductive Bracket where
  | square | curly
  deriving DecidableEq, Repr

inductive Quote where
  | single | double
  deriving DecidableEq, Repr

/-- Which of the line breaks at its end a block text keeps: one, none or all. -/
inductive Chomp where
  | clip | strip | keep
  deriving DecidableEq, Repr

/-- What stands before the lines of a block text. An indentation of zero is that of the lines. -/
structure BlockHeader where
  folded : Bool
  chomp : Chomp
  indent : Nat
  deriving DecidableEq, Repr

inductive MarkKind where
  | space | lineBreak | comment | start | dash | colon | comma
  | opening (b : Bracket)
  | closing (b : Bracket)
  | plain
  | quoted (q : Quote)
  | block (header : BlockHeader)
  deriving DecidableEq, Repr

/-- A stretch of text, where it starts in the whole, and how far its line is indented: by the
spaces, dashes and colons that the line starts with, up to the mark. -/
structure Mark where
  kind : MarkKind
  text : List Char
  offset : Nat
  indent : Nat
  deriving DecidableEq, Repr

/-- Whether the mark has no part in the structure but sets other marks apart. -/
def Mark.isGap (m : Mark) : Bool :=
  m.kind = .space || m.kind = .lineBreak || m.kind = .comment

def bracketOpenedBy? : Char → Option Bracket
  | '[' => some .square
  | '\x7b' => some .curly
  | _ => none

def bracketClosedBy? : Char → Option Bracket
  | ']' => some .square
  | '\x7d' => some .curly
  | _ => none

def quoteOf? : Char → Option Quote
  | '\'' => some .single
  | '"' => some .double
  | _ => none

def Quote.char : Quote → Char
  | single => '\''
  | double => '"'

/-- The signs that stand apart inside brackets wherever they occur. -/
def isFlowSign (c : Char) : Bool :=
  c == ',' || (bracketOpenedBy? c).isSome || (bracketClosedBy? c).isSome

def isGapChar (c : Char) : Bool := Text.isIndent c || c == '\n' || c == '\r'

/-- Whether the text is at its end, at a blank or at the end of a line. -/
def atGap : List Char → Bool
  | [] => true
  | c :: _ => isGapChar c

/-- Whether the text is at its end or at a line break. A carriage return breaks a line only in front
of a line feed. -/
def atBreak : List Char → Bool
  | [] => true
  | '\n' :: _ => true
  | '\r' :: '\n' :: _ => true
  | _ => false

/-- The text up to the end of the line. -/
def untilBreak : List Char → List Char
  | [] => []
  | c :: cs => if atBreak (c :: cs) then [] else c :: untilBreak cs

/-- The lines of a text, each with its line feed. -/
def linesOf : List Char → List (List Char)
  | [] => []
  | c :: cs =>
    if c == '\n' then [c] :: linesOf cs
    else
      match linesOf cs with
      | [] => [[c]]
      | l :: ls => (c :: l) :: ls

def spaceCount (l : List Char) : Nat := (l.takeWhile (· == ' ')).length

/-- Whether a line starts with the marker of the start or the end of a document. -/
def isMarker (marker l : List Char) : Bool :=
  match Text.after? marker l with
  | some rest => atGap rest
  | none => false

def startMarker : List Char := ['-', '-', '-']

def stopMarker : List Char := ['.', '.', '.']

/-- Whether a scalar goes on in a line, if its further lines are indented by at least `least`. It
goes on in every empty line, and where no indentation is needed in all lines but markers. -/
def continues (least : Nat) (l : List Char) : Bool :=
  if least = 0 then !(isMarker startMarker l || isMarker stopMarker l)
  else
    let content := l.dropWhile (· == ' ')
    (!content.isEmpty && atBreak content) || least ≤ spaceCount l

end CodeTemplate.Data.Yaml

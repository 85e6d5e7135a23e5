import CodeTemplate.Markup.Name
import CodeTemplate.Markup.Position
import CodeTemplate.Text.Affix

/-! Template text cut into pieces: the stretches of text between tags and comments, the comments,
and the delimiters, blanks and words inside tags. The pieces of a text, put together again, are the
text. -/

namespace CodeTemplate

/-- What a piece of template text is. The flags tell whether the piece removes the blanks before it
and the rest of the line after it; `value` is the text that a quoted string stands for. -/
inductive PieceKind where
  | text
  | comment (trimBefore trimAfter : Bool)
  | blockOpen (trim : Bool)
  | blockClose (trim : Bool)
  | varOpen
  | varClose
  | blanks
  | ident
  | string (value : String)
  | dot | pipe | equal | slash
  deriving DecidableEq, Repr

structure Piece where
  kind : PieceKind
  chars : List Char
  start : Cursor
  deriving DecidableEq, Repr

/-- Why template text cannot be cut into pieces. -/
inductive ScanFault where
  | unclosedComment
  | unclosedCommentBlock
  | unclosedTag
  | unclosedVariable
  | unterminatedString
  | unexpected (c : Char)
  deriving DecidableEq, Repr

def ScanFault.message : ScanFault → String
  | unclosedComment => "Unclosed comment"
  | unclosedCommentBlock => "Unclosed comment block"
  | unclosedTag => "Unclosed tag"
  | unclosedVariable => "Unclosed variable"
  | unterminatedString => "Unterminated string"
  | unexpected c => "Unexpected character: '" ++ c.toString ++ "'"

namespace Piece

/-- Where the next piece is: in text, or in a tag that was opened at a location. -/
inductive Mode where
  | text
  | block (opened : Location)
  | variable (opened : Location)
  deriving DecidableEq, Repr

/-- The mode after a piece of the given kind that starts at `start`. -/
def Mode.after (mode : Mode) (start : Location) : PieceKind → Mode
  | .blockOpen _ => .block start
  | .varOpen => .variable start
  | .blockClose _ | .varClose => .text
  | _ => mode

/-- Whether the text starts with a delimiter that opens a tag or a comment. -/
def opens : List Char → Bool
  | '\x7b' :: c :: _ => c == '%' || c == '\x7b' || c == '#'
  | _ => false

/-- The number of characters before the next opening delimiter. -/
def stretch : List Char → Nat
  | [] => 0
  | c :: cs => if opens (c :: cs) then 0 else stretch cs + 1

/-- The number of characters up to the end of the first `close`. -/
def through? (close : List Char) : List Char → Option Nat
  | [] => if close.isEmpty then some 0 else none
  | c :: cs =>
    if close.isPrefixOf (c :: cs) then some close.length else (through? close cs).map (· + 1)

/-- The text without a dash at its start, and whether there was one. -/
def dash : List Char → Bool × List Char
  | '-' :: cs => (true, cs)
  | cs => (false, cs)

/-- The inside of a block tag that consists of `word` alone, up to the end of the tag: whether the
tag closes with a dash, and how many characters that is. -/
def bareTag? (word cs : List Char) : Option (Bool × Nat) := do
  let rest ← Text.after? word ((dash cs).2.dropWhile Text.isSpace)
  let (trim, rest) := dash (rest.dropWhile Text.isSpace)
  let rest ← Text.after? ['%', '\x7d'] rest
  some (trim, cs.length - rest.length)

/-- The first tag that ends a comment block: whether it closes with a dash, and how many characters
there are up to its end. -/
def endComment? : List Char → Option (Bool × Nat)
  | [] => none
  | c :: cs =>
    let tag := do
      let rest ← Text.after? ['\x7b', '%'] (c :: cs)
      let (trim, n) ← bareTag? "endcomment".toList rest
      some (trim, n + 2)
    tag.or ((endComment? cs).map fun (trim, n) => (trim, n + 1))

/-- What an escaped character stands for. -/
def unescape : Char → Char
  | 'n' => '\n'
  | 't' => '\t'
  | 'r' => '\r'
  | c => c

/-- The value of a string up to its closing quote, and how many characters that is. A line may only
end in a string behind a backslash. -/
def stringTail? (quote : Char) : List Char → Option (List Char × Nat)
  | [] => none
  | c :: cs =>
    if c = '\n' then none
    else if c = quote then some ([], 1)
    else if c = '\\' then
      match cs with
      | [] => none
      | e :: cs => (stringTail? quote cs).map fun (v, n) => (unescape e :: v, n + 2)
    else (stringTail? quote cs).map fun (v, n) => (c :: v, n + 1)

def isTagBlank (c : Char) : Bool := c == ' ' || c == '\t' || c == '\r' || c == '\n'

/-- The piece that an opening delimiter starts; `cs` follows the brace. -/
def opening (cs : List Char) : Except ScanFault (PieceKind × Nat) :=
  match cs with
  | '#' :: cs =>
    match through? ['#', '\x7d'] cs with
    | some n => .ok (.comment false false, n + 1)
    | none => .error .unclosedComment
  | '\x7b' :: _ => .ok (.varOpen, 1)
  | _ =>
    let inner := cs.drop 1
    let trim := (dash inner).1
    match bareTag? "comment".toList inner with
    | some (_, n) =>
      match endComment? (inner.drop n) with
      | some (trimAfter, m) => .ok (.comment trim trimAfter, 1 + n + m)
      | none => .error .unclosedCommentBlock
    | none => .ok (.blockOpen trim, if trim then 2 else 1)

/-- The delimiter that closes a tag, if the text starts with it. -/
def closing? (mode : Mode) (cs : List Char) : Option (PieceKind × Nat) :=
  match mode, cs with
  | .block _, '-' :: '%' :: '\x7d' :: _ => some (.blockClose true, 2)
  | .block _, '%' :: '\x7d' :: _ => some (.blockClose false, 1)
  | .variable _, '\x7d' :: '\x7d' :: _ => some (.varClose, 1)
  | _, _ => none

/-- The blanks, the word or the sign in a tag that starts with `c`. -/
def inner (c : Char) (cs : List Char) : Except ScanFault (PieceKind × Nat) :=
  if isTagBlank c then .ok (.blanks, (cs.takeWhile isTagBlank).length)
  else if c = '.' then .ok (.dot, 0)
  else if c = '|' then .ok (.pipe, 0)
  else if c = '=' then .ok (.equal, 0)
  else if c = '/' then .ok (.slash, 0)
  else if c = '"' ∨ c = '\'' then
    match stringTail? c cs with
    | some (value, n) => .ok (.string (String.ofList value), n)
    | none => .error .unterminatedString
  else if isNameStart c then .ok (.ident, (cs.takeWhile isNameRest).length)
  else .error (.unexpected c)

/-- The kind of the piece that starts with `c`, and how many further characters it has. -/
def next (mode : Mode) (c : Char) (cs : List Char) : Except ScanFault (PieceKind × Nat) :=
  match mode with
  | .text => if opens (c :: cs) then opening cs else .ok (.text, stretch cs)
  | mode =>
    match closing? mode (c :: cs) with
    | some piece => .ok piece
    | none => inner c cs

/-- The pieces of a text that starts at `start`. A fault lies at the start of the piece that cannot
be completed, or of the tag that is not closed. -/
def cut (mode : Mode) (start : Cursor) : List Char → Except (Located ScanFault) (List Piece)
  | [] =>
    match mode with
    | .text => .ok []
    | .block opened => .error ⟨.unclosedTag, opened⟩
    | .variable opened => .error ⟨.unclosedVariable, opened⟩
  | c :: cs =>
    match next mode c cs with
    | .error f => .error ⟨f, start.location⟩
    | .ok (kind, n) =>
      let chars := c :: cs.take n
      match cut (mode.after start.location kind) (start.past chars) (cs.drop n) with
      | .error f => .error f
      | .ok pieces => .ok (⟨kind, chars, start⟩ :: pieces)
termination_by cs => cs.length

end Piece
end CodeTemplate

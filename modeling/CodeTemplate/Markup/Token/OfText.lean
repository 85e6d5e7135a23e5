import CodeTemplate.Markup.Piece
import CodeTemplate.Markup.Token.Basic

/-! The tokens of template text. Pieces inside tags become tokens one by one; a stretch of text
loses the blanks that the dashes of the tags around it remove, and becomes a token if something is
left. -/

namespace CodeTemplate
namespace Token

/-- The rest of a line, with its line break, if it is blank: how many characters that is. The end of
the text ends a line only if the text ends there. -/
def blankRest? (atEnd : Bool) : List Char → Option Nat
  | [] => if atEnd then some 0 else none
  | c :: cs =>
    if c = '\n' then some 1
    else if c = ' ' ∨ c = '\t' ∨ c = '\r' then (blankRest? atEnd cs).map (· + 1)
    else none

/-- The text without the blanks after its last line break, if nothing else stands there. -/
def withoutBlankTail (cs : List Char) : List Char :=
  let kept := Text.dropEndWhile Text.isIndent cs
  if kept.isEmpty || kept.getLast? == some '\n' then kept else cs

/-- The tokens, the last first, after a tag that removes the blanks before it. -/
def trimLast : List Token → List Token
  | t :: ts =>
    if t.kind = .text then
      match withoutBlankTail (t.value.getD "").toList with
      | [] => ts
      | cs => { t with value := some (String.ofList cs) } :: ts
    else t :: ts
  | [] => []

/-- The token for a piece inside a tag, or for one of its delimiters. -/
def ofPiece? (p : Piece) : Option Token :=
  let token (kind : TokenKind) : Option Token :=
    some ⟨kind, some (String.ofList p.chars), p.start.location, ""⟩
  match p.kind with
  | .text | .comment .. | .blanks => none
  | .blockOpen _ => some ⟨.blockOpen, some Delimiter.blockOpen, p.start.location, p.start.indent⟩
  | .blockClose trim =>
    let close := if trim then p.start.advance '-' else p.start
    some ⟨.blockClose, some Delimiter.blockClose, close.location, ""⟩
  | .varOpen => token .varOpen
  | .varClose => token .varClose
  | .ident => token .ident
  | .string value => some ⟨.string, some value, p.start.location, ""⟩
  | .dot => token .dot
  | .pipe => token .pipe
  | .equal => token .equal
  | .slash => token .slash

/-- The token of a stretch of text, from its character number `n` on. -/
def ofText? (p : Piece) (n : Nat) : Option Token :=
  match p.chars.drop n with
  | [] => none
  | cs => some ⟨.text, some (String.ofList cs), (p.start.past (p.chars.take n)).location, ""⟩

/-- Adds the tokens of the pieces to those before them, the last first. `skip` holds after a tag
that removes the rest of its line. -/
def ofPieces (before : List Token) (skip : Bool) : List Piece → List Token
  | [] => before
  | p :: ps =>
    match p.kind with
    | .text =>
      let dropped := if skip then (blankRest? ps.isEmpty p.chars).getD 0 else 0
      ofPieces ((ofText? p dropped).toList ++ before) false ps
    | .comment trimBefore trimAfter =>
      ofPieces (if trimBefore then trimLast before else before) trimAfter ps
    | .blockOpen trim =>
      ofPieces ((ofPiece? p).toList ++ if trim then trimLast before else before) false ps
    | .blockClose trim => ofPieces ((ofPiece? p).toList ++ before) trim ps
    | _ => ofPieces ((ofPiece? p).toList ++ before) false ps

/-- The tokens of a template text; the last one marks its end. -/
def ofText (text : String) : Except (Located ScanFault) (List Token) :=
  let cs := text.toList
  (Piece.cut .text {} cs).map fun pieces =>
    (⟨.eof, none, (Cursor.past {} cs).location, ""⟩ :: ofPieces [] false pieces).reverse

end Token
end CodeTemplate

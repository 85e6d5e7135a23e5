import CodeTemplate.Data.Yaml.Mark.Basic
import CodeTemplate.Number.Decimal

/-! Block texts: the texts of whole lines that are indented under a bar or an angle. -/

namespace CodeTemplate.Data.Yaml

namespace BlockHeader

/-- The header with a chomping sign and an indentation, in either order. -/
def ofSigns? (folded : Bool) (signs : List Char) : Option BlockHeader :=
  let digits := signs.filter Char.isDigit
  match signs.filter (!·.isDigit), digits with
  | [], [] => some ⟨folded, .clip, 0⟩
  | ['-'], [] => some ⟨folded, .strip, 0⟩
  | ['+'], [] => some ⟨folded, .keep, 0⟩
  | chomps, [d] =>
    if d = '0' then none
    else
      match chomps with
      | [] => some ⟨folded, .clip, Number.digitValue d⟩
      | ['-'] => some ⟨folded, .strip, Number.digitValue d⟩
      | ['+'] => some ⟨folded, .keep, Number.digitValue d⟩
      | _ => none
  | _, _ => none

end BlockHeader

/-- Whether a line holds nothing but spaces. -/
def isVoidLine (l : List Char) : Bool :=
  let content := l.dropWhile (· == ' ')
  content.isEmpty || content == ['\r'] || atBreak content

/-- Lines without the last ones that hold at most `indent` spaces and nothing else. The first line
stays. -/
def dropVoidEnd (indent : Nat) : List (List Char) → List (List Char)
  | [] => []
  | l :: ls =>
    l :: (ls.reverse.dropWhile fun m => isVoidLine m && spaceCount m ≤ indent).reverse

/-- The part of a text that belongs to the block text under a header, and the indentation that was
needed for it to go on. `least` is the indentation needed around it. A line that starts with a tab
is taken in with the blank lines after it, so that it is not mistaken for what follows. -/
def BlockHeader.body (h : BlockHeader) (least : Nat) (cs : List Char) : List Char × Nat :=
  let ls := linesOf cs
  let lead := ls.takeWhile fun l => isVoidLine l && l.contains '\n'
  let content := ls.drop lead.length
  let indent := (content.head?.map spaceCount).getD 0
  let inside :=
    if indent < least then least
    else if h.indent = 0 then indent
    else h.indent - 1 + max least 1
  let taken := if indent < least then lead else lead ++ content.takeWhile (continues inside)
  let next := (ls.drop taken.length).flatten
  if (next.dropWhile (· == ' ')).head? == some '\t' then
    (taken.flatten ++ next.takeWhile isGapChar, inside)
  else if h.chomp = .keep then (taken.flatten, inside)
  else ((dropVoidEnd indent taken).flatten, inside)

/-- A line of a block text: how many spaces it starts with, and what follows them. -/
structure BlockLine where
  spaces : Nat
  content : List Char

namespace BlockLine

def ofChars (l : List Char) : BlockLine := ⟨spaceCount l, l.drop (spaceCount l)⟩

def isVoid (l : BlockLine) : Bool := l.content.isEmpty || l.content == ['\r']

/-- The line from the column `trim` on, without a carriage return at its end. -/
def beyond (trim : Nat) (l : BlockLine) : List Char :=
  List.replicate (l.spaces - trim) ' ' ++
    if l.content.getLast? = some '\r' then l.content.dropLast else l.content

/-- The spaces of the line from the column `trim` on. -/
def margin (trim : Nat) (l : BlockLine) : List Char := List.replicate (l.spaces - trim) ' '

/-- Whether a folded text keeps the line breaks around the line. -/
def isSetOff (trim : Nat) (l : BlockLine) : Bool := trim < l.spaces || l.content.head? == some '\t'

/-- The column at which the text of the lines starts. `low` is that of an indentation given in the
header, or else the least one that is allowed. Empty lines in front must not be wider. -/
def column? (given atRoot : Bool) (low : Nat) : List BlockLine → Option Nat
  | [] => some low
  | l :: ls =>
    if l.isVoid then column? given atRoot (if given then low else max low l.spaces) ls
    else if l.spaces < low then none
    else
      let column := if given then low else l.spaces
      if column = 0 && !atRoot then none else some column

/-- The lines folded, after the separator that the line before them left. A line break becomes a
space, an empty line a line break, and lines that are set off keep theirs. -/
def fold (trim : Nat) (separator : List Char) (setOff : Bool) : List BlockLine → List Char
  | [] => []
  | l :: ls =>
    if l.isSetOff trim then
      let lead :=
        if separator = [' '] then ['\n']
        else if !setOff && separator = ['\n'] then ['\n', '\n']
        else separator
      lead ++ l.beyond trim ++ fold trim ['\n'] true ls
    else if l.isVoid then
      if separator = ['\n'] then '\n' :: fold trim separator setOff ls
      else fold trim ['\n'] setOff ls
    else separator ++ l.beyond trim ++ fold trim [' '] false ls

end BlockLine

/-- The text that the body of a block text stands for. `indent` is the indentation of the collection
around it. -/
def BlockHeader.text? (h : BlockHeader) (indent : Nat) (atRoot : Bool) (body : List Char) :
    Option (List Char) :=
  if body.isEmpty then some []
  else do
    let ls := (body.splitOn '\n').map BlockLine.ofChars
    let tail := (ls.reverse.takeWhile BlockLine.isVoid).reverse
    let content := ls.take (ls.length - tail.length)
    if content.isEmpty then
      some (if h.chomp = .keep then List.replicate (max 1 (ls.length - 1)) '\n' else [])
    else
      let trim ← BlockLine.column? (h.indent != 0) atRoot (indent + h.indent) content
      let rest := (tail.reverse.takeWhile fun l => l.spaces ≤ trim).reverse
      let content := content ++ tail.take (tail.length - rest.length)
      let lead := content.takeWhile BlockLine.isVoid
      let body := content.drop lead.length
      if body.any fun l => !l.isVoid && l.spaces < trim then none
      else
        let text := lead.flatMap (fun l => l.margin trim ++ ['\n']) ++
          if h.folded then BlockLine.fold trim [] false body
          else ['\n'].intercalate (body.map (BlockLine.beyond trim))
        some <| text ++ match h.chomp with
          | .strip => []
          | .clip => ['\n']
          | .keep =>
            let breaks := rest.flatMap fun l => '\n' :: l.margin trim
            if (text ++ breaks).getLast? = some '\n' then breaks else breaks ++ ['\n']

end CodeTemplate.Data.Yaml

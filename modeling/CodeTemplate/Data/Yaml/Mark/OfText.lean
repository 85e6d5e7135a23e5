import CodeTemplate.Data.Yaml.BlockText
import CodeTemplate.Text.Measure

/-! The marks of a YAML text. A scanner cuts the text from its start on; how far it is in brackets,
and how far the lines are indented, decides where a scalar ends. -/

namespace CodeTemplate.Data.Yaml

/-- The text that is left, and the marks so far, the last first. -/
structure Scanner where
  rest : List Char
  offset : Nat := 0
  marks : List Mark := []
  /-- Only spaces, dashes and colons stand before on the line. -/
  fresh : Bool := true
  /-- The indentation of the line up to here. -/
  indent : Nat := 0
  /-- Where the line starts after its spaces and dashes. -/
  column : Nat := 0
  /-- The indentation that a scalar needs to go on in the next line. -/
  least : Nat := 0
  /-- How many brackets are open. -/
  depth : Nat := 0
  /-- A quoted text or a closing bracket was read, so that a colon ends a key. -/
  keyed : Bool := false
  /-- The end of the document was marked. -/
  ended : Bool := false

namespace Scanner

def skip (s : Scanner) (n : Nat) : Scanner :=
  { s with rest := s.rest.drop n, offset := s.offset + Text.unitsOf (s.rest.take n) }

/-- The next `n` characters made a mark. -/
def add (s : Scanner) (kind : MarkKind) (n : Nat) : Scanner :=
  let mark : Mark := ⟨kind, s.rest.take n, s.offset, s.indent⟩
  let s := { s.skip n with marks := mark :: s.marks }
  match kind with
  | .lineBreak | .block _ => { s with fresh := true, indent := 0 }
  | .space =>
    if s.fresh && mark.text.head? == some ' ' then { s with indent := s.indent + n } else s
  | .dash | .colon => if s.fresh then { s with indent := s.indent + 1 } else s
  | _ => { s with fresh := false }

/-- The characters with `p` at the current place made a space. -/
def addSpace (s : Scanner) (p : Char → Bool) : Scanner :=
  let n := (s.rest.takeWhile p).length
  if n = 0 then s else s.add .space n

def addBreak (s : Scanner) : Scanner :=
  match s.rest with
  | '\n' :: _ => s.add .lineBreak 1
  | '\r' :: '\n' :: _ => s.add .lineBreak 2
  | _ => s

def addComment (s : Scanner) : Scanner := s.add .comment (untilBreak s.rest).length

/-- Whether a dash, a colon or a question mark before `cs` stands apart. -/
def setsApart (s : Scanner) (cs : List Char) : Bool :=
  atGap cs || (0 < s.depth && (cs.head?.map isFlowSign).getD false)

def signOf? : Char → Option MarkKind
  | '-' => some .dash
  | ':' => some .colon
  | _ => none

/-- The dashes and colons at the start of a line, each with the blanks after it. What they introduce
starts after them. -/
def lineSigns : Nat → Scanner → Scanner
  | 0, s => s
  | fuel + 1, s =>
    match s.rest with
    | [] => s
    | c :: cs =>
      match signOf? c with
      | none => s
      | some kind =>
        if atGap cs then
          let width := 1 + (cs.takeWhile Text.isIndent).length
          let t := (s.add kind 1).addSpace Text.isIndent
          lineSigns fuel { t with least := s.column + 1, column := s.column + width }
        else s

/-- The dashes and colons that stand apart at the current place, each with the blanks after it. -/
def signs : Nat → Scanner → Scanner
  | 0, s => s
  | fuel + 1, s =>
    match s.rest with
    | [] => s
    | c :: cs =>
      match signOf? c with
      | none => s
      | some kind =>
        if s.setsApart cs then
          let t := (s.add kind 1).addSpace Text.isIndent
          signs fuel
            (if s.depth = 0 then { t with least := s.column + 1 } else { t with keyed := false })
        else s

/-- The start of a line outside brackets. A line that is less indented than needed ends what needed
it, unless its second character is a blank. -/
def startLine (s : Scanner) : Option Scanner :=
  if isMarker stopMarker s.rest then some { s.skip 3 with ended := true }
  else if isMarker startMarker s.rest then none
  else
    let column := spaceCount s.rest
    let s := s.addSpace (· == ' ')
    let least := if column < s.least && !atGap (s.rest.drop 1) then column else s.least
    some (lineSigns s.rest.length { s with column, least })

/-- How many of the first `n` characters come before a line in which a scalar does not go on. -/
def heldCount (least : Nat) : Nat → List Char → Nat
  | 0, _ => 0
  | _, [] => 0
  | n + 1, c :: cs =>
    if c == '\n' && !continues least cs then 0 else heldCount least n cs + 1

/-- How many characters a text takes up to its closing quote. -/
def quotedCount? : Quote → List Char → Option Nat
  | _, [] => none
  | .single, '\'' :: '\'' :: cs => (quotedCount? .single cs).map (· + 2)
  | .single, '\'' :: _ => some 1
  | .double, '\\' :: _ :: cs => (quotedCount? .double cs).map (· + 2)
  | .double, '"' :: _ => some 1
  | q, _ :: cs => (quotedCount? q cs).map (· + 1)

/-- The quoted text at the current place. Without a closing quote it reaches to the end of the text;
with one it ends before a line that is not indented enough. Either way it has to end with a quote.
-/
def addQuoted (s : Scanner) (q : Quote) : Option Scanner :=
  let body := s.rest.drop 1
  let held := match quotedCount? q body with
    | none => body
    | some n =>
      let k := heldCount s.least n body
      if k < n then
        if (body.take k).getLast? = some '\r' then body.take (k - 1) else body.take k
      else body.take n
  if held.getLast? = some q.char then some (s.add (.quoted q) (held.length + 1)) else none

/-- The characters of a plain scalar, the blanks and line breaks after it among them. A carriage
return that breaks no line belongs to the scalar. -/
def plainChars (inFlow : Bool) (least : Nat) : List Char → List Char
  | [] => []
  | '\r' :: '\n' :: cs =>
    if cs.head? = some '#' || !continues least cs then []
    else '\r' :: '\n' :: plainChars inFlow least cs
  | c :: cs =>
    let stops :=
      if c == ':' then atGap cs || (inFlow && (cs.head?.map isFlowSign).getD false)
      else if c == '\n' then cs.head? = some '#' || !continues least cs
      else inFlow && isFlowSign c
    if stops then []
    else if isGapChar c && cs.head? = some '#' then if c == '\r' then [c] else []
    else c :: plainChars inFlow least cs

/-- The list without the blanks and line breaks at its end, read from that end. -/
def dropGapEnd : List Char → List Char
  | '\n' :: '\r' :: cs => dropGapEnd cs
  | c :: cs => if Text.isIndent c || c == '\n' then dropGapEnd cs else c :: cs
  | [] => []

def addPlain (s : Scanner) : Scanner :=
  s.add .plain (dropGapEnd (plainChars (0 < s.depth) s.least s.rest).reverse).length

/-- Whether no plain scalar starts with `c`: it is kept for other uses. -/
def isReserved (c : Char) : Bool := [',', '&', '*', '!', '|', '>', '%', '@', '\x60'].contains c

/-- The scalar at the current place that starts with `c` and is not a block text. -/
def addScalar (s : Scanner) (c : Char) : Option Scanner :=
  match quoteOf? c with
  | some q => s.addQuoted q
  | none =>
    if isReserved c || (c == '?' && s.setsApart (s.rest.drop 1)) then none
    else some s.addPlain

/-- The block text at the current place: the header, at most a comment after it, and the lines. -/
def addBlock (s : Scanner) (folded : Bool) : Option Scanner := do
  let signs := (s.rest.drop 1).takeWhile fun c => !isGapChar c && c != '#'
  let header ← BlockHeader.ofSigns? folded signs
  let s := s.skip (1 + signs.length)
  let blanks := s.rest.takeWhile Text.isIndent
  let s := s.skip blanks.length
  let comment := untilBreak s.rest
  if comment.isEmpty || (comment.head? = some '#' && !blanks.isEmpty) then
    let s := s.skip comment.length
    let s := s.skip (if s.rest.head? = some '\r' then 2 else 1)
    let (body, least) := header.body s.least s.rest
    ({ s with least }.add (.block header) body.length).startLine
  else none

/-- The marks up to and with the next scalar, bracket or line break outside brackets. -/
def blockStep (s : Scanner) : Option Scanner :=
  let s := s.addSpace Text.isIndent
  let s := signs s.rest.length s
  match s.rest with
  | [] => some s
  | c :: cs =>
    if atBreak (c :: cs) then s.addBreak.startLine
    else if c == '#' then s.addComment.addBreak.startLine
    else if c == '|' || c == '>' then s.addBlock (c == '>')
    else if (bracketClosedBy? c).isSome then none
    else
      match bracketOpenedBy? c with
      | some b => some { s.add (.opening b) 1 with keyed := false, depth := 1 }
      | none => s.addScalar c

/-- The blanks and line breaks in brackets, and how far the last line begun among them is indented.
-/
def flowGaps : Nat → Option Nat → Scanner → Scanner × Option Nat
  | 0, indent, s => (s, indent)
  | fuel + 1, indent, s =>
    if s.rest.isEmpty then (s, indent)
    else if atBreak s.rest then
      let s := s.addBreak
      let column := spaceCount s.rest
      flowGaps fuel (some column)
        { (s.addSpace (· == ' ')).addSpace Text.isIndent with column }
    else if (s.rest.head?.map Text.isIndent).getD false then
      flowGaps fuel indent (s.addSpace Text.isIndent)
    else (s, indent)

/-- Whether a line in brackets that is indented by `indent` has to be refused. Comments may stand
anywhere, and the last closing bracket where the line that needs the indentation starts. -/
def isUnderIndented (s : Scanner) (indent : Nat) : Bool :=
  let head := s.rest.head?
  let closes := (head.bind bracketClosedBy?).isSome
  (indent < s.least && head != some '#' ||
      indent = 0 && (isMarker startMarker s.rest || isMarker stopMarker s.rest)) &&
    !(indent + 1 = s.least && s.depth = 1 && closes)

/-- The commas at the current place, each with the blanks after it. -/
def commas : Nat → Scanner → Scanner
  | 0, s => s
  | fuel + 1, s =>
    if s.rest.head? = some ',' then
      commas fuel { (s.add .comma 1).addSpace Text.isIndent with keyed := false }
    else s

/-- The marks up to and with the next scalar or bracket in brackets. -/
def flowStep (s : Scanner) : Option Scanner :=
  let (s, indent) := flowGaps s.rest.length none s
  if (indent.map s.isUnderIndented).getD false then none
  else
    let s := commas s.rest.length s
    let s := signs s.rest.length s
    match s.rest with
    | [] => some s
    | c :: cs =>
      if atBreak (c :: cs) then some s
      else if c == '#' then some s.addComment
      else if c == ':' && s.keyed then
        some { (s.add .colon 1).addSpace Text.isIndent with keyed := false }
      else
        match bracketOpenedBy? c, bracketClosedBy? c with
        | some b, _ => some { s.add (.opening b) 1 with keyed := false, depth := s.depth + 1 }
        | _, some b => some { s.add (.closing b) 1 with keyed := true, depth := s.depth - 1 }
        | _, _ =>
          (s.addScalar c).map fun t => { t with keyed := (quoteOf? c).isSome }

/-- All marks of the document. Every step takes at least one character. -/
def run : Nat → Scanner → Option Scanner
  | 0, _ => none
  | fuel + 1, s =>
    if s.rest.isEmpty || s.ended then some s
    else (if s.depth = 0 then s.blockStep else s.flowStep).bind (run fuel)

end Scanner

def byteOrderMark : Char := '\uFEFF'

/-- The lines of a text from the first one that belongs to a document, and whether a directive
stands before them. -/
def documentLines (directed : Bool) : List (List Char) → Bool × List (List Char)
  | [] => (directed, [])
  | l :: ls =>
    let m := if l.head? = some byteOrderMark then l.drop 1 else l
    let content := m.dropWhile Text.isIndent
    if m.head? = some '%' then documentLines true ls
    else if content.head? = some '#' || atBreak content then documentLines directed ls
    else (directed, l :: ls)

/-- The marks of the only document of a text; none if there is no document. After directives a
document starts with a marker. -/
def Mark.ofText? (cs : List Char) : Option (List Mark) := do
  let (directed, ls) := documentLines false (linesOf cs)
  let cs := ls.flatten
  let marked := cs.head? = some byteOrderMark
  let s : Scanner := { rest := if marked then cs.drop 1 else cs, fresh := !marked }
  let s ←
    if isMarker startMarker s.rest then some (s.add .start 3)
    else if directed then none
    else s.startLine
  let s ← s.run (cs.length + 1)
  if (documentLines false (linesOf s.rest)).2.isEmpty then some s.marks.reverse else none

end CodeTemplate.Data.Yaml

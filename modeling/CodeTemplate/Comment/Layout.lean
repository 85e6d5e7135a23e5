import CodeTemplate.Number.Basic
import CodeTemplate.Text.Affix
import CodeTemplate.Text.Lines
import CodeTemplate.Text.Measure

/-! Words laid out in lines of limited width, and comments made of such lines. -/

namespace CodeTemplate.Comment

/-- How wide a line may be. `nothing` is the limit below which nothing is, not even zero. -/
inductive Width where
  | columns (n : Int)
  | unbounded
  | nothing
  deriving DecidableEq, Repr

namespace Width

/-- Lengths are integers, so a fractional width counts as the integer below it. -/
def ofNumber (x : Number) : Width :=
  match x with
  | .nan => nothing
  | .infinite negative => if negative then columns 0 else unbounded
  | x => columns (x.floor?.getD 0)

def fits (w : Width) (length : Nat) : Bool :=
  match w with
  | columns n => length ≤ n
  | unbounded => true
  | nothing => false

def minus (w : Width) (length : Nat) : Width :=
  match w with
  | columns n => columns (n - length)
  | w => w

def atLeast (w : Width) (least : Nat) : Width :=
  match w with
  | columns n => columns (max n least)
  | w => w

end Width

/-- The narrowest width that is left to the words of a line. -/
def leastWidth : Nat := 20

/-- Lays out words behind what already stands on the line. -/
def fillFrom (w : Width) (current : String) : List String → List String
  | [] => if current = "" then [] else [current]
  | word :: words =>
    if current = "" then fillFrom w word words
    else if w.fits (Text.units current + 1 + Text.units word) then
      fillFrom w (current ++ " " ++ word) words
    else current :: fillFrom w word words

/-- Lines of words, each as long as it can be. A word that is too long gets a line of its own. -/
def fillLines (w : Width) (words : List String) : List String := fillFrom w "" words

/-- A line without the blanks around it, and without one `marker` at its start. -/
def lineBody (marker line : String) : String :=
  let body := Text.trimChars line.toList
  match Text.after? marker.toList body with
  | some rest => String.ofList (Text.trimChars rest)
  | none => String.ofList body

/-- The paragraphs of a text as lists of words. Lines without words part them. -/
def paragraphs (marker text : String) : List (List String) :=
  let lines := (Text.lines text).map fun line => Text.words (lineBody marker line)
  ((lines.splitOnP List.isEmpty).map List.flatten).filter (!·.isEmpty)

/-- The lines of the paragraphs behind `lead`, with a line between two paragraphs. -/
def layout (lead : String) (w : Width) (paragraphs : List (List String)) : List String :=
  let room := (w.minus (Text.units lead)).atLeast leastWidth
  [Text.trimEnd lead].intercalate
    (paragraphs.map fun words => (fillLines room words).map (lead ++ ·))

/-- What the lines of a reflowed text start with. A first line that already starts with the marker
gives its own indent and marker, else the indent and `continuation` are taken. -/
def leadOf (continuation firstLine : String) : String :=
  let marker := Text.trimChars continuation.toList
  let indent := firstLine.toList.takeWhile Text.isIndent
  let rest := firstLine.toList.dropWhile Text.isIndent
  if !marker.isEmpty && (Text.after? marker rest).isSome then
    String.ofList (indent ++ marker ++ [' '])
  else String.ofList indent ++ continuation

/-- The text laid out anew as the body of a comment whose lines start with `continuation`. -/
def reflow (continuation : String) (w : Width) (text : String) : String :=
  match (Text.lines text).find? (!Text.isBlank ·) with
  | none => ""
  | some firstLine =>
    match paragraphs (Text.trim continuation) text with
    | [] => ""
    | ps =>
      let body := Text.unlines (layout (leadOf continuation firstLine) w ps)
      if text.toList.getLast? = some '\n' then body.push '\n' else body

/-- How a comment is written: the lines around it, if any, and what its own lines start with. -/
structure Style where
  opening : Option String
  linePrefix : String
  closing : Option String
  deriving DecidableEq, Repr

namespace Style

def line (style : Style) (body : String) : String :=
  if body = "" then Text.trimEnd style.linePrefix else style.linePrefix ++ body

/-- The lines as a comment. The first one goes where the output stands, the others are indented. -/
def comment (style : Style) (indent : String) (body : List String) : String :=
  match style.opening.toList ++ body.map style.line ++ style.closing.toList with
  | [] => ""
  | first :: rest => Text.unlines (first :: rest.map (indent ++ ·))

/-- The text as a comment of limited width. -/
def document (style : Style) (indent : String) (w : Width) (text : String) : String :=
  let room := (w.minus (Text.units indent)).minus (Text.units style.linePrefix)
  style.comment indent (layout "" room (paragraphs "" text))

end Style
end CodeTemplate.Comment

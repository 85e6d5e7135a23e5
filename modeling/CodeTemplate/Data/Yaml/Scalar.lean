import CodeTemplate.Data.Json
import CodeTemplate.Data.Yaml.Mark.Basic

/-! YAML scalars: the values that plain text stands for, and the texts in quotes. -/

namespace CodeTemplate.Data.Yaml

/-! Plain scalars. -/

def isFloatText (cs : List Char) : Bool :=
  match (Number.splitSign cs).2 with
  | '.' :: d :: _ => d.isDigit
  | d :: _ => d.isDigit
  | [] => false

def infinity? (cs : List Char) : Option Number :=
  let (negative, unsigned) := Number.splitSign cs
  if [".inf", ".Inf", ".INF"].contains (String.ofList unsigned) then some (.infinite negative)
  else if [".nan", ".NaN", ".NAN"].contains (String.ofList cs) then some .nan
  else none

def isOctal (c : Char) : Bool := '0' ≤ c && c ≤ '7'

def numberOf? (cs : List Char) : Option Number :=
  match cs with
  | '0' :: 'x' :: ds =>
    if !ds.isEmpty && ds.all Json.isHex then some (.ofNat (Number.natOfDigits 16 ds)) else none
  | '0' :: 'o' :: ds =>
    if !ds.isEmpty && ds.all isOctal then some (.ofNat (Number.natOfDigits 8 ds)) else none
  | _ => (infinity? cs).or (if isFloatText cs then Number.ofChars? cs else none)

/-- The value of a plain scalar with the given text. -/
def plainValue (cs : List Char) : Data :=
  let s := String.ofList cs
  if ["", "~", "null", "Null", "NULL"].contains s then .null
  else if ["true", "True", "TRUE"].contains s then .bool true
  else if ["false", "False", "FALSE"].contains s then .bool false
  else match numberOf? cs with
    | some n => .number n
    | none => .string s

/-! Lines folded into one text. -/

/-- A line before its line break, without the blanks at its end. -/
def trimLineEnd (l : List Char) : List Char :=
  Text.dropEndWhile Text.isIndent (if l.getLast? = some '\r' then l.dropLast else l)

/-- The further lines of a scalar after the separator that the line before them left. A line break
becomes a space, and an empty line a line break. The blanks at the end of the last line stay. -/
def foldRest (separator : List Char) : List (List Char) → List Char
  | [] => []
  | [l] => separator ++ l.dropWhile Text.isIndent
  | l :: ls =>
    match trimLineEnd (l.dropWhile Text.isIndent) with
    | [] =>
      if separator = ['\n'] then '\n' :: foldRest separator ls else foldRest ['\n'] ls
    | cs => separator ++ cs ++ foldRest [' '] ls

def foldLines (cs : List Char) : List Char :=
  match cs.splitOn '\n' with
  | [] => []
  | [l] => l
  | l :: ls => trimLineEnd l ++ foldRest [' '] ls

/-! Single quotes: a quote inside is written twice. -/

def undouble : List Char → List Char
  | [] => []
  | '\'' :: '\'' :: cs => '\'' :: undouble cs
  | c :: cs => c :: undouble cs

/-! Double quotes: backslashes escape, and line breaks are folded. -/

/-- The number of line breaks in the blanks and line breaks at the start of a text, and what follows
them. -/
def skipGap : List Char → Nat × List Char
  | [] => (0, [])
  | c :: cs =>
    if Text.isIndent c || (c == '\r' && cs.head? = some '\n') then skipGap cs
    else if c == '\n' then ((skipGap cs).1 + 1, (skipGap cs).2)
    else (0, c :: cs)

theorem length_skipGap_le (cs : List Char) : (skipGap cs).2.length ≤ cs.length := by
  induction cs with
  | nil => simp [skipGap]
  | cons c cs ih =>
    simp only [skipGap]
    split
    · exact Nat.le_succ_of_le ih
    · split
      · exact Nat.le_succ_of_le ih
      · simp

/-- The code point of the escape with the letter `e`, and how many characters it takes after the
letter. -/
def escape? (e : Char) (cs : List Char) : Option (Nat × Nat) :=
  let hex (count : Nat) : Option (Nat × Nat) := do
    let ds := cs.take count
    let n ← Json.hex? ds
    if ds.length = count && n < 0x110000 then some (n, count) else none
  match e with
  | '0' => some (0x00, 0)
  | 'a' => some (0x07, 0)
  | 'e' => some (0x1B, 0)
  | 'v' => some (0x0B, 0)
  | ' ' => some (0x20, 0)
  | '\t' => some (0x09, 0)
  | 'N' => some (0x85, 0)
  | '_' => some (0xA0, 0)
  | 'L' => some (0x2028, 0)
  | 'P' => some (0x2029, 0)
  | 'x' => hex 2
  | 'u' => hex 4
  | 'U' => hex 8
  | _ => (Json.escaped? e).map fun c => (c.toNat, 0)

theorem length_dropWhile_le (p : Char → Bool) (cs : List Char) :
    (cs.dropWhile p).length ≤ cs.length := (List.dropWhile_suffix p).length_le

/-- The code points of a text in double quotes, given with its closing quote. A line break becomes a
space, or one line break for each further one; after an escaped one only the blanks are left out.
-/
def unescape? : List Char → Option (List Nat)
  | [] => some []
  | [_] => some []
  | c :: d :: cs =>
    if c == '\r' && d == '\n' then unescape? (d :: cs)
    else if c == '\n' then
      have := length_skipGap_le (d :: cs)
      let breaks := (skipGap (d :: cs)).1
      (unescape? (skipGap (d :: cs)).2).map fun ns =>
        (if breaks = 0 then [0x20] else List.replicate breaks 0x0A) ++ ns
    else if c == '\\' then
      if d == '\n' then
        have := length_dropWhile_le Text.isIndent cs
        unescape? (cs.dropWhile Text.isIndent)
      else if d == '\r' && cs.head? = some '\n' then
        have := length_dropWhile_le Text.isIndent (cs.drop 1)
        unescape? ((cs.drop 1).dropWhile Text.isIndent)
      else do
        let (n, count) ← escape? d cs
        let ns ← unescape? (cs.drop count)
        some (n :: ns)
    else if Text.isIndent c then
      have := length_dropWhile_le Text.isIndent (d :: cs)
      let run := c :: (d :: cs).takeWhile Text.isIndent
      let rest := (d :: cs).dropWhile Text.isIndent
      (unescape? rest).map fun ns => (if atBreak rest then [] else run.map Char.toNat) ++ ns
    else (unescape? (d :: cs)).map (c.toNat :: ·)
termination_by cs => cs.length
decreasing_by all_goals simp_all <;> omega

/-- The text of code points. The two halves of a surrogate pair make one character. -/
def textOf : List Nat → List Char
  | [] => []
  | [n] => [Json.charOf n]
  | n :: m :: ns =>
    if Json.isHighSurrogate n && Json.isLowSurrogate m then
      Json.charOf (Json.pairedBy n m) :: textOf ns
    else Json.charOf n :: textOf (m :: ns)

/-- The text of a quoted scalar, given with its quotes. -/
def quotedText? (q : Quote) (cs : List Char) : Option (List Char) :=
  match q with
  | .single => some (undouble (foldLines (cs.drop 1).dropLast))
  | .double => (unescape? (cs.drop 1)).map textOf

end CodeTemplate.Data.Yaml

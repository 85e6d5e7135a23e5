/-! White space, and texts with the white space at their ends removed. -/

namespace CodeTemplate.Text

/-- A tab, a line break, a separator or the byte order mark. Next line (133), the zero-width space
and the vowel separator are not spaces. -/
def isSpace (c : Char) : Bool :=
  let n := c.toNat
  (0x09 ≤ n && n ≤ 0x0D) || n == 0x20 || n == 0xA0 || n == 0x1680 ||
    (0x2000 ≤ n && n ≤ 0x200A) || n == 0x2028 || n == 0x2029 || n == 0x202F || n == 0x205F ||
    n == 0x3000 || n == 0xFEFF

/-- The characters that indent a line. -/
def isIndent (c : Char) : Bool := c == ' ' || c == '\t'

/-- The list without its longest suffix in which all characters have `p`. -/
def dropEndWhile (p : Char → Bool) (cs : List Char) : List Char :=
  (cs.reverse.dropWhile p).reverse

def trimChars (cs : List Char) : List Char := dropEndWhile isSpace (cs.dropWhile isSpace)

def trim (s : String) : String := String.ofList (trimChars s.toList)

def trimEnd (s : String) : String := String.ofList (dropEndWhile isSpace s.toList)

def isBlank (s : String) : Bool := s.toList.all isSpace

end CodeTemplate.Text

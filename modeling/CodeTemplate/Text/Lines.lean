import CodeTemplate.Text.Blank

/-! A text as lines, and a line as words. -/

namespace CodeTemplate.Text

/-- The parts of a text between the occurrences of `sep`, one more than there are of them. -/
def split (sep : Char) (s : String) : List String := (s.toList.splitOn sep).map String.ofList

def lines (s : String) : List String := split '\n' s

def unlines (ls : List String) : String := "\n".intercalate ls

/-- The longest runs of characters without `p`, in order. -/
def runs (p : Char → Bool) (s : String) : List String :=
  ((s.toList.splitOnP p).filter (!·.isEmpty)).map String.ofList

def words (s : String) : List String := runs isSpace s

end CodeTemplate.Text

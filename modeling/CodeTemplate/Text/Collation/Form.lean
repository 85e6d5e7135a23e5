/-! The forms in which one letter is written: small and capital, raised, circled, wide and so on. -/

namespace CodeTemplate.Text.Collation

/-- The forms in their order. -/
inductive Form where
  | plain | wide | compatible | font | circled
  | capital | wideCapital | compatibleCapital | fontCapital | circledCapital
  | smallHiragana | hiragana | smallKatakana | smallNarrowKatakana
  | katakana | narrowKatakana | circledKatakana
  | raised | lowered | vertical | initial | medial | final | isolated | unbroken
  | square | squareCapital | fraction
  deriving DecidableEq

namespace Form

/-- The place of a form, never zero. -/
def rank (f : Form) : Nat := f.ctorIdx + 1

/-- The form of a capital that is written in form `f`. -/
def asCapital : Form → Form
  | plain => capital
  | wide => wideCapital
  | compatible => compatibleCapital
  | font => fontCapital
  | circled => circledCapital
  | raised => squareCapital
  | square => squareCapital
  | f => f

/-- The form that a member in form `g` has within a character of form `f`. -/
def onto (f g : Form) : Form := if g = capital then f.asCapital else f

end Form
end CodeTemplate.Text.Collation

/-! Lengths. A text is measured in 16-bit units: a character beyond the basic plane counts twice. -/

namespace CodeTemplate.Text

def charUnits (c : Char) : Nat := if c.toNat < 0x10000 then 1 else 2

def unitsOf : List Char → Nat
  | [] => 0
  | c :: cs => charUnits c + unitsOf cs

def units (s : String) : Nat := unitsOf s.toList

@[simp] theorem unitsOf_append (cs ds : List Char) :
    unitsOf (cs ++ ds) = unitsOf cs + unitsOf ds := by
  induction cs with
  | nil => simp [unitsOf]
  | cons c cs ih => simp [unitsOf, ih, Nat.add_assoc]

end CodeTemplate.Text

import CodeTemplate.Number.Basic

/-! Decimal text read as a number: a sign, digits with a point, and a power of ten. -/

namespace CodeTemplate.Number

def digitsValue (base : Nat) (digit : Char → Nat) (cs : List Char) : Nat :=
  cs.foldl (fun n c => n * base + digit c) 0

/-- The value of a digit of any base up to sixteen. -/
def digitValue (c : Char) : Nat :=
  if c.isDigit then c.toNat - '0'.toNat
  else if 'a' ≤ c ∧ c ≤ 'f' then c.toNat - 'a'.toNat + 10
  else c.toNat - 'A'.toNat + 10

def natOfDigits (base : Nat) (cs : List Char) : Nat := digitsValue base digitValue cs

def digitCount (n : Nat) : Nat := if n = 0 then 0 else (Nat.toDigits 10 n).length

/-- The number nearest to `digits * 10 ^ exponent`. Powers far outside the range are not computed.
-/
def ofDecimal (negative : Bool) (digits : Nat) (exponent : Int) : Number :=
  let order := exponent + digitCount digits
  if digits = 0 ∨ order < -330 then ofRatio negative 0 1
  else if 310 < order then .infinite negative
  else if 0 ≤ exponent then ofRatio negative (digits * tenTo exponent.toNat) 1
  else ofRatio negative digits (tenTo (-exponent).toNat)

def splitSign : List Char → Bool × List Char
  | '-' :: cs => (true, cs)
  | '+' :: cs => (false, cs)
  | cs => (false, cs)

/-- The power of ten written after the digits; nothing stands for zero. -/
def exponentOf? : List Char → Option Int
  | [] => some 0
  | c :: cs =>
    let (negative, ds) := splitSign cs
    if (c == 'e' || c == 'E') && !ds.isEmpty && ds.all Char.isDigit then
      let n : Int := natOfDigits 10 ds
      some (if negative then -n else n)
    else none

/-- The number that a decimal text denotes: a sign, digits with at most one point among them, at
least one digit, and an optional power of ten. -/
def ofChars? (cs : List Char) : Option Number :=
  let (negative, cs) := splitSign cs
  let whole := cs.takeWhile Char.isDigit
  let rest := cs.dropWhile Char.isDigit
  let (fraction, rest) := match rest with
    | '.' :: rest => (rest.takeWhile Char.isDigit, rest.dropWhile Char.isDigit)
    | rest => ([], rest)
  if whole.isEmpty && fraction.isEmpty then none
  else (exponentOf? rest).map fun e =>
    ofDecimal negative (natOfDigits 10 (whole ++ fraction)) (e - fraction.length)

end CodeTemplate.Number

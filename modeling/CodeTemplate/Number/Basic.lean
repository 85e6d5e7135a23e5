/-! Binary64 numbers as exact values. A finite number is a sign, a mantissa and a power of two in
the one normal form of its value, so equal values are equal terms, the two zeros apart. -/

namespace CodeTemplate

def twoTo (n : Nat) : Nat := Nat.pow 2 n

def tenTo (n : Nat) : Nat := Nat.pow 10 n

/-- `m * 2 ^ e` is the normal form of a binary64 magnitude. -/
def Number.Canonical (m : Nat) (e : Int) : Prop :=
  m < twoTo 53 ∧ -1074 ≤ e ∧ e ≤ 971 ∧ (twoTo 52 ≤ m ∨ e = -1074)

instance (m : Nat) (e : Int) : Decidable (Number.Canonical m e) := by
  unfold Number.Canonical; infer_instance

inductive Number where
  | nan
  | infinite (negative : Bool)
  | finite (negative : Bool) (mantissa : Nat) (exponent : Int)
      (canonical : Number.Canonical mantissa exponent)
  deriving DecidableEq

namespace Number

/-- A magnitude beyond the largest finite one is infinite. -/
def ofParts (negative : Bool) (m : Nat) (e : Int) : Number :=
  if h : Canonical m e then .finite negative m e h else .infinite negative

def zero : Number := .finite false 0 (-1074) (by decide)

instance : Inhabited Number := ⟨zero⟩

/-- The quotient rounded to the nearest integer, a half to the even neighbour. -/
def roundDiv (num den : Nat) : Nat :=
  let q := num / den
  let r := num % den
  if 2 * r < den ∨ (2 * r = den ∧ q % 2 = 0) then q else q + 1

/-- A fraction equal to `num / den / 2 ^ e`. -/
def scaled (num den : Nat) (e : Int) : Nat × Nat :=
  if 0 ≤ e then (num, den * twoTo e.toNat) else (num * twoTo (-e).toNat, den)

/-- The power of two at or below `num / den`, both positive. -/
def binaryOrder (num den : Nat) : Int :=
  let l : Int := (num.log2 : Int) - den.log2
  let (n, d) := scaled num den l
  if n < d then l - 1 else l

/-- The number nearest to `num / den`, ties to an even mantissa. -/
def ofRatio (negative : Bool) (num den : Nat) : Number :=
  if num = 0 then ofParts negative 0 (-1074)
  else
    let e := max (binaryOrder num den - 52) (-1074)
    let (n, d) := scaled num den e
    let m := roundDiv n d
    if m = twoTo 53 then ofParts negative (twoTo 52) (e + 1) else ofParts negative m e

def ofNat (n : Nat) : Number := ofRatio false n 1

def isFinite : Number → Bool
  | finite .. => true
  | _ => false

def isZero : Number → Bool
  | finite _ m _ _ => m = 0
  | _ => false

/-- The value of a finite number that is an integer. -/
def toInt? : Number → Option Int
  | finite negative m e _ =>
    let signed : Int := if negative then -m else m
    if 0 ≤ e then some (signed * twoTo e.toNat)
    else if m % twoTo (-e).toNat = 0 then some (signed / twoTo (-e).toNat)
    else none
  | _ => none

/-- The greatest integer at most a finite number. -/
def floor? : Number → Option Int
  | finite negative m e _ =>
    let signed : Int := if negative then -m else m
    some (if 0 ≤ e then signed * twoTo e.toNat else signed.fdiv (twoTo (-e).toNat))
  | _ => none

/-- Whether the number is at most `n`. Not a number is at most nothing. -/
def atMost (x : Number) (n : Nat) : Bool :=
  match x with
  | nan => false
  | infinite negative => negative
  | finite negative m e _ =>
    negative || (if 0 ≤ e then m * twoTo e.toNat ≤ n else m ≤ n * twoTo (-e).toNat)

/-- Whether the number is greater than zero. -/
def isPositive : Number → Bool
  | nan => false
  | infinite negative => !negative
  | finite negative m _ _ => !negative && m != 0

end Number
end CodeTemplate

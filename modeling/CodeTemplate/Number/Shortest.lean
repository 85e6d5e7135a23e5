import CodeTemplate.Number.Decimal

/-! The text of a number: the fewest digits that read back as it, and of those the nearest to it. -/

namespace CodeTemplate.Number

/-- The power of ten at or below `num / den`, both positive. -/
def decimalOrder (num den : Nat) : Int :=
  if den ≤ num then (digitCount (num / den) : Int) - 1
  else -(digitCount ((den + num - 1) / num - 1) : Int)

/-- The number `digits * 10 ^ power`. -/
structure Decimal where
  digits : Nat
  power : Int
  deriving DecidableEq, Repr

/-- The nearer of the two multiples of `10 ^ power` around `num / den` that read back as `x`, of two
equally near ones the even. -/
def neighbour? (x : Number) (num den : Nat) (power : Int) : Option Decimal :=
  let (n, d) :=
    if 0 ≤ power then (num, den * tenTo power.toNat) else (num * tenTo (-power).toNat, den)
  let low := n / d
  let r := n % d
  let readsBack (s : Nat) : Bool := ofDecimal false s power = x
  let lowFirst := 2 * r < d || (2 * r == d && low % 2 == 0)
  let (first, second) := if lowFirst then (low, low + 1) else (low + 1, low)
  if readsBack first then some ⟨first, power⟩
  else if readsBack second then some ⟨second, power⟩
  else none

/-- The digits for the positive number `m * 2 ^ e`; seventeen always suffice. -/
def shortest (m : Nat) (e : Int) : Decimal :=
  let (num, den) := if 0 ≤ e then (m * twoTo e.toNat, 1) else (m, twoTo (-e).toNat)
  let order := decimalOrder num den
  let x := ofParts false m e
  ((List.range 17).findSome? fun (i : Nat) => neighbour? x num den (order - i)).getD ⟨m, e⟩

def zeros (n : Nat) : List Char := List.replicate n '0'

/-- The digits `ds`, of which the last stands for `10 ^ power`: positional from `10 ^ -7`
(exclusive) to `10 ^ 21`, else with one digit before the point and a signed exponent. -/
def layoutDigits (ds : List Char) (power : Int) : List Char :=
  let count : Int := ds.length
  let point := count + power
  if 0 ≤ power ∧ point ≤ 21 then ds ++ zeros power.toNat
  else if 0 < point ∧ point ≤ 21 then ds.take point.toNat ++ '.' :: ds.drop point.toNat
  else if -6 < point ∧ point ≤ 0 then '0' :: '.' :: (zeros (-point).toNat ++ ds)
  else
    let exponent := point - 1
    let fraction := if ds.length = 1 then [] else '.' :: ds.drop 1
    ds.take 1 ++ fraction ++ 'e' :: (if exponent < 0 then '-' else '+') ::
      Nat.toDigits 10 exponent.natAbs

/-- Trailing zeros are moved from the digits to the power of ten. -/
def Decimal.text (d : Decimal) : List Char :=
  let all := Nat.toDigits 10 d.digits
  let kept := (all.reverse.dropWhile (· == '0')).reverse
  layoutDigits kept (d.power + (all.length - kept.length))

def text : Number → String
  | nan => "NaN"
  | infinite negative => if negative then "-Infinity" else "Infinity"
  | finite negative m e _ =>
    if m = 0 then "0"
    else String.ofList ((if negative then ['-'] else []) ++ (shortest m e).text)

end CodeTemplate.Number

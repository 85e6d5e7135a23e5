import CodeTemplate.Number.Decimal
import CodeTemplate.Text.Lines

/-! Characters at even distances, as tables of characters list them. A run is written in hexadecimal
as `first`, `first+count` or `first+count*step`. -/

namespace CodeTemplate.Text

def hexadecimal (s : String) : Nat := Number.natOfDigits 16 s.toList

structure CodeRun where
  first : Nat
  count : Nat
  step : Nat

namespace CodeRun

def ofText (s : String) : CodeRun :=
  match split '+' s with
  | [first, rest] =>
    match split '*' rest with
    | [count, step] =>
      { first := hexadecimal first, count := hexadecimal count, step := hexadecimal step }
    | _ => { first := hexadecimal first, count := hexadecimal rest, step := 1 }
  | _ => { first := hexadecimal s, count := 1, step := 1 }

def listOfText (s : String) : List CodeRun := (words s).map ofText

/-- The place of a character in a run. -/
def index? (r : CodeRun) (c : Nat) : Option Nat :=
  let i := (c - r.first) / r.step
  if r.first ≤ c ∧ (c - r.first) % r.step = 0 ∧ i < r.count then some i else none

/-- The place of a character in some runs, one after the other. -/
def indexIn? : List CodeRun → Nat → Option Nat
  | [], _ => none
  | r :: rs, c => (r.index? c).or ((indexIn? rs c).map (r.count + ·))

def contains (rs : List CodeRun) (c : Nat) : Bool := rs.any fun r => (r.index? c).isSome

end CodeRun
end CodeTemplate.Text

import CodeTemplate.Number.Shortest

/-! Plain data, as a JSON or YAML document holds it. -/

namespace CodeTemplate

/-- The types of the values that no document holds. -/
inductive ForeignType where
  | function
  | symbol
  | bigint
  deriving DecidableEq, Repr

def ForeignType.name : ForeignType → String
  | function => "function"
  | symbol => "symbol"
  | bigint => "bigint"

/-- `missing` stands for a value that is not there at all, unlike `null`, and `foreign` for one that
data has no counterpart of. -/
inductive Data where
  | missing
  | foreign (type : ForeignType)
  | null
  | bool (b : Bool)
  | number (n : Number)
  | string (s : String)
  | array (items : List Data)
  | object (members : List (String × Data))
  deriving Inhabited

namespace Data

/-- The name of the type of a value in validation messages. -/
def typeName : Data → String
  | missing => "undefined"
  | foreign type => type.name
  | null => "null"
  | bool _ => "boolean"
  | number .nan => "nan"
  | number _ => "number"
  | string _ => "string"
  | array _ => "array"
  | object _ => "object"

/-- The number that a member name spells, if it is a list index: no sign, no leading zero, and below
`2 ^ 32 - 1`. -/
def index? (name : String) : Option Nat :=
  let cs := name.toList
  let n := Number.natOfDigits 10 cs
  if cs ≠ [] ∧ cs.all Char.isDigit ∧ (cs.head? = some '0' → cs.length = 1) ∧ n < twoTo 32 - 1 then
    some n
  else none

/-- Whether a new member `name` goes in front of the member `other`: indices come first, in order.
-/
def precedes (name other : String) : Bool :=
  match index? name, index? other with
  | some m, some n => m < n
  | some _, none => true
  | none, _ => false

/-- The members with `name` set to `d`: in the place it had, else in front of the first member that
it precedes, else at the end. -/
def putMember (name : String) (d : Data) : List (String × Data) → List (String × Data)
  | [] => [(name, d)]
  | (k, e) :: ms =>
    if k = name then (k, d) :: ms
    else if precedes name k then (name, d) :: (k, e) :: ms
    else (k, e) :: putMember name d ms

end Data
end CodeTemplate

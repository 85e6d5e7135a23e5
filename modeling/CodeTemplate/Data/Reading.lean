import CodeTemplate.Data.Basic

/-! Data read as typed values. A reading goes on after a fault and collects all of them, in the
order in which the members are declared; it has no value where something has the wrong type. -/

namespace CodeTemplate

/-- What is wrong with one piece of data. -/
inductive DataFault where
  | required
  | wrongType (expected received : String)
  | emptyText
  | emptyList
  | notPositive
  | noAlternative
  | notAmong (choices : List String) (received : String)
  | unknownMembers (names : List String)
  | exclusive (first second : String)
  deriving DecidableEq, Repr

namespace DataFault

/-- The fault of a value that should have been an `expected` one. -/
def unexpected (expected : String) : Data → DataFault
  | .missing => required
  | d => wrongType expected d.typeName

def quotedList (separator : String) (names : List String) : String :=
  separator.intercalate (names.map fun n => "'" ++ n ++ "'")

def message : DataFault → String
  | required => "Required"
  | wrongType expected received => s!"Expected {expected}, received {received}"
  | emptyText => "String must contain at least 1 character(s)"
  | emptyList => "Array must contain at least 1 element(s)"
  | notPositive => "Number must be greater than 0"
  | noAlternative => "Invalid input"
  | notAmong choices received =>
    "Invalid enum value. Expected " ++ quotedList " | " choices ++ ", received '" ++ received ++ "'"
  | unknownMembers names => "Unrecognized key(s) in object: " ++ quotedList ", " names
  | exclusive first second => s!"{first} and {second} cannot both be set"

end DataFault

/-- A fault and where it is: the member names and indices that lead to it. -/
structure Issue where
  path : List String
  fault : DataFault
  deriving DecidableEq, Repr

def Issue.text (i : Issue) : String :=
  (if i.path.isEmpty then "(root)" else ".".intercalate i.path) ++ ": " ++ i.fault.message

structure Reading (α : Type) where
  value : Option α
  issues : List Issue := []

namespace Reading

variable {α β : Type}

def fault (path : List String) (f : DataFault) : Reading α :=
  { value := none, issues := [⟨path, f⟩] }

def wrong (path : List String) (expected : String) (d : Data) : Reading α :=
  fault path (.unexpected expected d)

/-- The reading with a further fault, which leaves its value usable, unless `ok` holds. -/
def check (r : Reading α) (ok : Bool) (path : List String) (f : DataFault) : Reading α :=
  if ok then r else { r with issues := r.issues ++ [⟨path, f⟩] }

instance : Applicative Reading where
  pure a := { value := some a }
  seq f x := { value := f.value <*> (x ()).value, issues := f.issues ++ (x ()).issues }

/-- The value of a reading without faults. -/
def result (r : Reading α) : Except (List Issue) α :=
  match r.value, r.issues with
  | some a, [] => .ok a
  | _, issues => .error issues

end Reading

/-- Reads the data found at a path. -/
abbrev Reader (α : Type) := List String → Data → Reading α

namespace Reader

variable {α β : Type}

def text : Reader String := fun path d =>
  match d with
  | .string s => pure s
  | d => .wrong path "string" d

def nonEmptyText : Reader String := fun path d =>
  match d with
  | .string s => Reading.check (pure s) (s != "") path .emptyText
  | d => .wrong path "string" d

def flag : Reader Bool := fun path d =>
  match d with
  | .bool b => pure b
  | d => .wrong path "boolean" d

/-- An integer greater than zero. -/
def count : Reader Number := fun path d =>
  match d with
  | .number .nan => .wrong path "number" d
  | .number n =>
    ((pure n : Reading Number).check n.toInt?.isSome path (.wrongType "integer" "float")).check
      n.isPositive path .notPositive
  | d => .wrong path "number" d

def oneOf (choices : List (String × α)) : Reader α := fun path d =>
  let names := choices.map (·.1)
  match d with
  | .string s =>
    match choices.lookup s with
    | some a => pure a
    | none => .fault path (.notAmong names s)
  | d => .wrong path (DataFault.quotedList " | " names) d

/-- Items read one after the other, from index `i` on. -/
def items (r : Reader α) (path : List String) : Nat → List Data → Reading (List α)
  | _, [] => pure []
  | i, d :: ds => List.cons <$> r (path ++ [toString i]) d <*> items r path (i + 1) ds

def list (r : Reader α) : Reader (List α) := fun path d =>
  match d with
  | .array ds => items r path 0 ds
  | d => .wrong path "array" d

def nonEmptyList (r : Reader α) : Reader (List α) := fun path d =>
  match d with
  | .array ds =>
    (fun _ as => as) <$> Reading.check (pure ()) (!ds.isEmpty) path .emptyList <*> items r path 0 ds
  | d => .wrong path "array" d

def optional (r : Reader α) : Reader (Option α) := fun path d =>
  match d with
  | .missing => pure none
  | d => some <$> r path d

/-- An optional value for which null stands as well. -/
def nullable (r : Reader α) : Reader (Option α) := fun path d =>
  match d with
  | .null => pure none
  | d => optional r path d

/-- The first of two readings without faults; else the first that has a value; else a fault of its
own. -/
def either (r₁ r₂ : Reader α) : Reader α := fun path d =>
  let x := r₁ path d
  let y := r₂ path d
  if x.result.isOk then x
  else if y.result.isOk then y
  else if x.value.isSome then x
  else if y.value.isSome then y
  else .fault path .noAlternative

/-- The members of an object, read by `r`. -/
def object (r : List String → List (String × Data) → Reading α) : Reader α := fun path d =>
  match d with
  | .object ms => r path ms
  | d => .wrong path "object" d

def member (name : String) (r : Reader α) (path : List String) (ms : List (String × Data)) :
    Reading α :=
  r (path ++ [name]) ((ms.lookup name).getD .missing)

end Reader
end CodeTemplate

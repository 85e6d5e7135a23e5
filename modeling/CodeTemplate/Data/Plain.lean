/-! Tables of texts that are plain objects. A name that is not put into such a table may still be
found there: every object inherits some members. -/

namespace CodeTemplate

/-- A member that every object inherits: the prototype itself, or a function with the name and the
number of parameters that it has. -/
inductive Inherited where
  | prototype
  | function (name : String) (parameters : Nat)
  deriving DecidableEq, Repr

namespace Inherited

/-- The members that every object inherits, by the names under which they are found. -/
def all : List (String × Inherited) := [
  ("__proto__", prototype),
  ("constructor", function "Object" 1),
  ("__defineGetter__", function "__defineGetter__" 2),
  ("__defineSetter__", function "__defineSetter__" 2),
  ("__lookupGetter__", function "__lookupGetter__" 1),
  ("__lookupSetter__", function "__lookupSetter__" 1),
  ("hasOwnProperty", function "hasOwnProperty" 1),
  ("isPrototypeOf", function "isPrototypeOf" 1),
  ("propertyIsEnumerable", function "propertyIsEnumerable" 1),
  ("toLocaleString", function "toLocaleString" 0),
  ("toString", function "toString" 0),
  ("valueOf", function "valueOf" 0)]

/-- What is written where a text was expected. -/
def text : Inherited → String
  | prototype => "[object Object]"
  | function name _ => "function " ++ name ++ "() \x7b [native code] \x7d"

/-- The kind of a member, as faults name it. -/
def kind : Inherited → String
  | prototype => "object"
  | function .. => "function"

/-- Whether the length of a member is zero. That of a function is the number of its parameters. -/
def isEmpty : Inherited → Bool
  | prototype => false
  | function _ parameters => parameters == 0

end Inherited

/-- What a plain table of texts holds under a name: a text that was put there, or an inherited
member. -/
inductive PlainEntry where
  | own (text : String)
  | inherited (member : Inherited)
  deriving DecidableEq, Repr

namespace PlainEntry

/-- The entry under a name, if there is any. -/
def find? (table : List (String × String)) (name : String) : Option PlainEntry :=
  match table.lookup name with
  | some text => some (own text)
  | none => (Inherited.all.lookup name).map inherited

def text : PlainEntry → String
  | own text => text
  | inherited member => member.text

/-- The entry was put into its table. -/
def IsOwn (e : PlainEntry) : Prop := ∃ text, e = own text

def isEmpty : PlainEntry → Bool
  | own text => text == ""
  | inherited member => member.isEmpty

end PlainEntry
end CodeTemplate

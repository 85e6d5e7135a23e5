import CodeTemplate.Api.Entity
import CodeTemplate.Number.Shortest

/-! The values that templates compute with, and what can be asked of each: its attributes, its
truth, its text, its items. -/

namespace CodeTemplate

inductive Value where
  | null
  | bool (b : Bool)
  | number (n : Number)
  | string (s : String)
  | sequence (items : List Value)
  | record (members : List (String × Value))
  | entity (e : Entity)
  | inherited (member : Inherited)
  deriving Inhabited

/-- Why a value cannot be used as it is. -/
inductive ValueFault where
  | noText (kind : String)
  | notFinite (n : Number)
  | noSequence (kind : String)
  | noLiteral (kind : String)
  | notFiniteLiteral (n : Number)
  | invalidNumber (n : Number)
  | unsupported (type : String)
  | noBindings
  deriving DecidableEq

def ValueFault.message : ValueFault → String
  | noText kind => s!"Cannot stringify {kind}"
  | notFinite n => "Cannot stringify non-finite number: " ++ n.text
  | noSequence kind => s!"Expected a sequence, got {kind}"
  | noLiteral kind => s!"Cannot write {kind} as a literal"
  | notFiniteLiteral n => "Cannot write non-finite number as a literal: " ++ n.text
  | invalidNumber n => "Invalid number: " ++ n.text
  | unsupported type => s!"Unsupported value of type {type}"
  | noBindings => "Root data must be an object"

namespace Value

def ofOption (f : α → Value) : Option α → Value
  | none => null
  | some a => f a

def ofText? : Option String → Value := ofOption string

def ofNat (n : Nat) : Value := number (Number.ofNat n)

def ofEntry : PlainEntry → Value
  | .own text => string text
  | .inherited member => inherited member

end Value

namespace Entity

open Value (ofOption ofText? ofEntry)

def ofModel (m : Model) : Value := .entity (.model m)

def ofParameters (ps : List Parameter) : Value := .sequence (ps.map fun p => .entity (.parameter p))

/-- The attributes of an entity, in the order in which they are listed. -/
def attributes : Entity → List (String × Value)
  | module m => [("path", .string m.path), ("name", .string m.name)]
  | property p => [
      ("wireName", .string p.wireName),
      ("codeName", .string p.codeName),
      ("codeType", ofEntry p.codeType),
      ("description", ofText? p.description)]
  | model m => [
      ("className", .string m.className),
      ("fullClassName", .string m.fullClassName),
      ("description", ofText? m.description),
      ("module", ofOption (fun m => .entity (.module m)) m.module),
      ("arrayOf", ofOption ofModel m.arrayOf),
      ("isArray", .bool m.arrayOf.isSome),
      ("properties", .sequence (m.properties.map fun p => .entity (.property p)))]
  | parameter p => [
      ("wireName", .string p.wireName),
      ("codeName", .string p.codeName),
      ("codeType", ofEntry p.codeType),
      ("description", ofText? p.description),
      ("required", .bool p.required),
      ("location", .string p.place.name)]
  | method m => [
      ("codeName", .string m.codeName),
      ("path", .string m.path),
      ("httpMethod", .string m.httpMethod),
      ("description", ofText? m.description),
      ("requestType", ofOption ofModel m.requestType),
      ("responseType", ofOption ofModel m.responseType),
      ("parameters", ofParameters m.parameters),
      ("requiredParameters", ofParameters m.requiredParameters),
      ("optionalParameters", ofParameters m.optionalParameters),
      ("pathParameters", ofParameters m.pathParameters),
      ("queryParameters", ofParameters m.queryParameters)]
  | api a => [
      ("name", .string a.name),
      ("className", .string a.className),
      ("version", ofText? a.version),
      ("description", ofText? a.description),
      ("module", .entity (.module a.module)),
      ("methods", .sequence (a.methods.map fun m => .entity (.method m))),
      ("models", .sequence (a.models.map ofModel)),
      ("topLevelModels", .sequence (a.topLevelModels.map ofModel))]

end Entity

namespace Value

/-- The attribute of a record or an entity. -/
def attribute? (v : Value) (name : String) : Option Value :=
  match v with
  | record members => members.lookup name
  | entity e => e.attributes.lookup name
  | _ => none

/-- Whether a condition takes the value for true. Zero, the empty text and the empty sequence are
false; not a number is true. -/
def isTrue : Value → Bool
  | null => false
  | bool b => b
  | number n => !n.isZero
  | string s => s != ""
  | sequence items => !items.isEmpty
  | record _ | entity _ | inherited _ => true

/-- The kind of a value, as faults name it. -/
def kind : Value → String
  | null => "null"
  | bool _ => "boolean"
  | number _ => "number"
  | string _ => "string"
  | sequence _ => "sequence"
  | record _ | entity _ => "object"
  | inherited member => member.kind

/-- The text that a value is written as. -/
def toText : Value → Except ValueFault String
  | null => .ok ""
  | bool b => .ok (if b then "true" else "false")
  | number n => if n.isFinite then .ok n.text else .error (.notFinite n)
  | string s => .ok s
  | sequence _ => .error (.noText "a sequence")
  | record _ | entity _ | inherited _ => .error (.noText "an object")

/-- The items that a loop over the value visits. -/
def toItems : Value → Except ValueFault (List Value)
  | sequence items => .ok items
  | v => .error (.noSequence v.kind)

end Value
end CodeTemplate

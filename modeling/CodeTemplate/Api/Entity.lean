import CodeTemplate.Data.Plain
import CodeTemplate.Text.Lines

/-! The parts of an API as templates see them: modules, models with their properties, and methods
with their parameters. -/

namespace CodeTemplate

/-- Why parts cannot be put together to an entity. -/
inductive EntityFault where
  | emptyName (entity field : String)
  | arrayWithProperties (className : String)
  deriving DecidableEq, Repr

def EntityFault.message : EntityFault → String
  | emptyName entity field => s!"{entity} {field} must not be empty"
  | arrayWithProperties className =>
    s!"Model {className} cannot be both an array and have properties"

/-- Refuses an entry without length for the given field. -/
def nonEmptyEntry (entity field : String) (value : PlainEntry) : Except EntityFault Unit :=
  if value.isEmpty then .error (.emptyName entity field) else .ok ()

/-- Refuses an empty name for the given field. -/
def nonEmpty (entity field value : String) : Except EntityFault Unit :=
  nonEmptyEntry entity field (.own value)

/-- A place for classes: a path, and its name as the target language spells it. -/
structure Module where
  path : String
  name : String
  deriving DecidableEq, Repr

/-- The module at a path whose non-empty segments are joined by `delimiter`. -/
def Module.ofPath (path delimiter : String) : Module :=
  { path, name := delimiter.intercalate ((Text.split '/' path).filter (· ≠ "")) }

/-- A property of a model. Its code type may come out of a plain table. -/
structure Property where
  wireName : String
  codeName : String
  codeType : PlainEntry
  description : Option String
  deriving DecidableEq, Repr

def Property.checked (p : Property) : Except EntityFault Property := do
  nonEmpty "Property" "wireName" p.wireName
  nonEmpty "Property" "codeName" p.codeName
  nonEmptyEntry "Property" "codeType" p.codeType
  return p

/-- A class of the API: a record of properties, or an array of another model. -/
structure Model where
  className : String
  description : Option String
  module : Option Module
  arrayOf : Option Model
  properties : List Property

namespace Model

def checked (m : Model) : Except EntityFault Model := do
  nonEmpty "Model" "className" m.className
  if m.arrayOf.isSome && !m.properties.isEmpty then .error (.arrayWithProperties m.className)
  else return m

/-- The class name after the name of its module, if that has one. -/
def fullClassName (m : Model) : String :=
  match m.module with
  | some p => if p.name = "" then m.className else p.name ++ "." ++ m.className
  | none => m.className

end Model

inductive ParameterPlace where
  | path
  | query
  deriving DecidableEq, Repr

def ParameterPlace.name : ParameterPlace → String
  | path => "path"
  | query => "query"

structure Parameter where
  wireName : String
  codeName : String
  codeType : PlainEntry
  description : Option String
  required : Bool
  place : ParameterPlace
  deriving DecidableEq, Repr

def Parameter.checked (p : Parameter) : Except EntityFault Parameter := do
  nonEmpty "Parameter" "wireName" p.wireName
  nonEmpty "Parameter" "codeName" p.codeName
  nonEmptyEntry "Parameter" "codeType" p.codeType
  return p

/-- `order` names parameters by their wire names, those that come first. -/
structure Method where
  codeName : String
  path : String
  httpMethod : String
  description : Option String
  requestType : Option Model
  responseType : Option Model
  parameters : List Parameter
  order : List String

namespace Method

def checked (m : Method) : Except EntityFault Method := do
  nonEmpty "Method" "codeName" m.codeName
  return m

/-- The place of a parameter in the order; those that it does not name share the last one. -/
def rank (order : List String) (p : Parameter) : Nat := order.idxOf p.wireName

/-- The required parameters by rank, those of one rank as declared. -/
def requiredParameters (m : Method) : List Parameter :=
  (m.parameters.filter (·.required)).mergeSort fun p q => rank m.order p ≤ rank m.order q

def optionalParameters (m : Method) : List Parameter := m.parameters.filter (!·.required)

def pathParameters (m : Method) : List Parameter := m.parameters.filter (·.place = .path)

def queryParameters (m : Method) : List Parameter := m.parameters.filter (·.place = .query)

end Method

structure Api where
  name : String
  className : String
  version : Option String
  description : Option String
  module : Module
  methods : List Method
  models : List Model

namespace Api

def checked (a : Api) : Except EntityFault Api := do
  nonEmpty "Api" "name" a.name
  nonEmpty "Api" "className" a.className
  return a

/-- The models that are no arrays. -/
def topLevelModels (a : Api) : List Model := a.models.filter (·.arrayOf.isNone)

end Api

/-- Anything that has attributes of its own. -/
inductive Entity where
  | module (m : Module)
  | property (p : Property)
  | model (m : Model)
  | parameter (p : Parameter)
  | method (m : Method)
  | api (a : Api)

end CodeTemplate

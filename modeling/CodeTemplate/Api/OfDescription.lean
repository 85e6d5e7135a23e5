import CodeTemplate.Api.Description
import CodeTemplate.Data.File
import CodeTemplate.Language.Basic

/-! APIs built from their descriptions for a target language. Models refer to the models that they
are arrays of; types refer to models by name alone, so that models may hold each other. A model is
built once, where it is first referred to, and is kept in a table. -/

namespace CodeTemplate

/-- Why a description gives no API. A place is the part of the description at fault. -/
inductive DescriptionFault where
  | invalid (issues : List Issue)
  | unreadable (file : String)
  | duplicateModel (name : String)
  | unknownModel (place name : String)
  | selfReference (name : String) (chain : List String)
  | noItems (place : String)
  | noType (place : String)
  | unknownParameter (method name : String)
  | entity (fault : EntityFault)
  deriving DecidableEq, Repr

namespace DescriptionFault

/-- The texts of the issues of data that is no description. -/
def issues : DescriptionFault → List String
  | invalid issues => issues.map Issue.text
  | _ => []

def message : DescriptionFault → String
  | invalid issues => "Invalid API description: " ++ "; ".intercalate (issues.map Issue.text)
  | unreadable file => "Cannot parse API description \"" ++ file ++ "\""
  | duplicateModel name => "Duplicate model '" ++ name ++ "'"
  | unknownModel place name => s!"{place}: unknown model '" ++ name ++ "'"
  | selfReference name chain =>
    "Model '" ++ name ++ "' refers to itself: " ++ " -> ".intercalate chain
  | noItems place => s!"{place}: array type without items"
  | noType place => s!"{place}: one of codeType, $ref or type is required"
  | unknownParameter method name =>
    s!"{method}: parameterOrder names unknown parameter '" ++ name ++ "'"
  | entity fault => fault.message

end DescriptionFault

/-- The path of a module: the parts of a domain from the last to the first, and then a path. -/
def Module.pathOf (ownerDomain path : Option String) : String :=
  let domain := (Text.split '.' (ownerDomain.getD "")).filter (· ≠ "")
  let segments := (Text.split '/' (path.getD "")).filter (· ≠ "")
  "/".intercalate (domain.reverse ++ segments)

/-- What the types and models of one description are built from. -/
structure ApiBuilder where
  language : Language
  modelModule : Module
  models : List Description.Model

namespace ApiBuilder

/-- The models that are built, by name. -/
abbrev Built := List (String × Model)

/-- A part of the building, which may use what is built and add to it, and stops at a fault. -/
abbrev Build (α : Type) := StateT Built (Except DescriptionFault) α

def entity {α : Type} : Except EntityFault α → Except DescriptionFault α
  | .ok a => .ok a
  | .error f => .error (.entity f)

/-- The type in the words of the language. -/
def codeType (b : ApiBuilder) (place : String) :
    Description.Schema → Except DescriptionFault PlainEntry
  | ⟨some codeType, _, _, _, _, _⟩ => .ok (.own codeType)
  | ⟨none, _, _, some ref, _, _⟩ =>
    if b.models.any (·.className == ref) then .ok (.own ref) else .error (.unknownModel place ref)
  | ⟨none, none, _, none, _, _⟩ => .error (.noType place)
  | ⟨none, some type, format, none, items, additional⟩ =>
    if type = "array" then
      match items with
      | none => .error (.noItems place)
      | some items => (codeType b (place ++ "[]") items).map b.language.arrayOf
    else
      match additional with
      | some element =>
        if type = "object" then (codeType b (place ++ "\x7b\x7d") element).map b.language.mapOf
        else .ok (b.language.codeType type format)
      | none => .ok (b.language.codeType type format)

def property (b : ApiBuilder) (className : String) (p : Description.Property) :
    Except DescriptionFault Property := do
  let codeType ← b.codeType (className ++ "." ++ p.wireName) p.type
  entity (Property.checked {
    wireName := p.wireName
    codeName := p.codeName.getD p.wireName
    codeType
    description := p.description })

def properties (b : ApiBuilder) (className : String) (ps : List Description.Property) :
    Except DescriptionFault (List Property) :=
  ps.mapM (b.property className)

/-- The model that is described, an array of the given one if there is one. -/
def assemble (b : ApiBuilder) (className : String) (d : Description.Model)
    (arrayOf : Option Model) : Except DescriptionFault Model := do
  let properties ← b.properties className (d.properties.getD [])
  entity (Model.checked {
    className
    description := d.description
    module := some b.modelModule
    arrayOf
    properties })

/-- The descriptions of the models that have another name. -/
def without (className : String) (ms : List Description.Model) : List Description.Model :=
  ms.filter (·.className ≠ className)

theorem length_without_lt {className : String} {ms : List Description.Model} {d : Description.Model}
    (h : ms.find? (·.className == className) = some d) :
    (without className ms).length < ms.length :=
  List.length_filter_lt_length_iff_exists.2
    ⟨d, List.mem_of_find?_eq_some h, by simpa using List.find?_some h⟩

/-- The model of a name: the one that is kept, or else built. `chain` are the models that are arrays
of it, directly or not, the outermost first, and `others` the descriptions of all other models. -/
def model (b : ApiBuilder) (chain : List String) (others : List Description.Model)
    (place className : String) : Build Model := do
  match (← get).lookup className with
  | some m => return m
  | none =>
    match h : others.find? (·.className == className) with
    | none =>
      if className ∈ chain then throw (.selfReference className (chain ++ [className]))
      else throw (.unknownModel place className)
    | some d =>
      have := length_without_lt h
      let arrayOf ← match d.arrayOf with
        | none => pure none
        | some item =>
          some <$> model b (chain ++ [className]) (without className others)
            (className ++ ".arrayOf") item
      let m ← b.assemble className d arrayOf
      modify ((className, m) :: ·)
      return m
termination_by others.length

def optionalModel (b : ApiBuilder) (place : String) : Option String → Build (Option Model)
  | none => pure none
  | some name => some <$> b.model [] b.models place name

def parameter (b : ApiBuilder) (method : String) (p : Description.Parameter) :
    Except DescriptionFault Parameter := do
  let codeType ← b.codeType (method ++ "(" ++ p.wireName ++ ")") p.type
  entity (Parameter.checked {
    wireName := p.wireName
    codeName := p.codeName.getD p.wireName
    codeType
    description := p.description
    required := p.required.getD false
    place := p.place.getD .query })

def parameters (b : ApiBuilder) (method : String) (ps : List Description.Parameter) :
    Except DescriptionFault (List Parameter) :=
  ps.mapM (b.parameter method)

def method (b : ApiBuilder) (m : Description.Method) : Build Method := do
  let parameters ← b.parameters m.codeName (m.parameters.getD [])
  let order := m.parameterOrder.getD []
  match order.find? fun name => !parameters.any (·.wireName == name) with
  | some name => throw (.unknownParameter m.codeName name)
  | none =>
    let requestType ← b.optionalModel (m.codeName ++ ".requestType") m.requestType
    let responseType ← b.optionalModel (m.codeName ++ ".responseType") m.responseType
    entity (Method.checked {
      codeName := m.codeName
      path := m.path
      httpMethod := m.httpMethod.getD "GET"
      description := m.description
      requestType
      responseType
      parameters
      order })

end ApiBuilder

/-- The first name that occurs once more after it was seen. -/
def firstRepeated? : (seen names : List String) → Option String
  | _, [] => none
  | seen, n :: ns => if n ∈ seen then some n else firstRepeated? (n :: seen) ns

namespace Api

/-- The API of a description, for a target language. -/
def ofDescription (l : Language) (d : Description) : Except DescriptionFault Api := do
  let path := Module.pathOf (d.module.bind (·.ownerDomain)) (d.module.bind (·.path))
  let modelPath := "/".intercalate ([path, l.modelsFolder].filter (· ≠ ""))
  let descriptions := d.models.getD []
  match firstRepeated? [] (descriptions.map (·.className)) with
  | some name => .error (.duplicateModel name)
  | none =>
    let b : ApiBuilder := ⟨l, Module.ofPath modelPath l.moduleSeparator, descriptions⟩
    let build : ApiBuilder.Build Api := do
      let models ← descriptions.mapM fun m => b.model [] descriptions "models" m.className
      let methods ← (d.methods.getD []).mapM b.method
      ApiBuilder.entity (Api.checked {
        name := d.name
        className := d.className.getD (Text.capitalize d.name)
        version := d.version
        description := d.description
        module := Module.ofPath path l.moduleSeparator
        methods
        models })
    build.run' []

/-- The API that data describes. -/
def ofData (l : Language) (d : Data) : Except DescriptionFault Api :=
  match Description.ofData d with
  | .error issues => .error (.invalid issues)
  | .ok description => ofDescription l description

/-- The API that a description file holds. -/
def ofFile (l : Language) (name content : String) : Except DescriptionFault Api :=
  match Data.ofFile? name content with
  | none => .error (.unreadable name)
  | some d => ofData l d

end Api
end CodeTemplate

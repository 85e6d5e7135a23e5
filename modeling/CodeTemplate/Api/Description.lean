import CodeTemplate.Api.Entity
import CodeTemplate.Data.Reading

/-! Descriptions of APIs, as they are read from data. Members that are not known are passed over. -/

namespace CodeTemplate
namespace Description

open Reader

/-- A type: in the words of the target language, by the name of a model, or by a type and a format
with the type of its elements. -/
structure Schema where
  codeType : Option String
  type : Option String
  format : Option String
  ref : Option String
  items : Option Schema
  additional : Option Schema

namespace Schema

/-- The members of a type that are texts, and the types of its elements as they were read. -/
def assemble (path : List String) (ms : List (String × Data))
    (items additional : Reading (Option Schema)) : Reading Schema :=
  Schema.mk
    <$> member "codeType" (optional nonEmptyText) path ms
    <*> member "type" (optional nonEmptyText) path ms
    <*> member "format" (optional nonEmptyText) path ms
    <*> member "$ref" (optional nonEmptyText) path ms
    <*> items
    <*> additional

mutual

def read (path : List String) : Data → Reading Schema
  | .object ms =>
    assemble path ms (readMember "items" path ms) (readMember "additionalProperties" path ms)
  | d => .wrong path "object" d

/-- The type that is a member of an object, if there is one. -/
def readMember (name : String) (path : List String) : List (String × Data) → Reading (Option Schema)
  | [] => pure none
  | (k, d) :: ms =>
    if k = name then
      match d with
      | .missing => pure none
      | d => some <$> read (path ++ [name]) d
    else readMember name path ms

end

/-- The type among the members of an object that has further ones. -/
def ofMembers (path : List String) (ms : List (String × Data)) : Reading Schema :=
  assemble path ms (readMember "items" path ms) (readMember "additionalProperties" path ms)

end Schema

structure Property where
  wireName : String
  codeName : Option String
  description : Option String
  type : Schema

def Property.ofMembers (path : List String) (ms : List (String × Data)) : Reading Property :=
  Property.mk
    <$> member "wireName" nonEmptyText path ms
    <*> member "codeName" (optional nonEmptyText) path ms
    <*> member "description" (nullable text) path ms
    <*> Schema.ofMembers path ms

structure Parameter extends Property where
  required : Option Bool
  place : Option ParameterPlace

def Parameter.ofMembers (path : List String) (ms : List (String × Data)) : Reading Parameter :=
  Parameter.mk
    <$> Property.ofMembers path ms
    <*> member "required" (optional flag) path ms
    <*> member "location" (optional (oneOf [("path", .path), ("query", .query)])) path ms

structure Model where
  className : String
  description : Option String
  arrayOf : Option String
  properties : Option (List Property)

def Model.ofMembers (path : List String) (ms : List (String × Data)) : Reading Model :=
  Model.mk
    <$> member "className" nonEmptyText path ms
    <*> member "description" (nullable text) path ms
    <*> member "arrayOf" (optional nonEmptyText) path ms
    <*> member "properties" (optional (list (object Property.ofMembers))) path ms

structure Method where
  codeName : String
  path : String
  httpMethod : Option String
  description : Option String
  requestType : Option String
  responseType : Option String
  parameters : Option (List Parameter)
  parameterOrder : Option (List String)

def Method.ofMembers (path : List String) (ms : List (String × Data)) : Reading Method :=
  Method.mk
    <$> member "codeName" nonEmptyText path ms
    <*> member "path" text path ms
    <*> member "httpMethod" (optional nonEmptyText) path ms
    <*> member "description" (nullable text) path ms
    <*> member "requestType" (optional nonEmptyText) path ms
    <*> member "responseType" (optional nonEmptyText) path ms
    <*> member "parameters" (optional (list (object Parameter.ofMembers))) path ms
    <*> member "parameterOrder" (optional (list nonEmptyText)) path ms

structure Module where
  ownerDomain : Option String
  path : Option String

def Module.ofMembers (path : List String) (ms : List (String × Data)) : Reading Module :=
  Module.mk
    <$> member "ownerDomain" (optional nonEmptyText) path ms
    <*> member "path" (optional text) path ms

end Description

/-- An API as it is described: what a member does not say is open. -/
structure Description where
  name : String
  className : Option String
  version : Option String
  description : Option String
  module : Option Description.Module
  models : Option (List Description.Model)
  methods : Option (List Description.Method)

namespace Description

open Reader

def ofMembers (path : List String) (ms : List (String × Data)) : Reading Description :=
  Description.mk
    <$> member "name" nonEmptyText path ms
    <*> member "className" (optional nonEmptyText) path ms
    <*> member "version" (nullable text) path ms
    <*> member "description" (nullable text) path ms
    <*> member "module" (optional (object Module.ofMembers)) path ms
    <*> member "models" (optional (list (object Model.ofMembers))) path ms
    <*> member "methods" (optional (list (object Method.ofMembers))) path ms

/-- The description that data holds, or what is wrong with it. -/
def ofData (d : Data) : Except (List Issue) Description := (object ofMembers [] d).result

end Description
end CodeTemplate

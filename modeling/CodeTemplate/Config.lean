import CodeTemplate.Data.File
import CodeTemplate.Data.Reading
import CodeTemplate.Files.Tree

/-! Configuration of generators: read from files, checked, and completed with defaults. -/

namespace CodeTemplate

inductive ConfigFault where
  | invalid (issues : List Issue)
  | unreadable (path : AbsolutePath)
  | missing (path : AbsolutePath)
  | noCopyrightFile (path : AbsolutePath)
  deriving DecidableEq, Repr

def ConfigFault.message : ConfigFault → String
  | invalid issues => "Invalid configuration: " ++ "; ".intercalate (issues.map Issue.text)
  | unreadable path => "Cannot parse config file \"" ++ path.text ++ "\""
  | missing path => "Config file not found: \"" ++ path.text ++ "\""
  | noCopyrightFile path => "Copyright file not found: \"" ++ path.text ++ "\""

/-- One directory, or a list of them. -/
inductive SearchPath where
  | one (dir : String)
  | many (dirs : List String)
  deriving DecidableEq, Repr

def SearchPath.dirs : SearchPath → List String
  | one dir => [dir]
  | many dirs => dirs

/-- What a configuration file may say. -/
structure ConfigFile where
  language : Option String := none
  searchPath : Option SearchPath := none
  copyright : Option String := none
  copyrightFile : Option String := none
  lineWidth : Option Number := none
  maxDepth : Option Number := none
  debug : Option Bool := none

namespace ConfigFile

open Reader

def memberNames : List String :=
  ["language", "searchPath", "copyright", "copyrightFile", "lineWidth", "maxDepth", "debug"]

def searchPathReader : Reader SearchPath :=
  either (fun path d => SearchPath.one <$> nonEmptyText path d)
    (fun path d => SearchPath.many <$> nonEmptyList nonEmptyText path d)

def members (path : List String) (ms : List (String × Data)) : Reading ConfigFile :=
  ConfigFile.mk
    <$> member "language" (optional nonEmptyText) path ms
    <*> member "searchPath" (optional searchPathReader) path ms
    <*> member "copyright" (optional text) path ms
    <*> member "copyrightFile" (optional nonEmptyText) path ms
    <*> member "lineWidth" (optional count) path ms
    <*> member "maxDepth" (optional count) path ms
    <*> member "debug" (optional flag) path ms

/-- Names no member that a configuration does not have. -/
def known (path : List String) (ms : List (String × Data)) (r : Reading ConfigFile) :
    Reading ConfigFile :=
  let unknown := (ms.map (·.1)).filter (!memberNames.contains ·)
  r.check unknown.isEmpty path (.unknownMembers unknown)

/-- A configuration gives the copyright text itself or a file with it. -/
def oneCopyright (path : List String) (r : Reading ConfigFile) : Reading ConfigFile :=
  match r.value with
  | none => r
  | some c =>
    r.check (c.copyright.isNone || c.copyrightFile.isNone) path
      (.exclusive "copyright" "copyrightFile")

def reader : Reader ConfigFile :=
  object fun path ms => oneCopyright path (known path ms (members path ms))

/-- The configuration that data holds. Nothing at all is an empty one. -/
def ofData (d : Data) : Except ConfigFault ConfigFile :=
  let d := match d with
    | .missing | .null => .object []
    | d => d
  match (reader [] d).result with
  | .ok c => .ok c
  | .error issues => .error (.invalid issues)

end ConfigFile

structure Config where
  language : String
  searchPath : List AbsolutePath
  copyright : Option String
  lineWidth : Number
  maxDepth : Number
  debug : Bool

namespace Config

/-- The copyright text: given itself, or held by a file. -/
def copyrightOf (files : FileTree) (base : AbsolutePath) (c : ConfigFile) :
    Except ConfigFault (Option String) :=
  match c.copyrightFile with
  | none => .ok c.copyright
  | some name =>
    let path := base.resolve name
    match files.read? path with
    | some text => .ok (some text)
    | none => .error (.noCopyrightFile path)

/-- The configuration with defaults for all that is left open. Directories are found from `base`. -/
def complete (files : FileTree) (base : AbsolutePath) (c : ConfigFile) :
    Except ConfigFault Config := do
  let o : Generator.Options := {}
  let copyright ← copyrightOf files base c
  return {
    language := c.language.getD o.language
    searchPath := ((c.searchPath.getD (.one "templates")).dirs).map base.resolve
    copyright
    lineWidth := c.lineWidth.getD o.lineWidth
    maxDepth := c.maxDepth.getD o.maxDepth
    debug := c.debug.getD false }

/-- The names of configuration files, in the order in which they are looked for. -/
def fileNames : List String := ["codestencil.yaml", "codestencil.yml", "codestencil.json"]

/-- The configuration that a file holds; what it says is meant from the directory of the file. -/
def ofFile (files : FileTree) (path : AbsolutePath) (content : String) :
    Except ConfigFault Config :=
  match Data.ofFile? path.text content with
  | none => .error (.unreadable path)
  | some d => do
    let c ← ConfigFile.ofData d
    complete files path.parent c

/-- The configuration of the given file, or without one that of the first configuration file in the
directory, or else the defaults. -/
def load (files : FileTree) (directory : AbsolutePath) (file : Option String) :
    Except ConfigFault Config :=
  match file with
  | some name =>
    let path := directory.resolve name
    match files.read? path with
    | none => .error (.missing path)
    | some content => ofFile files path content
  | none =>
    let found := (fileNames.map directory.resolve).findSome? fun path =>
      (files.read? path).map fun content => (path, content)
    match found with
    | some (path, content) => ofFile files path content
    | none => complete files directory {}

/-- What the configuration chooses for a generator, with further languages. -/
def options (c : Config) (languages : List Language) : Generator.Options where
  language := c.language
  languages
  copyright := c.copyright
  lineWidth := c.lineWidth
  maxDepth := c.maxDepth

/-- The generator of the templates in the directories of the configuration. -/
def generator (c : Config) (files : FileTree) (languages : List Language) :
    Except TemplateError Generator := do
  let source ← files.source (c.searchPath.map ({ path := · }))
  Generator.create source (c.options languages)

end Config

end CodeTemplate

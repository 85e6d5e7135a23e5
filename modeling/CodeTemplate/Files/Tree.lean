import CodeTemplate.Files.Path
import CodeTemplate.Generator.Basic
import CodeTemplate.Text.Affix
import CodeTemplate.Text.Collation

/-! File systems as finite trees, and the templates in them. -/

namespace CodeTemplate

inductive FileTree where
  | file (text : String)
  | directory (entries : List (String × FileTree))
  deriving Inhabited

namespace FileTree

def entries : FileTree → List (String × FileTree)
  | file _ => []
  | directory es => es

def empty : FileTree := directory []

/-- What is found at the end of a way. -/
def follow? (t : FileTree) : List String → Option FileTree
  | [] => some t
  | name :: rest =>
    match t.entries.lookup name with
    | none => none
    | some t => t.follow? rest

def find? (t : FileTree) (p : AbsolutePath) : Option FileTree := t.follow? p.parts

/-- The text of the file at a path. -/
def read? (t : FileTree) (p : AbsolutePath) : Option String :=
  match t.find? p with
  | some (file text) => some text
  | _ => none

def isDirectory (t : FileTree) (p : AbsolutePath) : Bool :=
  match t.find? p with
  | some (directory _) => true
  | _ => false

/-- The tree with a file of the given text at the end of a way, or without a text with a directory.
-/
def put (text : Option String) : List String → FileTree → FileTree
  | [], t =>
    match text with
    | some s => file s
    | none => directory t.entries
  | name :: rest, t =>
    let below := (t.entries.lookup name).getD empty
    directory (setKey name (put text rest below) t.entries)

/-- The tree with files of the given names, and with empty directories where there is no text. -/
def ofFiles (base : AbsolutePath) (files : List (String × Option String)) : FileTree :=
  files.foldl (fun t (name, text) => put text (base.join name).parts t)
    (put none base.parts empty)

mutual

/-- The templates below a directory by their relative names, in the order of listing. -/
def templates : FileTree → List (String × String)
  | file _ => []
  | directory es => (Text.listed (entryTemplates es)).flatMap (·.2)

/-- The templates that each entry of a directory is or holds. -/
def entryTemplates : List (String × FileTree) → List (String × List (String × String))
  | [] => []
  | (name, file text) :: rest =>
    let found := if Text.endsWith name TemplateName.extension then [(name, text)] else []
    (name, found) :: entryTemplates rest
  | (name, directory es) :: rest =>
    let found := (templates (directory es)).map fun (n, text) => (name ++ "/" ++ n, text)
    (name, found) :: entryTemplates rest

end

/-- The templates of all directories; of those with one name the first counts. -/
def gather (t : FileTree) (found : List (String × String)) :
    List Directory → Except TemplateError (List (String × String))
  | [] => .ok found
  | dir :: dirs =>
    if t.isDirectory dir.path then
      let more := (t.find? dir.path).elim [] templates
      gather t (found ++ more.filter fun (name, _) => (found.lookup name).isNone) dirs
    else .error { cause := .noDirectory dir.text }

/-- The source of the templates in some directories, of which the earlier ones win. -/
def source (t : FileTree) (dirs : List Directory) : Except TemplateError Source :=
  match t.gather [] dirs with
  | .error e => .error e
  | .ok texts =>
    match Source.ofTexts texts with
    | .error f => .error { cause := .badName f }
    | .ok source => .ok source

end FileTree

/-- Renders the text of a file, which may call the templates in some directories. -/
def renderFileText (t : FileTree) (text : String) (frame : Frame) (dirs : List Directory)
    (o : Generator.Options) : Except TemplateError String := do
  let source ← t.source dirs
  let g ← Generator.create source o
  (((g.renderText text frame none).run {}).run).1

end CodeTemplate

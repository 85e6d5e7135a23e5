import CodeTemplate.Comment.Plain
import CodeTemplate.Language.Table
import CodeTemplate.Render.Error
import CodeTemplate.Render.Filter

/-! Templates rendered as text. The language in effect is passed on from node to node; parameters
hand their texts to the list around them; other templates are called through a function that is
given. -/

namespace CodeTemplate

/-- A computation that may fail. What it does to the state stays done when it fails. -/
abbrev Action (σ α : Type) := ExceptT TemplateError (StateM σ) α

namespace Render

/-- What is fixed while one template is rendered. `call` renders another template with bindings of
its own, in the language in effect at the call. -/
structure Setting (σ : Type) where
  template : Option String
  languages : LanguageTable
  copyright : Option String
  width : Comment.Width
  call : Option (String → Frame → Language → Position → Action σ String)

/-- The text of one parameter. -/
structure Entry where
  grouped : Bool
  text : String
  deriving DecidableEq, Repr

/-- What nodes render to: text, the language in effect after them, and the parameters among them
that belong to a list around them. -/
structure Output where
  text : String
  language : Language
  entries : List Entry := []

namespace Output

/-- The output of nodes that come one after the other. -/
def append (a b : Output) : Output := ⟨a.text ++ b.text, b.language, a.entries ++ b.entries⟩

end Output

/-- The text of a parameter list: the entries, and the grouped ones together at the end. -/
def parameterListText (group : Group) (entries : List Entry) : String :=
  let plain := (entries.filter (!·.grouped)).map (·.text)
  let grouped := (entries.filter (·.grouped)).map (·.text)
  let last :=
    if grouped.isEmpty then [] else [group.opening ++ ", ".intercalate grouped ++ group.closing]
  "(" ++ ", ".intercalate (plain ++ last) ++ ")"

/-- The entry of a parameter; blank text gives none. -/
def parameterEntries (grouped : Bool) (text : String) : List Entry :=
  let text := Text.trim text
  if text = "" then [] else [⟨grouped, text⟩]

/-- The comment for a description that may have markup. -/
def docCommentText (l : Language) (w : Comment.Width) (indent description : String) : String :=
  if Text.isBlank description then ""
  else l.docStyle.document indent w (l.sanitize (Comment.plainText description))

/-- The comment for a copyright text, line by line. -/
def copyrightText (l : Language) (indent : String) : Option String → String
  | none => ""
  | some s =>
    if Text.isBlank s then ""
    else l.blockStyle.comment indent ((Text.lines (Text.trimEnd s)).map Text.trimEnd)

variable {σ : Type}

def fail {α : Type} (cause : Cause) (p : Position) : Action σ α := throw ⟨cause, some p⟩

def ofValue {α : Type} (p : Position) : Except ValueFault α → Action σ α
  | .ok a => pure a
  | .error f => fail (.value f) p

def resolve (s : Scope) (path : Path) (p : Position) : Action σ Value :=
  match s.resolve path with
  | .ok v => pure v
  | .error f => fail (.unresolved f) p

/-- The bindings of the arguments; of two with one key the later counts. -/
def bindings (s : Scope) (p : Position) (frame : Frame) : List Argument → Action σ Frame
  | [] => pure frame
  | ⟨key, .string text⟩ :: args => bindings s p (frame.bind key (.string text)) args
  | ⟨key, .path path⟩ :: args => do
    let v ← resolve s path p
    bindings s p (frame.bind key v) args

/-- The text that describes a value: the attribute of that name, if it has one. -/
def descriptionOf (v : Value) (p : Position) : Action σ String :=
  match v.attribute? "description" with
  | none => pure ""
  | some d => ofValue p d.toText

/-- Renders the body for each item, from number `i` of `count` on. -/
def eachItem (body : Scope → Language → Action σ Output) (s : Scope) (item : String) (count : Nat) :
    Nat → List Value → Language → Action σ Output
  | _, [], l => pure ⟨"", l, []⟩
  | i, v :: vs, l => do
    let a ← body (Scope.loopFrame item v i count :: s) l
    let b ← eachItem body s item count (i + 1) vs a.language
    return a.append b

mutual

/-- Renders a node in the scope `s`, where `inList` tells whether a parameter list is around it. -/
def node (c : Setting σ) (s : Scope) (inList : Bool) (l : Language) : Node → Action σ Output
  | .text value => pure ⟨value, l, []⟩
  | .inherited member => pure ⟨member.text, l, []⟩
  | .variable path filters start => do
    let p : Position := ⟨c.template, start⟩
    let v ← resolve s path p
    let text ← ofValue p (Filter.applyAll l c.width v filters)
    return ⟨text, l, []⟩
  | .conditional condition thenBranch none start => do
    let v ← resolve s condition ⟨c.template, start⟩
    if v.isTrue then nodes c s inList l thenBranch else return ⟨"", l, []⟩
  | .conditional condition thenBranch (some elseBranch) start => do
    let v ← resolve s condition ⟨c.template, start⟩
    if v.isTrue then nodes c s inList l thenBranch else nodes c s inList l elseBranch
  | .loop item collection body start => do
    let p : Position := ⟨c.template, start⟩
    let v ← resolve s collection p
    let items ← ofValue p v.toItems
    eachItem (fun s l => nodes c s inList l body) s item items.length 0 items l
  | .filtered filters body start => do
    let out ← nodes c s inList l body
    let text ← ofValue ⟨c.template, start⟩
      (Filter.applyAll out.language c.width (.string out.text) filters)
    return { out with text }
  | .imports subject body start => do
    let _ ← resolve s subject ⟨c.template, start⟩
    nodes c s inList l body
  | .call template args start => do
    let p : Position := ⟨c.template, start⟩
    match c.call with
    | none => fail (.callsNothing template) p
    | some call =>
      let frame ← bindings s p [] args
      let text ← call template frame l p
      return ⟨text, l, []⟩
  | .docComment subject indent start => do
    let p : Position := ⟨c.template, start⟩
    let v ← resolve s subject p
    let description ← descriptionOf v p
    return ⟨docCommentText l c.width indent description, l, []⟩
  | .literal path start => do
    let p : Position := ⟨c.template, start⟩
    let v ← resolve s path p
    let text ← ofValue p (l.literal v)
    return ⟨text, l, []⟩
  | .parameterList body _ => do
    let out ← nodes c s true l body
    return ⟨parameterListText out.language.group out.entries, out.language, []⟩
  | .parameter grouped body start => do
    if inList then
      let out ← nodes c s inList l body
      return ⟨"", out.language, out.entries ++ parameterEntries grouped out.text⟩
    else fail .parameterOutsideList ⟨c.template, start⟩
  | .language name start =>
    match c.languages.find? name with
    | some l => pure ⟨"", l, []⟩
    | none => fail (.unknownLanguage name) ⟨c.template, start⟩
  | .copyright indent _ => pure ⟨copyrightText l indent c.copyright, l, []⟩

def nodes (c : Setting σ) (s : Scope) (inList : Bool) (l : Language) : List Node → Action σ Output
  | [] => pure ⟨"", l, []⟩
  | n :: ns => do
    let a ← node c s inList l n
    let b ← nodes c s inList a.language ns
    return a.append b

end

/-- Renders a template, in a scope of the given bindings alone. -/
def template (c : Setting σ) (frame : Frame) (l : Language) (t : Template) : Action σ String := do
  let out ← nodes c [frame] false l t.nodes
  return out.text

end Render
end CodeTemplate

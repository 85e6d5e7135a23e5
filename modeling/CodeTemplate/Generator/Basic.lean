import CodeTemplate.Generator.Event
import CodeTemplate.Generator.Source
import CodeTemplate.Render.Basic

/-! Generators: sources of templates together with what is the same for all renderings. Parsed
templates are kept. A template that calls others renders them in scopes of their own; one that is
being rendered is not entered again, so every rendering ends. -/

namespace CodeTemplate

/-- What a generator remembers between its tasks, and what it has told. -/
structure Store where
  cache : Cache := []
  events : List Event := []

def Store.tell (s : Store) (e : Event) : Store := { s with events := s.events ++ [e] }

structure Generator where
  source : Source
  languages : LanguageTable
  language : Language
  copyright : Option String
  lineWidth : Number
  maxDepth : Number

namespace Generator

/-- What can be chosen for a generator. -/
structure Options where
  language : String := "default"
  languages : List Language := []
  copyright : Option String := none
  lineWidth : Number := Number.ofNat 80
  maxDepth : Number := Number.ofNat 32

def create (source : Source) (o : Options) : Except TemplateError Generator :=
  let languages := LanguageTable.extending o.languages
  match languages.find? o.language with
  | none => .error { cause := .unknownLanguage o.language }
  | some language => .ok ⟨source, languages, language, o.copyright, o.lineWidth, o.maxDepth⟩

def key (name : String) (p : Option Position) : Action Store String :=
  match TemplateName.normalize name with
  | .ok key => pure key
  | .error f => throw ⟨.badName f, p⟩

/-- The template with the key: the parsed one that is kept, or else its text parsed. -/
def loadKey (g : Generator) (key : String) (p : Option Position) : Action Store Template := do
  match (← get).cache.lookup key with
  | some t =>
    modify (·.tell (.parsed key true))
    return t
  | none =>
    match g.source.read? key with
    | none => throw ⟨.notFound key, p⟩
    | some text =>
      match Template.ofText (some key) text with
      | .error e => throw e
      | .ok t =>
        modify fun s => { s with cache := setKey key t s.cache }.tell (.parsed key false)
        return t

/-- The template of a name. -/
def load (g : Generator) (name : String) (p : Option Position) : Action Store Template := do
  g.loadKey (← key name p) p

/-- The keys under which a template can be found. -/
def loadable (g : Generator) (s : Store) : List String :=
  s.cache.map (·.1) ++ g.source.map (·.1)

/-- The keys that are not `key`. -/
def without (key : String) (keys : List String) : List String := keys.filter (· ≠ key)

theorem length_without_lt {key : String} {keys : List String} (h : key ∈ keys) :
    (without key keys).length < keys.length :=
  List.length_filter_lt_length_iff_exists.2 ⟨key, h, by simp⟩

/-- Renders a template. `active` are the keys of the templates being rendered, the outermost first,
and `others` those that can still be called. -/
def run (g : Generator) (active others : List String) (t : Template) (frame : Frame)
    (l : Language) : Action Store String :=
  let call (name : String) (args : Frame) (l : Language) (p : Position) : Action Store String := do
    let key ← key name (some p)
    let chain := active ++ [key]
    if key ∈ active then Render.fail (.cycle chain) p
    else if g.maxDepth.atMost active.length then Render.fail (.tooDeep g.maxDepth chain) p
    else if h : key ∈ others then
      have := length_without_lt h
      let t ← g.loadKey key (some p)
      run g chain (without key others) t args l
    else Render.fail (.notFound key) p
  Render.template
    { template := t.name
      languages := g.languages
      copyright := g.copyright
      width := .ofNumber g.lineWidth
      call := some call }
    frame l t
termination_by others.length

/-- Renders a template that is called by no other; `active` is its key, if it has one. -/
def start (g : Generator) (active : Option String) (t : Template) (frame : Frame) :
    Action Store String := do
  let keys := g.loadable (← get)
  let others := match active with
    | none => keys
    | some key => without key keys
  g.run active.toList others t frame g.language

/-- The action, and after it the event that tells of its result. -/
def observed (template : String) (a : Action Store String) : Action Store String := fun s =>
  let (result, s) := a s
  (result, s.tell (.ofResult template result))

def render (g : Generator) (name : String) (frame : Frame) : Action Store String :=
  observed name do
    let key ← key name none
    let t ← g.loadKey key none
    g.start (some key) t frame

/-- Renders a text that is no part of the source, under a name or under none. -/
def renderText (g : Generator) (text : String) (frame : Frame) (name : Option String) :
    Action Store String :=
  observed (name.getD "<source>") do
    match Template.ofText name text with
    | .error e => throw e
    | .ok t =>
      match name with
      | none => g.start none t frame
      | some name => g.start (some (← key name none)) t frame

/-- Renders templates one after the other, whatever becomes of each. -/
def renderAll (g : Generator) (jobs : List (String × Frame)) :
    StateM Store (List (Except TemplateError String)) :=
  jobs.mapM fun (name, frame) => (g.render name frame).run

end Generator

/-- Renders a text, which may call the templates given with it. -/
def renderText (text : String) (frame : Frame) (templates : List (String × String))
    (o : Generator.Options) : Except TemplateError String := do
  match Source.ofTexts templates with
  | .error f => .error { cause := .badName f }
  | .ok source =>
    let g ← Generator.create source o
    (((g.renderText text frame none).run {}).run).1

end CodeTemplate

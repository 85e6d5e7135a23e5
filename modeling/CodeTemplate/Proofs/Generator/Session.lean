import CodeTemplate.Proofs.Generator.Cache

/-! Renderings with the keys of the templates being rendered on a stack. A session pushes a key when
it enters a called template and pops it when it leaves, and remembers each stack it had and each
call that was made. It gives what the rendering gives that passes the keys down. -/

namespace CodeTemplate

open CodeTemplate.Action

/-- A call, with the stacks before and after it. -/
structure Call where
  name : String
  position : Position
  before : List String
  after : List String

/-- A store, the stack, all stacks there have been, and the calls that have ended. -/
structure Session where
  store : Store
  active : List String
  moments : List (List String)
  calls : List Call

namespace Session

def start (store : Store) (active : List String) : Session := ⟨store, active, [active], []⟩

/-- The session with another stack. -/
def become (s : Session) (active : List String) : Session :=
  { s with active, moments := s.moments ++ [active] }

variable {α : Type}

/-- A computation with the store alone. -/
def lift (x : Action Store α) : Action Session α := fun s =>
  let (r, t) := x s.store
  (r, { s with store := t })

/-- A computation with one key more on the stack, which is popped even if the computation fails. -/
def inside (key : String) (x : Action Session α) : Action Session α := fun s =>
  let (r, t) := x (s.become (s.active ++ [key]))
  (r, t.become t.active.dropLast)

/-- A computation that is remembered as a call, even if it fails. -/
def called (name : String) (p : Position) (x : Action Session α) : Action Session α := fun s =>
  let (r, t) := x s
  (r, { t with calls := t.calls ++ [⟨name, p, s.active, t.active⟩] })

theorem exec_lift (x : Action Store α) (s : Session) :
    exec (lift x) s = ((exec x s.store).1, { s with store := (exec x s.store).2 }) := rfl

theorem exec_inside (key : String) (x : Action Session α) (s : Session) :
    exec (inside key x) s =
      let r := exec x (s.become (s.active ++ [key]))
      (r.1, r.2.become r.2.active.dropLast) := rfl

theorem exec_called (name : String) (p : Position) (x : Action Session α) (s : Session) :
    exec (called name p x) s =
      let r := exec x s
      (r.1, { r.2 with calls := r.2.calls ++ [⟨name, p, s.active, r.2.active⟩] }) := rfl

end Session

namespace Generator

open Session

/-- Renders a template in a session. `others` are the keys that can still be called. -/
def traced (g : Generator) (others : List String) (t : Template) (frame : Frame) (l : Language) :
    Action Session String :=
  let call (name : String) (args : Frame) (l : Language) (p : Position) : Action Session String :=
    called name p do
      let key ← lift (key name (some p))
      let active := (← get).active
      if key ∈ active then Render.fail (.cycle (active ++ [key])) p
      else if g.maxDepth.atMost active.length then
        Render.fail (.tooDeep g.maxDepth (active ++ [key])) p
      else if h : key ∈ others then
        have := length_without_lt h
        let t ← lift (g.loadKey key (some p))
        inside key (traced g (without key others) t args l)
      else Render.fail (.notFound key) p
  Render.template (g.setting t call) frame l t
termination_by others.length

/-- A call in a session. -/
def tracedCall (g : Generator) (others : List String) (name : String) (args : Frame) (l : Language)
    (p : Position) : Action Session String :=
  called name p do
    let key ← lift (key name (some p))
    let active := (← get).active
    if key ∈ active then Render.fail (.cycle (active ++ [key])) p
    else if g.maxDepth.atMost active.length then
      Render.fail (.tooDeep g.maxDepth (active ++ [key])) p
    else if key ∈ others then
      let t ← lift (g.loadKey key (some p))
      inside key (g.traced (without key others) t args l)
    else Render.fail (.notFound key) p

theorem traced_eq (g : Generator) (others : List String) (t : Template) (frame : Frame)
    (l : Language) :
    g.traced others t frame l =
      Render.template (g.setting t (g.tracedCall others)) frame l t := by
  rw [traced]
  rfl

end Generator

/-- The name and the text of the template with the last key. -/
def Source.last? (source : Source) (stack : List String) : Option (Option String × String) :=
  stack.getLast?.bind fun key => (source.read? key).map fun text => (some key, text)

theorem Source.last?_concat {source : Source} {key text : String} (stack : List String)
    (h : source.read? key = some text) : source.last? (stack ++ [key]) = some (some key, text) := by
  simp [last?, h]

/-- What a rendering is of: a template of the source, or a text with a name or without one. -/
inductive Root where
  | named (name : String)
  | ofText (text : String) (name : Option String)

namespace Root

def render (g : Generator) (frame : Frame) : Root → Action Store String
  | named name => g.render name frame
  | ofText text name => g.renderText text frame name

/-- What the rendering is called in its event. -/
def title : Root → String
  | named name => name
  | ofText _ name => name.getD "<source>"

/-- The template to be rendered, and its key if it has one. -/
def load (g : Generator) : Root → Action Store (Option String × Template)
  | named name => do
    let key ← Generator.key name none
    let t ← g.loadKey key none
    return (some key, t)
  | ofText text name =>
    match Template.ofText name text with
    | .error e => throw e
    | .ok t =>
      match name with
      | none => return (none, t)
      | some name => return (some (← Generator.key name none), t)

theorem render_eq (g : Generator) (frame : Frame) (root : Root) :
    root.render g frame =
      Generator.observed root.title (root.load g >>= fun w => g.start w.1 w.2 frame) := by
  cases root with
  | named name => simp [render, Generator.render, load, title]
  | ofText text name =>
    simp only [render, Generator.renderText, load, title]
    cases Template.ofText name text with
    | error e => rfl
    | ok t => cases name <;> simp

/-- The key that is on the stack from the start. -/
def key? : Root → Option String
  | named name => (TemplateName.normalize name).toOption
  | ofText _ none => none
  | ofText _ (some name) => (TemplateName.normalize name).toOption

/-- The stack from the start. -/
def stack (root : Root) : List String := root.key?.toList

/-- The tree that is rendered under a key. -/
def tree? (g : Generator) (key : String) : Root → Option Template
  | named _ => g.source.tree? key
  | ofText text name =>
    if (Root.ofText text name).key? = some key then (Template.ofText name text).toOption
    else g.source.tree? key

/-- The name and the text of the template that is rendered while the keys are on the stack. -/
def current? (g : Generator) (stack : List String) : Root → Option (Option String × String)
  | named _ => g.source.last? stack
  | ofText text name =>
    if stack = (ofText text name).stack then some (name, text) else g.source.last? stack

/-- The error tells that the root is not found. -/
inductive Unfound (g : Generator) : Root → TemplateError → Prop
  | badName {name : String} {f : NameFault} :
      TemplateName.normalize name = .error f → Unfound g (.named name) ⟨.badName f, none⟩
  | missing {name key : String} : TemplateName.normalize name = .ok key →
      g.source.read? key = none → Unfound g (.named name) ⟨.notFound key, none⟩
  | badTextName {text name : String} {f : NameFault} :
      TemplateName.normalize name = .error f →
      Unfound g (.ofText text (some name)) ⟨.badName f, none⟩

/-- What loading the root gives: it is not found, or its text is read. -/
inductive Loaded (g : Generator) (root : Root) :
    Except TemplateError (Option String × Template) → Prop
  | unfound {e : TemplateError} : root.Unfound g e → Loaded g root (.error e)
  | text {name : Option String} {text : String} : root.current? g root.stack = some (name, text) →
      Loaded g root ((Template.ofText name text).map (root.key?, ·))

theorem exec_load (g : Generator) (root : Root) {s : Store} (hs : s.cache.Consistent g.source) :
    ∃ r t, exec (root.load g) s = (r, t) ∧ t.cache.Consistent g.source ∧ root.Loaded g r := by
  cases root with
  | named name =>
    simp only [load, exec_bind, Generator.exec_key]
    cases hn : TemplateName.normalize name with
    | error f => exact ⟨_, s, rfl, hs, .unfound (.badName hn)⟩
    | ok key =>
      obtain ⟨t, hl, ht, -⟩ := Generator.exec_loadKey g key none hs
      have hkey : (named name).key? = some key := by simp [key?, hn, Except.toOption]
      have hstack : (named name).stack = [key] := by simp [stack, hkey]
      simp only [hl, Source.parse]
      cases hr : g.source.read? key with
      | none => exact ⟨_, t, rfl, ht, .unfound (.missing hn hr)⟩
      | some text =>
        have hcur : (named name).current? g (named name).stack = some (some key, text) :=
          hstack ▸ Source.last?_concat [] hr
        refine ⟨_, t, ?_, ht, .text hcur⟩
        rw [hkey]
        simp only
        cases Template.ofText (some key) text <;> rfl
  | ofText text name =>
    have hcur : (ofText text name).current? g (ofText text name).stack = some (name, text) := by
      simp [current?]
    have hloaded := Loaded.text hcur
    simp only [load]
    cases hu : Template.ofText name text with
    | error e => exact ⟨_, s, rfl, hs, by simpa [hu, Except.map] using hloaded⟩
    | ok u =>
      cases name with
      | none => exact ⟨_, s, rfl, hs, by simpa [hu, Except.map, key?] using hloaded⟩
      | some name =>
        simp only [exec_bind, Generator.exec_key]
        cases hn : TemplateName.normalize name with
        | error f => exact ⟨_, s, rfl, hs, .unfound (.badTextName hn)⟩
        | ok key =>
          refine ⟨_, s, rfl, hs, ?_⟩
          simpa [hu, Except.map, key?, hn, Except.toOption] using hloaded

theorem exists_normalize {root : Root} {key : String} (h : root.key? = some key) :
    ∃ name, TemplateName.normalize name = .ok key := by
  rcases root with name | ⟨text, _ | name⟩
  · exact ⟨name, ok_of_toOption h⟩
  · simp [key?] at h
  · exact ⟨name, ok_of_toOption h⟩

theorem tree?_of_ne {g : Generator} {root : Root} {key : String} (h : root.key? ≠ some key) :
    root.tree? g key = g.source.tree? key := by
  cases root with
  | named name => rfl
  | ofText text name => simp [tree?, h]

end Root

/-- The session of a rendering that starts with the given store. -/
def Generator.session (g : Generator) (root : Root) (frame : Frame) (s : Store) :
    Except TemplateError String × Session :=
  match exec (root.load g) s with
  | (.error e, s) => (.error e, Session.start s root.stack)
  | (.ok (key, t), s) =>
    exec (g.traced (g.callable key s) t frame g.language) (Session.start s root.stack)

end CodeTemplate

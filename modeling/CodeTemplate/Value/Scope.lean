import CodeTemplate.Markup.Tree.Basic
import CodeTemplate.Value.Basic

/-! Scopes and name resolution. A scope is a stack of frames, the innermost first; a name stands for
what the innermost frame that binds it says, whatever outer frames say. -/

namespace CodeTemplate

/-- Bindings of names. Of two with one name the first counts. -/
abbrev Frame := List (String × Value)

/-- The frame with one more binding, in front. Bindings are a plain object, in which the name of the
prototype binds nothing. -/
def Frame.bind (frame : Frame) (name : String) (v : Value) : Frame :=
  if name = "__proto__" then frame else (name, v) :: frame

theorem Frame.lookup_bind (frame : Frame) (name other : String) (v : Value) :
    (frame.bind name v).lookup other =
      if other = name ∧ other ≠ "__proto__" then some v else frame.lookup other := by
  by_cases hname : other = name
  · subst hname
    by_cases hother : other = "__proto__" <;> simp [bind, hother]
  · simp only [bind, hname, false_and, ↓reduceIte]
    split
    · rfl
    · rw [List.lookup_cons, beq_eq_false_iff_ne.2 hname]

/-- A path that stands for nothing: its first name that cannot be read, and the path before that. An
unbound leading name stands in both places. -/
structure Unresolved where
  name : String
  path : String
  deriving DecidableEq, Repr

abbrev Scope := List Frame

namespace Scope

def lookup? (s : Scope) (name : String) : Option Value := s.findSome? (·.lookup name)

/-- Reads attributes one after the other; `path` leads to `v`. -/
def attributes (v : Value) (path : String) : List String → Except Unresolved Value
  | [] => .ok v
  | a :: as =>
    match v.attribute? a with
    | none => .error ⟨a, path⟩
    | some v => attributes v (path ++ "." ++ a) as

def resolve (s : Scope) (p : Path) : Except Unresolved Value :=
  match s.lookup? p.name with
  | none => .error ⟨p.name, p.name⟩
  | some v => attributes v p.name p.attributes

/-- What a loop tells its body about item `i` of `count`. -/
def loopRecord (i count : Nat) : Value :=
  .record [
    ("first", .bool (i = 0)),
    ("last", .bool (i + 1 = count)),
    ("counter", .ofNat (i + 1)),
    ("counter0", .ofNat i),
    ("revcounter", .ofNat (count - i)),
    ("length", .ofNat count)]

/-- The frame for item `i` of `count`. An item named `forloop` is hidden by the record of that
name. -/
def loopFrame (item : String) (v : Value) (i count : Nat) : Frame :=
  [("forloop", loopRecord i count), (item, v)]

/-- Does something in a new innermost frame. However that ends, the innermost frame goes. -/
def within {ε α : Type} (frame : Frame) (body : ExceptT ε (StateM Scope) α) :
    ExceptT ε (StateM Scope) α := do
  modify (frame :: ·)
  try body finally modify List.tail

/-- Something that is done in a scope: paths are resolved, frames are counted, and more is done in a
new innermost frame. What is done next may depend on all that was found out, also on how a frame was
left. -/
inductive Program (ε α : Type) where
  | done (result : Except ε α)
  | resolve (path : Path) (next : Except Unresolved Value → Program ε α)
  | depth (next : Nat → Program ε α)
  | inside (frame : Frame) (body : Program ε α) (next : Except ε α → Program ε α)

/-- Does it in the scope that stands. -/
def Program.exec {ε α : Type} : Program ε α → StateM Scope (Except ε α)
  | done result => pure result
  | resolve path next => do
    let s ← get
    (next (s.resolve path)).exec
  | depth next => do
    let s ← get
    (next s.length).exec
  | inside frame body next => do
    let result ← (within frame (.mk body.exec)).run
    (next result).exec

/-- What can be done in a scope: resolve a path, ask for the number of frames, or do more in a new
innermost frame and maybe fail there in the end. -/
inductive Step where
  | resolve (path : Path) (position : Option Position)
  | depth
  | inside (frame : Frame) (steps : List Step) (failure : Option String)
  deriving Inhabited

/-- What a step finds out. Of a frame that is left by a failure, the failure alone is left. -/
inductive Answer where
  | value (v : Value)
  | unresolved (fault : Unresolved) (position : Option Position)
  | depth (n : Nat)
  | inside (answers : List Answer)
  | failed (message : String)

namespace Step

mutual

/-- A step, and then what `next` says on its answer. -/
def program (next : Answer → Program String (List Answer)) : Step → Program String (List Answer)
  | .resolve path position => .resolve path fun
    | .ok v => next (.value v)
    | .error fault => next (.unresolved fault position)
  | .depth => .depth fun n => next (.depth n)
  | .inside frame steps failure =>
    let leave (answers : List Answer) : Program String (List Answer) :=
      match failure with
      | none => .done (.ok answers)
      | some message => .done (.error message)
    .inside frame (programOf leave steps) fun
      | .ok answers => next (.inside answers)
      | .error message => next (.failed message)

/-- Steps, and then what `next` says on their answers. -/
def programOf (next : List Answer → Program String (List Answer)) :
    List Step → Program String (List Answer)
  | [] => next []
  | step :: steps =>
    program (fun answer => programOf (fun answers => next (answer :: answers)) steps) step

end

end Step

/-- The answers of steps that are done in a scope. -/
def answers (s : Scope) (steps : List Step) : List Answer :=
  match (Step.programOf (fun answers => .done (.ok answers)) steps).exec s with
  | (.ok answers, _) => answers
  | (.error message, _) => [.failed message]

end Scope
end CodeTemplate

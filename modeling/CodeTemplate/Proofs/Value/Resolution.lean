import Mathlib.Data.Nat.Notation
import CodeTemplate.Value.Scope

/-! What paths stand for, and programs that open scopes and leave them. The frames of a scope come
and go on one stack; what a program finds there depends on the scopes around it alone. -/

namespace CodeTemplate

namespace Value

/-- The value has the attribute. Records and entities alone have any. -/
inductive Has : Value → String → Value → Prop
  | record {members : List (String × Value)} {name : String} {v : Value}
      (h : members.lookup name = some v) : Has (.record members) name v
  | entity {e : Entity} {name : String} {v : Value}
      (h : e.attributes.lookup name = some v) : Has (.entity e) name v

/-- Attributes that are read one after the other lead to the value. -/
inductive Reads : Value → List String → Value → Prop
  | nil (v : Value) : Reads v [] v
  | cons {v w u : Value} {name : String} {names : List String} (hv : v.Has name w)
      (hw : Reads w names u) : Reads v (name :: names) u

theorem attribute?_eq_some_iff {v w : Value} {name : String} :
    v.attribute? name = some w ↔ v.Has name w := by
  constructor
  · intro h
    cases v with
    | record members => exact .record h
    | entity e => exact .entity h
    | _ => cases h
  · rintro (h | h) <;> exact h

theorem attribute?_eq_none_iff {v : Value} {name : String} :
    v.attribute? name = none ↔ ∀ w, ¬ v.Has name w := by
  simp only [← attribute?_eq_some_iff, Option.eq_none_iff_forall_ne_some, ne_eq]

end Value

namespace Scope

/-- The innermost frame that binds the name binds it to the value. -/
def Binds (s : Scope) (name : String) (v : Value) : Prop :=
  ∃ inner frame outer, s = inner ++ frame :: outer ∧
    (∀ f ∈ inner, name ∉ f.map Prod.fst) ∧ frame.lookup name = some v

/-- What a path stands for in a scope: the innermost frame that binds its name decides, also where
the attributes cannot be read from what it says. -/
inductive Resolves (s : Scope) (p : Path) : Except Unresolved Value → Prop
  | value {v w : Value} (hv : s.Binds p.name v) (hw : v.Reads p.attributes w) : Resolves s p (.ok w)
  | unbound (h : ∀ f ∈ s, p.name ∉ f.map Prod.fst) : Resolves s p (.error ⟨p.name, p.name⟩)
  | unread {v w : Value} {before after : List String} {name : String} (hv : s.Binds p.name v)
      (hp : p.attributes = before ++ name :: after) (hw : v.Reads before w)
      (hn : ∀ u, ¬ w.Has name u) :
      Resolves s p (.error ⟨name, ".".intercalate (p.name :: before)⟩)

/-- How a program ends. `s` holds the frames of the scopes around it, the innermost first. -/
inductive Program.Ends {ε α : Type} : Scope → Program ε α → Except ε α → Prop
  | done (s : Scope) (result : Except ε α) : Ends s (.done result) result
  | resolve {s : Scope} {path : Path} {found : Except Unresolved Value}
      {next : Except Unresolved Value → Program ε α} {result : Except ε α}
      (hf : s.Resolves path found) (hn : Ends s (next found) result) :
      Ends s (.resolve path next) result
  | depth {s : Scope} {next : ℕ → Program ε α} {result : Except ε α}
      (hn : Ends s (next s.length) result) : Ends s (.depth next) result
  | inside {s : Scope} {frame : Frame} {body : Program ε α} {left : Except ε α}
      {next : Except ε α → Program ε α} {result : Except ε α} (hb : Ends (frame :: s) body left)
      (hn : Ends s (next left) result) : Ends s (.inside frame body next) result

/-! ### Names and paths -/

variable {s : Scope} {name : String} {v w : Value}

theorem lookup_eq_none_iff {f : Frame} : f.lookup name = none ↔ name ∉ f.map Prod.fst := by
  rw [List.lookup_eq_none_iff, List.mem_map]
  constructor
  · rintro h ⟨entry, he, rfl⟩
    simpa using h entry he
  · intro h entry he
    exact bne_iff_ne.2 fun hname => h ⟨entry, he, hname.symm⟩

theorem lookup?_eq_some_iff : s.lookup? name = some v ↔ s.Binds name v := by
  simp only [lookup?, List.findSome?_eq_some_iff, lookup_eq_none_iff, Binds]
  constructor
  · rintro ⟨inner, frame, outer, hs, hframe, hinner⟩
    exact ⟨inner, frame, outer, hs, hinner, hframe⟩
  · rintro ⟨inner, frame, outer, hs, hinner, hframe⟩
    exact ⟨inner, frame, outer, hs, hframe, hinner⟩

theorem lookup?_eq_none_iff : s.lookup? name = none ↔ ∀ f ∈ s, name ∉ f.map Prod.fst := by
  simp only [lookup?, List.findSome?_eq_none_iff, lookup_eq_none_iff]

/-- A path is the same one with its first two segments joined. -/
theorem intercalate_joined (path name : String) (names : List String) :
    ".".intercalate ((path ++ "." ++ name) :: names) = ".".intercalate (path :: name :: names) := by
  cases names with
  | nil => simp [String.intercalate_cons_cons]
  | cons next names => simp [String.intercalate_cons_cons, String.append_assoc]

/-- Attributes that can be read are read first, and lead to the path before the others. -/
theorem attributes_of_reads {names : List String} (h : v.Reads names w) (path : String)
    (after : List String) :
    attributes v path (names ++ after) = attributes w (".".intercalate (path :: names)) after := by
  induction h generalizing path with
  | nil v => simp
  | cons hv _ ih =>
    rw [List.cons_append, attributes, Value.attribute?_eq_some_iff.2 hv, ← intercalate_joined]
    exact ih _

theorem resolve_of_resolves {p : Path} {found : Except Unresolved Value} (h : s.Resolves p found) :
    s.resolve p = found := by
  cases h with
  | value hv hw =>
    rw [resolve, lookup?_eq_some_iff.2 hv, ← List.append_nil p.attributes]
    exact attributes_of_reads hw p.name []
  | unbound h => rw [resolve, lookup?_eq_none_iff.2 h]
  | unread hv hp hw hn =>
    simp only [resolve, lookup?_eq_some_iff.2 hv, hp]
    rw [attributes_of_reads hw, attributes, Value.attribute?_eq_none_iff.2 hn]

section Program

variable {ε α : Type}

/-- The frame is there while the rest is done, and after it the innermost one goes, also where the
rest has failed. -/
theorem within_run (frame : Frame) (body : ExceptT ε (StateM Scope) α) (s : Scope) :
    (within frame body).run s = ((body.run (frame :: s)).1, (body.run (frame :: s)).2.tail) := by
  have hpushed : (within frame body).run s =
      (tryFinally body (modify List.tail) : ExceptT ε (StateM Scope) α).run (frame :: s) := rfl
  rw [hpushed]
  simp only [tryFinally, tryFinally', Functor.map, ExceptT.map, bind, StateT.bind, ExceptT.run,
    ExceptT.mk]
  rcases body (frame :: s) with ⟨_ | a, t⟩ <;> rfl

namespace Program

theorem exec_resolve (path : Path) (next : Except Unresolved Value → Program ε α) (s : Scope) :
    (resolve path next).exec s = (next (s.resolve path)).exec s := rfl

theorem exec_inside (frame : Frame) (body : Program ε α) (next : Except ε α → Program ε α)
    (s : Scope) : (inside frame body next).exec s =
      (next (body.exec (frame :: s)).1).exec (body.exec (frame :: s)).2.tail := by
  have hexec : (inside frame body next).exec s =
      (next ((within frame (.mk body.exec)).run s).1).exec
        ((within frame (.mk body.exec)).run s).2 := rfl
  rw [hexec, within_run]
  rfl

end Program

/-! ### Steps -/

namespace Step

mutual

theorem exec_program (next : Answer → Program String (List Answer)) (step : Step) (s : Scope) :
    ∃ answer, (program next step).exec s = (next answer).exec s := by
  cases step with
  | resolve path position =>
    rw [program, Program.exec_resolve]
    cases s.resolve path with
    | ok v => exact ⟨.value v, rfl⟩
    | error fault => exact ⟨.unresolved fault position, rfl⟩
  | depth => exact ⟨.depth s.length, rfl⟩
  | inside frame steps failure =>
    rw [program, Program.exec_inside]
    -- The frame is still on the stack when the steps in it are done, and goes then.
    obtain ⟨found, -, hbody⟩ := exec_programOf _ steps (frame :: s)
    rw [hbody]
    cases failure with
    | none => exact ⟨.inside found, rfl⟩
    | some message => exact ⟨.failed message, rfl⟩

theorem exec_programOf (next : List Answer → Program String (List Answer)) (steps : List Step)
    (s : Scope) : ∃ answers, answers.length = steps.length ∧
      (programOf next steps).exec s = (next answers).exec s := by
  cases steps with
  | nil => exact ⟨[], rfl, rfl⟩
  | cons step steps =>
    rw [programOf]
    obtain ⟨answer, hstep⟩ :=
      exec_program (fun answer => programOf (fun answers => next (answer :: answers)) steps) step s
    obtain ⟨answers, hlength, hsteps⟩ :=
      exec_programOf (fun answers => next (answer :: answers)) steps s
    exact ⟨answer :: answers, by simp [hlength], hstep.trans hsteps⟩

end

end Step

/-- Each step has its answer: a step that finds nothing and a frame that is left by a failure stop
nothing behind them. -/
theorem length_answers (s : Scope) (steps : List Step) :
    (answers s steps).length = steps.length := by
  obtain ⟨found, hlength, hexec⟩ :=
    Step.exec_programOf (fun answers => .done (.ok answers)) steps s
  rw [answers, hexec]
  exact hlength

/-- An inner frame hides an outer one by a name that it binds to nothing, until it is left. -/
example :
    answers [[("book", .string "outer")]] [
      .inside [("book", .null)] [.resolve ⟨"book", ["title"]⟩ none] none,
      .inside [("book", .null)] [.resolve ⟨"book", []⟩ none] (some "lost"),
      .resolve ⟨"book", []⟩ none] =
    [.inside [.unresolved ⟨"title", "book"⟩ none], .failed "lost", .value (.string "outer")] :=
  rfl

end Program
end Scope
end CodeTemplate

import CodeTemplate.Proofs.Markup.Relocation
import CodeTemplate.Proofs.Render.Congruence

/-! Nodes rendered at other places, maybe in a template of another name. Places are told in errors
alone, so that the same is rendered, or nothing in both cases. -/

namespace CodeTemplate

open CodeTemplate.Action (exec)

/-! ### Agreement -/

variable {σ α β : Type} {I : σ → Prop}

/-- The second computation gives what the first one gives, and fails where that fails, from any two
states of a kind. The states after them are of this kind, too. -/
def Action.Agree (I : σ → Prop) (x y : Action σ α) : Prop :=
  ∀ s s', I s → I s' →
    (exec x s).1.toOption = (exec y s').1.toOption ∧ I (exec x s).2 ∧ I (exec y s').2

namespace Action

theorem agree_pure (a : α) : Agree I (pure a) (pure a) :=
  fun _ _ hs hs' => ⟨rfl, hs, hs'⟩

theorem agree_throw (e e' : TemplateError) : Agree I (throw e : Action σ α) (throw e') :=
  fun _ _ hs hs' => ⟨rfl, hs, hs'⟩

theorem Agree.bind {x y : Action σ α} {f f' : α → Action σ β} (hx : Agree I x y)
    (hf : ∀ a, Agree I (f a) (f' a)) : Agree I (x >>= f) (y >>= f') := by
  intro s s' hs hs'
  have hxy := hx s s' hs hs'
  rw [exec_bind, exec_bind]
  generalize exec x s = r at hxy ⊢
  generalize exec y s' = r' at hxy ⊢
  obtain ⟨e | a, t⟩ := r <;> obtain ⟨e' | a', t'⟩ := r' <;> obtain ⟨hr, ht⟩ := hxy
  · exact ⟨rfl, ht⟩
  · simp [Except.toOption] at hr
  · simp [Except.toOption] at hr
  · obtain rfl : a = a' := by simpa [Except.toOption] using hr
    exact hf a t t' ht.1 ht.2

/-- Agreement as a relation for renderings in one place. -/
def agree (I : σ → Prop) : Congruence σ σ where
  rel := Agree I
  pure := agree_pure
  throw e _ := agree_throw e e
  bind := Agree.bind

end Action

namespace Render

open CodeTemplate.Action
open Node (moved allMoved)

theorem agree_fail (cause : Cause) (p p' : Position) :
    Agree I (fail cause p : Action σ α) (fail cause p') :=
  agree_throw _ _

theorem agree_ofValue (p p' : Position) (v : Except ValueFault α) :
    Agree I (ofValue p v : Action σ α) (ofValue p' v) := by
  cases v with
  | ok a => exact agree_pure a
  | error f => exact agree_fail _ p p'

theorem agree_resolve (s : Scope) (path : Path) (p p' : Position) :
    Agree I (resolve s path p : Action σ Value) (resolve s path p') := by
  simp only [resolve]
  cases s.resolve path with
  | ok v => exact agree_pure v
  | error f => exact agree_fail _ p p'

theorem agree_bindings (s : Scope) (p p' : Position) (args : List Argument) (frame : Frame) :
    Agree I (bindings s p frame args : Action σ Frame) (bindings s p' frame args) := by
  induction args generalizing frame with
  | nil => exact agree_pure frame
  | cons a args ih =>
    obtain ⟨key, path | text⟩ := a
    · exact (agree_resolve s path p p').bind fun v => ih _
    · exact ih _

theorem agree_descriptionOf (v : Value) (p p' : Position) :
    Agree I (descriptionOf v p : Action σ String) (descriptionOf v p') := by
  simp only [descriptionOf]
  cases v.attribute? "description" with
  | none => exact agree_pure ""
  | some d => exact agree_ofValue p p' _

/-- Calls for which it makes no difference where they stand. -/
def CallsAgree (I : σ → Prop) (c : Setting σ) : Prop :=
  ∀ call, c.call = some call → ∀ name frame l p p',
    Agree I (call name frame l p) (call name frame l p')

/-- The setting for a template of another name. -/
def Setting.named (c : Setting σ) (name : Option String) : Setting σ := { c with template := name }

variable {c : Setting σ}

mutual

theorem agree_node_named (hc : CallsAgree I c) (other : Option String) (f : Location → Location)
    (n : Node) (s : Scope) (inList : Bool) (l : Language) :
    Agree I (node c s inList l n) (node (c.named other) s inList l (n.moved f)) := by
  cases n with
  | text | inherited => exact agree_pure _
  | «variable» path filters start =>
    exact (agree_resolve s _ _ _).bind fun v => (agree_ofValue _ _ _).bind fun t => agree_pure _
  | conditional condition thenBranch elseBranch start =>
    cases elseBranch with
    | none =>
      refine (agree_resolve s _ _ _).bind fun v => ?_
      split
      · exact agree_nodes_named hc other f thenBranch s inList l
      · exact agree_pure _
    | some elseBranch =>
      refine (agree_resolve s _ _ _).bind fun v => ?_
      split
      · exact agree_nodes_named hc other f thenBranch s inList l
      · exact agree_nodes_named hc other f elseBranch s inList l
  | loop item collection body start =>
    refine (agree_resolve s _ _ _).bind fun v => (agree_ofValue _ _ _).bind fun items => ?_
    exact rel_eachItem (agree I) (fun s l => agree_nodes_named hc other f body s inList l) s item
      _ _ items l
  | filtered filters body start =>
    exact (agree_nodes_named hc other f body s inList l).bind fun out =>
      (agree_ofValue _ _ _).bind fun t => agree_pure _
  | imports subject body start =>
    exact (agree_resolve s _ _ _).bind fun _ => agree_nodes_named hc other f body s inList l
  | call template args start =>
    simp only [moved, node, Setting.named]
    cases hcall : c.call with
    | none => exact agree_fail _ _ _
    | some call =>
      exact (agree_bindings s _ _ args []).bind fun frame =>
        (hc call hcall template frame l _ _).bind fun t => agree_pure _
  | docComment subject indent start =>
    exact (agree_resolve s _ _ _).bind fun v =>
      (agree_descriptionOf v _ _).bind fun t => agree_pure _
  | literal path start =>
    exact (agree_resolve s _ _ _).bind fun v => (agree_ofValue _ _ _).bind fun t => agree_pure _
  | parameterList body start =>
    exact (agree_nodes_named hc other f body s true l).bind fun out => agree_pure _
  | parameter grouped body start =>
    simp only [moved, node]
    split
    · exact (agree_nodes_named hc other f body s inList l).bind fun out => agree_pure _
    · exact agree_fail _ _ _
  | language name start =>
    simp only [moved, node, Setting.named]
    split
    · exact agree_pure _
    · exact agree_fail _ _ _
  | copyright indent start => exact agree_pure _

/-- The induction is on the nodes; they tell their places when they fail and when they call. -/
theorem agree_nodes_named (hc : CallsAgree I c) (other : Option String) (f : Location → Location)
    (ns : List Node) (s : Scope) (inList : Bool) (l : Language) :
    Agree I (nodes c s inList l ns) (nodes (c.named other) s inList l (allMoved f ns)) := by
  cases ns with
  | nil => exact agree_pure _
  | cons n ns =>
    exact (agree_node_named hc other f n s inList l).bind fun a =>
      (agree_nodes_named hc other f ns s inList a.language).bind fun b => agree_pure _

end

theorem agree_nodes (hc : CallsAgree I c) (f : Location → Location) (ns : List Node) (s : Scope)
    (inList : Bool) (l : Language) :
    Agree I (nodes c s inList l ns) (nodes c s inList l (allMoved f ns)) :=
  agree_nodes_named hc c.template f ns s inList l

end Render
end CodeTemplate

import CodeTemplate.Proofs.Render.Action

/-! Rendering in two settings whose calls are related: the renderings are related, too. What a
rendering does with its state, it does by calls alone. -/

namespace CodeTemplate

/-- A call as it stands in a template. -/
structure CallSite where
  template : String
  args : List Argument
  start : Location

namespace Node

mutual

/-- The calls in a node. -/
def calls : Node → List CallSite
  | .conditional _ thenBranch none _ => allCalls thenBranch
  | .conditional _ thenBranch (some elseBranch) _ => allCalls thenBranch ++ allCalls elseBranch
  | .loop _ _ body _ => allCalls body
  | .filtered _ body _ => allCalls body
  | .imports _ body _ => allCalls body
  | .parameterList body _ => allCalls body
  | .parameter _ body _ => allCalls body
  | .call template args start => [⟨template, args, start⟩]
  | _ => []

def allCalls : List Node → List CallSite
  | [] => []
  | n :: ns => calls n ++ allCalls ns

end

end Node

namespace Render

open Node (calls allCalls)

variable {σ τ : Type} (R : Congruence σ τ)

theorem rel_fail {α : Type} {cause : Cause} {p : Position} (h : ¬ cause.Refusal) :
    R.rel (fail cause p : Action σ α) (fail cause p) :=
  R.throw _ h

theorem rel_ofValue {α : Type} (p : Position) (v : Except ValueFault α) :
    R.rel (ofValue p v : Action σ α) (ofValue p v) := by
  cases v with
  | ok a => exact R.pure a
  | error f => exact rel_fail R not_false

theorem rel_resolve (s : Scope) (path : Path) (p : Position) :
    R.rel (resolve s path p : Action σ Value) (resolve s path p) := by
  simp only [resolve]
  cases s.resolve path with
  | ok v => exact R.pure v
  | error f => exact rel_fail R not_false

theorem rel_bindings (s : Scope) (p : Position) (args : List Argument) (frame : Frame) :
    R.rel (bindings s p frame args : Action σ Frame) (bindings s p frame args) := by
  induction args generalizing frame with
  | nil => exact R.pure frame
  | cons a args ih =>
    obtain ⟨key, path | text⟩ := a
    · exact R.bind (rel_resolve R s path p) fun v => ih _
    · exact ih _

theorem rel_descriptionOf (v : Value) (p : Position) :
    R.rel (descriptionOf v p : Action σ String) (descriptionOf v p) := by
  simp only [descriptionOf]
  cases v.attribute? "description" with
  | none => exact R.pure ""
  | some d => exact rel_ofValue R p _

theorem rel_eachItem {body : Scope → Language → Action σ Output}
    {body' : Scope → Language → Action τ Output} (hb : ∀ s l, R.rel (body s l) (body' s l))
    (s : Scope) (item : String) (count i : Nat) (vs : List Value) (l : Language) :
    R.rel (eachItem body s item count i vs l) (eachItem body' s item count i vs l) := by
  induction vs generalizing i l with
  | nil => exact R.pure _
  | cons v vs ih =>
    exact R.bind (hb _ _) fun a => R.bind (ih _ _) fun b => R.pure _

/-- Two settings that differ only in how they call, and relate the calls that are made at the given
sites. -/
structure Alike (c : Setting σ) (d : Setting τ) (sites : List CallSite) : Prop where
  template : c.template = d.template
  languages : c.languages = d.languages
  copyright : c.copyright = d.copyright
  width : c.width = d.width
  none_iff : c.call = none ↔ d.call = none
  call : ∀ f g, c.call = some f → d.call = some g → ∀ site ∈ sites, ∀ frame l,
    R.rel (f site.template frame l ⟨c.template, site.start⟩)
      (g site.template frame l ⟨c.template, site.start⟩)

variable {R} {c : Setting σ} {d : Setting τ}

theorem Alike.mono {sites sites' : List CallSite} (h : Alike R c d sites) (hs : sites' ⊆ sites) :
    Alike R c d sites' :=
  { h with call := fun f g hf hg site hm => h.call f g hf hg site (hs hm) }

mutual

theorem rel_node (n : Node) (h : Alike R c d (calls n)) (s : Scope) (inList : Bool) (l : Language) :
    R.rel (node c s inList l n) (node d s inList l n) := by
  cases n with
  | text | inherited => exact R.pure _
  | «variable» path filters start =>
    simp only [node, h.template, h.width]
    exact R.bind (rel_resolve R s _ _) fun v => R.bind (rel_ofValue R _ _) fun t => R.pure _
  | conditional condition thenBranch elseBranch start =>
    cases elseBranch with
    | none =>
      simp only [node, h.template]
      refine R.bind (rel_resolve R s _ _) fun v => ?_
      split
      · exact rel_nodes thenBranch h s inList l
      · exact R.pure _
    | some elseBranch =>
      simp only [node, h.template]
      refine R.bind (rel_resolve R s _ _) fun v => ?_
      split
      · exact rel_nodes thenBranch (h.mono (by simp [calls])) s inList l
      · exact rel_nodes elseBranch (h.mono (by simp [calls])) s inList l
  | loop item collection body start =>
    simp only [node, h.template]
    refine R.bind (rel_resolve R s _ _) fun v => R.bind (rel_ofValue R _ _) fun items => ?_
    exact rel_eachItem R (fun s l => rel_nodes body h s inList l) s item _ _ items l
  | filtered filters body start =>
    simp only [node, h.template, h.width]
    exact R.bind (rel_nodes body h s inList l) fun out =>
      R.bind (rel_ofValue R _ _) fun t => R.pure _
  | imports subject body start =>
    simp only [node, h.template]
    exact R.bind (rel_resolve R s _ _) fun _ => rel_nodes body h s inList l
  | call template args start =>
    simp only [node]
    cases hc : c.call with
    | none =>
      simp only [h.none_iff.1 hc, h.template]
      exact rel_fail R not_false
    | some f =>
      cases hd : d.call with
      | none => simp [h.none_iff.2 hd] at hc
      | some g =>
        simp only [← h.template]
        refine R.bind (rel_bindings R s _ args []) fun frame => R.bind ?_ fun t => R.pure _
        exact h.call f g hc hd ⟨template, args, start⟩ (by simp [calls]) frame l
  | docComment subject indent start =>
    simp only [node, h.template, h.width]
    exact R.bind (rel_resolve R s _ _) fun v => R.bind (rel_descriptionOf R v _) fun t => R.pure _
  | literal path start =>
    simp only [node, h.template]
    exact R.bind (rel_resolve R s _ _) fun v => R.bind (rel_ofValue R _ _) fun t => R.pure _
  | parameterList body start =>
    simp only [node]
    exact R.bind (rel_nodes body h s true l) fun out => R.pure _
  | parameter grouped body start =>
    simp only [node, h.template]
    split
    · exact R.bind (rel_nodes body h s inList l) fun out => R.pure _
    · exact rel_fail R not_false
  | language name start =>
    simp only [node, h.languages, h.template]
    split
    · exact R.pure _
    · exact rel_fail R not_false
  | copyright indent start =>
    simp only [node, h.copyright]
    exact R.pure _

/-- The induction is on the nodes; a call is the only one that needs a fact about the settings. -/
theorem rel_nodes (ns : List Node) (h : Alike R c d (allCalls ns)) (s : Scope) (inList : Bool)
    (l : Language) : R.rel (nodes c s inList l ns) (nodes d s inList l ns) := by
  cases ns with
  | nil => exact R.pure _
  | cons n ns =>
    simp only [nodes]
    exact R.bind (rel_node n (h.mono (by simp [allCalls])) s inList l) fun a =>
      R.bind (rel_nodes ns (h.mono (by simp [allCalls])) s inList a.language) fun b => R.pure _

end

theorem rel_template (t : Template) (h : Alike R c d (allCalls t.nodes)) (frame : Frame)
    (l : Language) : R.rel (template c frame l t) (template d frame l t) :=
  R.bind (rel_nodes t.nodes h [frame] false l) fun _ => R.pure _

end Render
end CodeTemplate

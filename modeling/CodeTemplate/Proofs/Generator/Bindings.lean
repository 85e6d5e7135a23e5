import Mathlib.Tactic.SplitIfs
import CodeTemplate.Proofs.Generator.Session
import CodeTemplate.Proofs.Render.FreeNames

/-! What renderings depend on. A template sees the bindings of its free names alone, be they those
that the rendering starts with or, in a call, the arguments. -/

namespace CodeTemplate
namespace Generator

open Node (allFreeNames)
open CodeTemplate.Action

/-- The frames say the same about the free names of the nodes. -/
def SameBindings (ns : List Node) (frame frame' : Frame) : Prop :=
  ∀ name ∈ allFreeNames ns, frame.lookup name = frame'.lookup name

variable {frame frame' : Frame}

theorem run_congr (g : Generator) {t : Template} (h : SameBindings t.nodes frame frame')
    (active others : List String) (l : Language) :
    g.run active others t frame l = g.run active others t frame' l := by
  rw [run_eq, run_eq, Render.template_congr _ h]

theorem start_congr (g : Generator) {t : Template} (h : SameBindings t.nodes frame frame')
    (root : Option String) : g.start root t frame = g.start root t frame' := by
  simp only [start, run_congr g h]

/-- A call goes by what its frame says about the free names of the template that it finds. -/
theorem call_congr (g : Generator) {name : String} {p : Position} {s : Store}
    (h : ∀ key t, TemplateName.normalize name = .ok key →
      (exec (g.loadKey key (some p)) s).1 = .ok t → SameBindings t.nodes frame frame')
    (active others : List String) (l : Language) :
    exec (g.call active others name frame l p) s =
      exec (g.call active others name frame' l p) s := by
  simp only [call, exec_bind, exec_key]
  cases hn : TemplateName.normalize name with
  | error f => rfl
  | ok key =>
    simp only
    split_ifs
    · rfl
    · rfl
    · rw [exec_bind, exec_bind]
      rcases hl : exec (g.loadKey key (some p)) s with ⟨e | t, u⟩
      · rfl
      · have ht : SameBindings t.nodes frame frame' := h key t hn (by rw [hl])
        simp only [run_congr g ht]
    · rfl

theorem exec_bind_pure {σ α β : Type} (x : Action σ α) (f : α → β) (s : σ) :
    exec (x >>= fun a => pure (f a)) s = Prod.map (Except.map f) id (exec x s) := by
  rw [exec_bind]
  rcases exec x s with ⟨e | a, t⟩ <;> rfl

/-- A rendering goes by what its bindings say about the free names of its template, whatever the
state is: if they agree on these it has the same result, be that a text or an error, and leaves the
same state. A call goes by what its arguments stand for: the template that is called sees these
under their keys, and of them those that are its free names. -/
theorem render_eq_of_agree (g : Generator) :
    (∀ (root : Root) (frame frame' : Frame) (s : Store),
      (∀ key t, (exec (root.load g) s).1 = .ok (key, t) → SameBindings t.nodes frame frame') →
      exec (root.render g frame) s = exec (root.render g frame') s) ∧
    ∀ (active others : List String) (t : Template) (l : Language),
      (∀ frame frame', SameBindings t.nodes frame frame' → ∀ s,
        exec (g.run active others t frame l) s = exec (g.run active others t frame' l) s) ∧
      ∀ (inList : Bool) (name : String) (args : List Argument) (start : Location),
        let c := g.setting t (g.call active others)
        let called (s : Scope) := Render.node c s inList l (.call name args start)
        (∀ s s' : Scope,
          (∀ key path, ⟨key, .path path⟩ ∈ args → s.resolve path = s'.resolve path) →
          ∀ st, exec (called s) st = exec (called s') st) ∧
        ∀ s : Scope, (∀ a ∈ args, ∃ v, a.value.resolve s = .ok v) → ∃ frame : Frame,
          (∀ key, frame.lookup key = Render.argument? s args key) ∧
          ∀ st frame',
            (∀ key u, TemplateName.normalize name = .ok key →
              (exec (g.loadKey key (some ⟨t.name, start⟩)) st).1 = .ok u →
              SameBindings u.nodes frame frame') →
            exec (called s) st =
              Prod.map (Except.map fun text => ⟨text, l, []⟩) id
                (exec (g.call active others name frame' l ⟨t.name, start⟩) st) := by
  refine ⟨?_, ?_⟩
  · intro root frame frame' s h
    rw [Root.render_eq, Root.render_eq, exec_observed, exec_observed, exec_bind, exec_bind]
    rcases hl : exec (root.load g) s with ⟨e | ⟨key, t⟩, u⟩
    · rfl
    · have ht : SameBindings t.nodes frame frame' := h key t (by rw [hl])
      simp only [start_congr g ht]
  · intro active others t l
    refine ⟨fun frame frame' h s => by rw [run_congr g h], ?_⟩
    intro inList name args start c called
    refine ⟨fun s s' h st => ?_, fun s h => ?_⟩
    · exact congrArg (exec · st) (Render.node_call_congr h c inList l name start)
    · obtain ⟨frame, hl, hcall⟩ := Render.exists_node_call h (c := c) rfl inList l name start
      refine ⟨frame, hl, fun st frame' hu => ?_⟩
      rw [← call_congr g hu, ← exec_bind_pure]
      exact congrArg (exec · st) hcall

/-- Bindings of a loop's item and of `forloop` outside the loop are not seen in it, nor are those of
a caller in a template that it calls. -/
theorem render_eq_of_agree_shadowed :
    let g : Generator := ⟨[("item.tmpl", "\x7b\x7b n \x7d\x7d")], Language.builtin,
      Language.default, none, Number.ofNat 80, Number.ofNat 32⟩
    let t : Template := ⟨none, [.loop "x" ⟨"xs", []⟩
      [.variable ⟨"x", []⟩ [] ⟨1, 1⟩, .variable ⟨"forloop", ["counter"]⟩ [] ⟨1, 2⟩] ⟨1, 1⟩]⟩
    let frame : Frame := [("xs", .sequence [.string "a"]), ("x", .string "b")]
    let frame' : Frame := [("forloop", .null), ("xs", .sequence [.string "a"])]
    let c := g.setting t (g.call [] ["item.tmpl"])
    let s : Scope := [[("x", .string "a"), ("y", .string "b")]]
    let args : List Argument := [⟨"n", .path ⟨"x", []⟩⟩]
    let called := exec (Render.node c s false Language.java (.call "item" args ⟨1, 1⟩)) {}
    SameBindings t.nodes frame frame' ∧
      exec (g.run [] [] t frame Language.java) {} = exec (g.run [] [] t frame' Language.java) {} ∧
      (exec (g.run [] [] t frame' Language.java) {}).1 = .ok "a1" ∧
      called = Prod.map (Except.map fun text => ⟨text, Language.java, []⟩) id
        (exec (g.call [] ["item.tmpl"] "item" [("n", .string "a")] Language.java ⟨none, ⟨1, 1⟩⟩)
          {}) ∧
      called.1.toOption.map (·.text) = some "a" := by
  intro g t frame frame' c s args called
  have hsame : SameBindings t.nodes frame frame' := by
    intro name hm
    obtain rfl : name = "xs" := by simpa [t, allFreeNames, Node.freeNames] using hm
    rfl
  have hargs : ∀ a ∈ args, ∃ v, a.value.resolve s = .ok v := by
    simp only [args, List.forall_mem_singleton]
    exact ⟨.string "a", rfl⟩
  obtain ⟨hrun, hcall⟩ := (render_eq_of_agree g).2 [] [] t Language.java
  obtain ⟨-, hcalled⟩ := (render_eq_of_agree g).2 [] ["item.tmpl"] t Language.java
  obtain ⟨-, hcalled⟩ := hcalled false "item" args ⟨1, 1⟩
  obtain ⟨called', hl, heq⟩ := hcalled s hargs
  refine ⟨hsame, hrun frame frame' hsame {}, ok_of_toOption (by decide +kernel), ?_,
    by decide +kernel⟩
  refine heq {} _ fun key u _ _ name _ => ?_
  rw [hl]
  by_cases hn : name = "n"
  · subst hn
    rfl
  · simp [Render.argument?, args, hn, Ne.symm hn, List.lookup_cons, beq_eq_false_iff_ne.2]

end Generator
end CodeTemplate

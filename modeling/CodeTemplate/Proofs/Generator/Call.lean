import CodeTemplate.Generator.Basic
import CodeTemplate.Proofs.Generator.Table
import CodeTemplate.Proofs.Render.Congruence

/-! Calls between templates: what a rendering does when its template calls another one, and what the
cache has to do with the templates that it finds. -/

namespace CodeTemplate

namespace Source

/-- The tree of the text under a key, if there is a text and it is a template. -/
def tree? (source : Source) (key : String) : Option Template :=
  match source.read? key with
  | none => none
  | some text => (Template.ofText (some key) text).toOption

/-- What is found under a key where nothing is kept; `p` is where it was called. -/
def parse (source : Source) (key : String) (p : Option Position) : Except TemplateError Template :=
  match source.read? key with
  | none => .error ⟨.notFound key, p⟩
  | some text => Template.ofText (some key) text

theorem tree?_eq_some_iff {source : Source} {key : String} {t : Template} :
    source.tree? key = some t ↔
      ∃ text, source.read? key = some text ∧ Template.ofText (some key) text = .ok t := by
  simp only [tree?]
  cases source.read? key with
  | none => simp
  | some text =>
    cases h : Template.ofText (some key) text <;> simp [h, Except.toOption]

theorem parse_eq_ok {source : Source} {key : String} {t : Template} (p : Option Position) :
    source.parse key p = .ok t ↔ source.tree? key = some t := by
  rw [tree?_eq_some_iff, parse]
  cases source.read? key <;> simp

theorem mem_keys_of_tree? {source : Source} {key : String} {t : Template}
    (h : source.tree? key = some t) : key ∈ source.map (·.1) := by
  obtain ⟨text, hr, _⟩ := tree?_eq_some_iff.1 h
  obtain ⟨before, after, rfl, _⟩ := List.lookup_eq_some_iff.1 hr
  simp

end Source

/-- Each template that is kept is the tree of its key's text. -/
def Cache.Consistent (source : Source) (cache : Cache) : Prop :=
  ∀ key t, (key, t) ∈ cache → source.tree? key = some t

theorem Cache.consistent_nil (source : Source) : Cache.Consistent source [] := by
  simp [Cache.Consistent]

namespace Generator

open CodeTemplate.Action

/-- How the generator renders a template, given how it calls. -/
def setting {σ : Type} (g : Generator) (t : Template)
    (call : String → Frame → Language → Position → Action σ String) : Render.Setting σ where
  template := t.name
  languages := g.languages
  copyright := g.copyright
  width := .ofNumber g.lineWidth
  call := some call

/-- Renderings of one template go together if the calls in it do. -/
theorem rel_template_setting {σ τ : Type} (R : Congruence σ τ) (g : Generator) (t : Template)
    {call : String → Frame → Language → Position → Action σ String}
    {call' : String → Frame → Language → Position → Action τ String}
    (h : ∀ site ∈ Node.allCalls t.nodes, ∀ frame l,
      R.rel (call site.template frame l ⟨t.name, site.start⟩)
        (call' site.template frame l ⟨t.name, site.start⟩))
    (frame : Frame) (l : Language) :
    R.rel (Render.template (g.setting t call) frame l t)
      (Render.template (g.setting t call') frame l t) := by
  have ha : Render.Alike R (g.setting t call) (g.setting t call') (Node.allCalls t.nodes) := by
    refine ⟨rfl, rfl, rfl, rfl, by simp [setting], ?_⟩
    rintro _ _ ⟨⟩ ⟨⟩ site hs args l
    exact h site hs args l
  exact Render.rel_template t ha frame l

/-- A call while the templates with the keys `active` are rendered and those with the keys `others`
can still be called. -/
def call (g : Generator) (active others : List String) (name : String) (args : Frame)
    (l : Language) (p : Position) : Action Store String := do
  let key ← key name (some p)
  let chain := active ++ [key]
  if key ∈ active then Render.fail (.cycle chain) p
  else if g.maxDepth.atMost active.length then Render.fail (.tooDeep g.maxDepth chain) p
  else if key ∈ others then
    let t ← g.loadKey key (some p)
    g.run chain (without key others) t args l
  else Render.fail (.notFound key) p

theorem run_eq (g : Generator) (active others : List String) (t : Template) (frame : Frame)
    (l : Language) :
    g.run active others t frame l =
      Render.template (g.setting t (g.call active others)) frame l t := by
  rw [run]
  rfl

theorem exec_key (name : String) (p : Option Position) (s : Store) :
    exec (key name p) s =
      ((match TemplateName.normalize name with
        | .ok key => .ok key
        | .error f => .error ⟨.badName f, p⟩), s) := by
  simp only [key]
  cases TemplateName.normalize name <;> rfl

theorem mem_without {k key : String} {keys : List String} :
    k ∈ without key keys ↔ k ∈ keys ∧ k ≠ key := by
  simp [without]

/-- What loading does: its result is that of an empty cache, and all it may do to a consistent cache
is to add the template. -/
theorem exec_loadKey (g : Generator) (key : String) (p : Option Position) {s : Store}
    (hs : s.cache.Consistent g.source) :
    ∃ s', exec (g.loadKey key p) s = (g.source.parse key p, s') ∧
      s'.cache.Consistent g.source ∧ s.cache <+: s'.cache := by
  simp only [loadKey, exec_bind, exec_get]
  cases hc : s.cache.lookup key with
  | some t =>
    have ht := (Source.parse_eq_ok p).2 (hs key t (mem_of_lookup hc))
    exact ⟨s.tell (.parsed key true), by rw [ht]; rfl, hs, List.prefix_rfl⟩
  | none =>
    simp only [Source.parse]
    cases hr : g.source.read? key with
    | none => exact ⟨s, rfl, hs, List.prefix_rfl⟩
    | some text =>
      simp only
      cases ht : Template.ofText (some key) text with
      | error e => exact ⟨s, rfl, hs, List.prefix_rfl⟩
      | ok t =>
        refine ⟨_, rfl, ?_, ?_⟩
        · intro k u hm
          simp only [Store.tell, setKey_of_lookup_none hc, List.mem_append, List.mem_singleton,
            Prod.mk.injEq] at hm
          rcases hm with hm | ⟨rfl, rfl⟩
          · exact hs k u hm
          · exact Source.tree?_eq_some_iff.2 ⟨text, hr, ht⟩
        · simp [Store.tell, setKey_of_lookup_none hc]

end Generator
end CodeTemplate

import CodeTemplate.Proofs.Generator.Cache
import CodeTemplate.Proofs.Markup.Origin
import CodeTemplate.Proofs.Render.Joining
import CodeTemplate.Proofs.Render.Relocation

/-! Texts rendered together. What is rendered first only adds to the store what would be found
anyway, and where a call stands is told in errors alone, so that each text renders to what it
renders to by itself. -/

namespace CodeTemplate
namespace Generator

open CodeTemplate.Action

variable {g : Generator} {F : String → Option Template}

/-! ### Templates that are found -/

/-- The template under a key: the one that is kept, or else the one in the source. -/
def found? (g : Generator) (s : Store) (key : String) : Option Template :=
  (s.cache.lookup key).or (g.source.tree? key)

/-- Stores in which the same templates are found, whatever of them is kept. -/
def Finds (g : Generator) (F : String → Option Template) (s : Store) : Prop :=
  ∀ key, g.found? s key = F key

/-- Loading gives what is found, and what is found stays the same. -/
theorem exec_loadKey_found (key : String) (p : Option Position) (s : Store) :
    (exec (g.loadKey key p) s).1.toOption = g.found? s key ∧
      ∀ k, g.found? (exec (g.loadKey key p) s).2 k = g.found? s k := by
  simp only [loadKey, exec_bind, exec_get]
  cases hc : s.cache.lookup key with
  | some t => exact ⟨by rw [found?, hc]; rfl, fun k => rfl⟩
  | none =>
    simp only
    cases hr : g.source.read? key with
    | none => exact ⟨by rw [found?, hc, Source.tree?, hr]; rfl, fun k => rfl⟩
    | some text =>
      simp only
      cases ht : Template.ofText (some key) text with
      | error e => exact ⟨by simp only [found?, hc, Source.tree?, hr, ht]; rfl, fun k => rfl⟩
      | ok t =>
        refine ⟨by simp only [found?, hc, Source.tree?, hr, ht]; rfl, fun k => ?_⟩
        change ((setKey key t s.cache).lookup k).or _ = _
        rw [lookup_setKey]
        by_cases hk : k = key
        · subst hk
          simp [found?, hc, Source.tree?, hr, ht, Except.toOption]
        · simp [found?, hk]

theorem agree_loadKey (key : String) (p p' : Option Position) :
    Agree (g.Finds F) (g.loadKey key p) (g.loadKey key p') := by
  intro s s' hs hs'
  obtain ⟨hx, ht⟩ := exec_loadKey_found (g := g) key p s
  obtain ⟨hy, ht'⟩ := exec_loadKey_found (g := g) key p' s'
  exact ⟨by rw [hx, hy, hs, hs'], fun k => (ht k).trans (hs k), fun k => (ht' k).trans (hs' k)⟩

theorem agree_key (name : String) (p p' : Option Position) :
    Agree (g.Finds F) (key name p) (key name p') := by
  simp only [key]
  cases TemplateName.normalize name with
  | ok key => exact agree_pure key
  | error f => exact agree_throw _ _

/-- The induction is on the templates that can still be called. -/
theorem agree_call (active others : List String) (name : String) (frame : Frame) (l : Language)
    (p p' : Position) :
    Agree (g.Finds F) (g.call active others name frame l p)
      (g.call active others name frame l p') := by
  induction hn : others.length using Nat.strongRecOn
    generalizing active others name frame l p p' with
  | ind n ih =>
  refine (agree_key name _ _).bind fun key => ?_
  split_ifs with hc hd hk
  · exact Render.agree_fail _ _ _
  · exact Render.agree_fail _ _ _
  · refine (agree_loadKey key _ _).bind fun t => ?_
    rw [run_eq]
    subst hn
    exact rel_template_setting (agree (g.Finds F)) g t
      (fun site _ args l => ih _ (length_without_lt hk) _ _ _ args l _ _ rfl) frame l
  · exact Render.agree_fail _ _ _

/-! ### Texts -/

/-- How a text without a name is rendered, but for its nodes. -/
def textSetting (g : Generator) (s : Store) : Render.Setting Store :=
  g.setting ⟨none, []⟩ (g.call [] (g.loadable s))

theorem exec_renderText {text : String} {t : Template} (ht : Template.ofText none text = .ok t)
    (frame : Frame) (s : Store) :
    (exec (g.renderText text frame none) s).1 =
      (exec (Render.nodes (g.textSetting s) [frame] false g.language t.nodes) s).1.map
        (·.text) := by
  have hname := Template.name_of_ofText ht
  have hsetting : g.setting t (g.call [] (g.loadable s)) = g.textSetting s := by
    simp only [setting, textSetting, hname]
  rw [renderText, exec_observed]
  simp only [ht, exec_start, callable, run_eq, Render.template, Option.toList_none, hsetting]
  rw [exec_bind]
  rcases exec (Render.nodes (g.textSetting s) [frame] false g.language t.nodes) s with
    ⟨_ | _, _⟩ <;> rfl

/-- Texts compose line by line. Where a text ends with a line break and has no language tag, a text
behind it that strips nothing before it is rendered as it is by itself, and both together render
exactly if each of them does. -/
theorem renderText_append (g : Generator) (frame : Frame) (s : Store) {a b : String}
    {ta tb : Template} (hl : a.toList.getLast? = some '\n') (ha : Template.ofText none a = .ok ta)
    (hb : Template.ofText none b = .ok tb)
    (hlanguage : ∀ name start, .language name start ∉ Node.allWithin ta.nodes)
    (hd : ¬ ['\x7b', '%', '-'] <:+: b.toList) (text : String) :
    (exec (g.renderText (a ++ b) frame none) s).1 = .ok text ↔
      ∃ x y, (exec (g.renderText a frame none) s).1 = .ok x ∧
        (exec (g.renderText b frame none) s).1 = .ok y ∧ text = x ++ y := by
  obtain ⟨f, t, ht, hjoined⟩ := Template.ofText_append hl hd ha hb
  rw [exec_renderText ht, exec_renderText ha, exec_renderText hb, Render.nodes_joined hjoined]
  have hcalls : Render.CallsAgree (g.Finds (g.found? s)) (g.textSetting s) := by
    rintro _ ⟨⟩ name frame l p p'
    exact agree_call [] _ name frame l p p'
  have hs : g.Finds (g.found? s) s := fun _ => rfl
  have hleaves := Render.leaves_nodes (c := g.textSetting s) (l := g.language) ta.nodes hlanguage
    [frame] false s
  have hfirst := Render.agree_nodes hcalls id ta.nodes [frame] false g.language s s hs hs
  have hsecond := Render.agree_nodes hcalls f tb.nodes [frame] false g.language s
  rw [exec_bind]
  -- The second text starts in the store that the first one leaves, which finds the same templates.
  generalize exec (Render.nodes (g.textSetting s) [frame] false g.language ta.nodes) s = r
    at hleaves hfirst ⊢
  obtain ⟨e | out, u⟩ := r
  · simp [Except.map]
  · obtain ⟨hsame, -, -⟩ := hsecond u hs hfirst.2.1
    simp only [hleaves out u rfl, exec_bind]
    generalize exec (Render.nodes _ [frame] false g.language tb.nodes) s = r' at hsame ⊢
    generalize exec (Render.nodes _ [frame] false g.language (Node.allMoved f tb.nodes)) u = r''
      at hsame ⊢
    obtain ⟨e' | out', u'⟩ := r' <;> obtain ⟨e'' | out'', u''⟩ := r''
    · simp [Except.map]
    · simp [Except.toOption] at hsame
    · simp [Except.toOption] at hsame
    · obtain rfl : out' = out'' := by simpa [Except.toOption] using hsame
      simp [Except.map, Render.Output.append, eq_comm]

/-- A call whose tag takes its line break away, and texts that meet. -/
theorem renderText_append_call :
    let g : Generator := ⟨[("item.tmpl", "<\x7b\x7b n \x7d\x7d>")], Language.builtin,
      Language.default, none, Number.ofNat 80, Number.ofNat 32⟩
    let a := "\x7b% call_template \"item\" n=x -%\x7d\n, \x7b\x7b x \x7d\x7d\n"
    let b := "and \x7b\x7b x \x7d\x7d"
    let frame : Frame := [("x", .string "v")]
    ∃ ta tb, a.toList.getLast? = some '\n' ∧ Template.ofText none a = .ok ta ∧
      Template.ofText none b = .ok tb ∧
      (∀ name start, .language name start ∉ Node.allWithin ta.nodes) ∧
      ¬ ['\x7b', '%', '-'] <:+: b.toList ∧
      (exec (g.renderText a frame none) {}).1 = .ok "<v>, v\n" ∧
      (exec (g.renderText b frame none) {}).1 = .ok "and v" ∧
      (exec (g.renderText (a ++ b) frame none) {}).1 = .ok "<v>, v\nand v" := by
  intro g a b frame
  have hl : a.toList.getLast? = some '\n' := by decide +kernel
  have hd : ¬ ['\x7b', '%', '-'] <:+: b.toList := by decide +kernel
  have hany : (Template.ofText none a).toOption.any
      (fun t => (Node.allWithin t.nodes).all fun
        | .language .. => false
        | _ => true) = true := by decide +kernel
  have hsome : (Template.ofText none b).toOption.isSome = true := by decide +kernel
  obtain ⟨ta, ha, hall⟩ := (Option.any_eq_true _ _).1 hany
  obtain ⟨tb, hb⟩ := Option.isSome_iff_exists.1 hsome
  have hlanguage : ∀ name start, .language name start ∉ Node.allWithin ta.nodes :=
    fun name start hm => absurd (List.all_eq_true.1 hall _ hm) (by simp)
  have hx : (exec (g.renderText a frame none) {}).1 = .ok "<v>, v\n" :=
    ok_of_toOption (by decide +kernel)
  have hy : (exec (g.renderText b frame none) {}).1 = .ok "and v" :=
    ok_of_toOption (by decide +kernel)
  exact ⟨ta, tb, hl, ok_of_toOption ha, ok_of_toOption hb, hlanguage, hd, hx, hy,
    (renderText_append g frame {} hl (ok_of_toOption ha) (ok_of_toOption hb) hlanguage hd _).2
      ⟨_, _, hx, hy, by decide⟩⟩

end Generator
end CodeTemplate

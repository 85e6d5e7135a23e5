import CodeTemplate.Proofs.Generator.Appending
import CodeTemplate.Proofs.Generator.Callee
import CodeTemplate.Proofs.Markup.Name

/-! A template of the source and its text. Rendered under its key, the text gives what the template
gives, be it a text or an error; rendered without a name, it gives at least each text that the
template gives, since one template less is active and calls of the template itself are no cycles. -/

namespace CodeTemplate

/-- The name of a template is no part of its nodes. -/
theorem Template.ofText_named {name : Option String} {text : String} {t : Template}
    (h : ofText name text = .ok t) (other : Option String) :
    ofText other text = .ok ⟨other, t.nodes⟩ := by
  obtain ⟨ts, hts, ht⟩ := ofText_eq_ok.1 h
  obtain ⟨ns, hns, rfl⟩ := map_ok.1 ht
  exact ofText_eq_ok.2 ⟨ts, hts, map_ok.2 ⟨ns, hns, rfl⟩⟩

namespace Generator

open CodeTemplate.Action

variable {g : Generator} {s s' : Store} {name key text : String}

/-- What rendering by name comes to when the text under the key is known. -/
theorem exec_render_of_read (frame : Frame) (hs : s.cache.Consistent g.source)
    (hkey : TemplateName.normalize name = .ok key) (htext : g.source.read? key = some text) :
    ∃ u, u.cache.Consistent g.source ∧ (exec (g.render name frame) s).1 =
      (Template.ofText (some key) text).bind fun t => (exec (g.start (some key) t frame) u).1 := by
  obtain ⟨u, hl, hu, -⟩ := exec_loadKey g key none hs
  have hk : exec (Generator.key name none) s = (.ok key, s) := by rw [exec_key, hkey]
  refine ⟨u, hu, ?_⟩
  rw [render, exec_observed]
  simp only [Source.parse, htext] at hl
  cases ht : Template.ofText (some key) text with
  | error e =>
    rw [ht] at hl
    rw [exec_bind_ok hk, exec_bind_error hl]
    rfl
  | ok t =>
    rw [ht] at hl
    rw [exec_bind_ok hk, exec_bind_ok hl]
    rfl

/-- What rendering a text under a key comes to. -/
theorem exec_renderText_of_key (frame : Frame) (hkey : TemplateName.normalize key = .ok key) :
    (exec (g.renderText text frame (some key)) s).1 =
      (Template.ofText (some key) text).bind fun t => (exec (g.start (some key) t frame) s).1 := by
  have hk : exec (Generator.key key none) s = (.ok key, s) := by rw [exec_key, hkey]
  rw [renderText, exec_observed]
  cases Template.ofText (some key) text with
  | error e => rfl
  | ok t =>
    simp only [Except.bind]
    rw [exec_bind_ok hk]

/-- The name that a template is rendered under is told in errors alone. -/
theorem exec_start_named (root : Option String) (t : Template) (other : Option String)
    (frame : Frame) :
    (exec (g.start root t frame) s).1.toOption =
      (exec (g.start root ⟨other, t.nodes⟩ frame) s).1.toOption := by
  let own : Render.Setting Store := g.setting t (g.call root.toList (g.callable root s))
  have hcalls : Render.CallsAgree (g.Finds (g.found? s)) own := by
    rintro _ ⟨⟩ name frame l p p'
    exact agree_call _ _ name frame l p p'
  have hnodes := Render.agree_nodes_named hcalls other id t.nodes [frame] false g.language
  rw [Node.allMoved_id] at hnodes
  have htemplates := hnodes.bind fun out => agree_pure out.text
  have hfinds : g.Finds (g.found? s) s := fun _ => rfl
  rw [exec_start, exec_start, run_eq, run_eq]
  exact (htemplates s s hfinds hfinds).1

/-- A rendering under a key is reproduced where no template is active. -/
theorem exec_start_none {t : Template} {frame : Frame} {output : String}
    (hs : s.cache.Consistent g.source)
    (hs' : s'.cache.Consistent g.source)
    (h : (exec (g.start (some key) t frame) s).1 = .ok output) :
    (exec (g.start none t frame) s').1 = .ok output := by
  rw [exec_start] at h ⊢
  have hmore : ∀ k ∈ g.source.map (·.1), k ∉ [] → k ∈ g.callable none s' :=
    fun k hk _ => (mem_loadable g hs').2 hk
  have hfewer : [].Sublist (some key).toList := List.nil_sublist _
  have hrun : Reproduces g.source
      (g.run (some key).toList (g.callable (some key) s) t frame g.language)
      (g.run [] (g.callable none s') t frame g.language) :=
    reproduces_run g (fun _ hd => hd) hfewer hmore t frame g.language
  obtain ⟨-, u, hu, -⟩ := hrun s s' output _ hs hs' (Prod.ext h rfl)
  exact congrArg Prod.fst hu

/-- A template of the source and its text are the same to render. By any name with its key and as a
text under the key, with any stores, they give the same text or the same error; and a text that the
template gives is also what its text gives without a name. -/
theorem renderText_eq_render (g : Generator) (frame : Frame) {s s' : Store}
    (hs : s.cache.Consistent g.source) (hs' : s'.cache.Consistent g.source) {name key text : String}
    (hname : TemplateName.normalize name = .ok key) (htext : g.source.read? key = some text) :
    (exec (g.renderText text frame (some key)) s).1 = (exec (g.render name frame) s').1 ∧
      ∀ output, (exec (g.render name frame) s').1 = .ok output →
        (exec (g.renderText text frame none) s).1 = .ok output := by
  obtain ⟨u, hu, hrender⟩ := exec_render_of_read frame hs' hname htext
  rw [hrender, exec_renderText_of_key frame (TemplateName.normalize_key hname)]
  cases ht : Template.ofText (some key) text with
  | error e => exact ⟨rfl, fun output h => by simp [Except.bind] at h⟩
  | ok t =>
    refine ⟨?_, fun output h => ?_⟩
    · obtain ⟨r, v, v', hv, hv', -⟩ := sameResult_start g (some key) t frame s u hs hu
      simp only [Except.bind, hv, hv']
    · have hnone : (exec (g.start none t frame) s).1 = .ok output := exec_start_none hu hs h
      rw [renderText, exec_observed]
      simp only [Template.ofText_named ht none]
      refine ok_of_toOption ?_
      rw [← exec_start_named none t none frame, hnone]
      rfl

/-- A template that calls another one at the limit, and one that calls itself. -/
theorem renderText_eq_render_page :
    let page := "<\x7b% call_template item n=x %\x7d>"
    let ring := "\x7b% call_template ring %\x7d"
    let g : Generator := ⟨[("page.tmpl", page), ("item.tmpl", "\x7b\x7b n \x7d\x7d"),
      ("ring.tmpl", ring)], Language.builtin, Language.default, none, Number.ofNat 80,
      Number.ofNat 2⟩
    let frame : Frame := [("x", .string "v")]
    let cycle : Except TemplateError String :=
      .error ⟨.cycle ["ring.tmpl", "ring.tmpl"], some ⟨some "ring.tmpl", ⟨1, 1⟩⟩⟩
    Cache.Consistent g.source [] ∧ TemplateName.normalize "/page" = .ok "page.tmpl" ∧
      g.source.read? "page.tmpl" = some page ∧
      (exec (g.render "/page" frame) {}).1 = .ok "<v>" ∧
      (exec (g.renderText page frame (some "page.tmpl")) {}).1 = .ok "<v>" ∧
      (exec (g.renderText page frame none) {}).1 = .ok "<v>" ∧
      (exec (g.render "ring" []) {}).1 = cycle ∧
      (exec (g.renderText ring [] (some "ring.tmpl")) {}).1 = cycle := by
  intro page ring g frame cycle
  have hs : ({} : Store).cache.Consistent g.source := Cache.consistent_nil _
  have hpage : TemplateName.normalize "/page" = .ok "page.tmpl" := by decide +kernel
  have hring : TemplateName.normalize "ring" = .ok "ring.tmpl" := by decide +kernel
  have hread : g.source.read? "page.tmpl" = some page := rfl
  have htext : (exec (g.render "/page" frame) {}).1 = .ok "<v>" :=
    ok_of_toOption (by decide +kernel)
  have hcycle : (exec (g.render "ring" []) {}).1 = cycle := by decide +kernel
  have hring' : g.source.read? "ring.tmpl" = some ring := rfl
  obtain ⟨hkey, hnone⟩ := renderText_eq_render g frame hs hs hpage hread
  obtain ⟨hsame, -⟩ := renderText_eq_render g [] hs hs hring hring'
  exact ⟨hs, hpage, hread, htext, hkey.trans htext, hnone _ htext, hcycle, hsame.trans hcycle⟩

end Generator
end CodeTemplate

import CodeTemplate.Proofs.Generator.Cache
import CodeTemplate.Proofs.Number.Order

/-! A called template is rendered as it would be by itself. The guards can only stop a rendering:
with fewer active templates and a higher limit, what gave a text gives the same text. -/

namespace CodeTemplate

namespace Render

/-- The value of an argument in a scope. -/
def Evaluates (s : Scope) : ArgumentValue → Value → Prop
  | .string text, v => v = .string text
  | .path p, v => s.resolve p = .ok v

variable {σ : Type}

open CodeTemplate.Action

/-- Reading the arguments leaves the state alone, and binds each to its value, unless it has the name
of the prototype. -/
theorem exec_bindings_ok {s : Scope} {p : Position} {args : List Argument} {frame frame' : Frame}
    {st st' : σ} (h : exec (bindings s p frame args) st = (.ok frame', st')) :
    st' = st ∧ ∃ found, frame' = found.reverse ++ frame ∧
      List.Forall₂ (fun a b => b.1 = a.key ∧ Evaluates s a.value b.2)
        (args.filter fun a => a.key ≠ "__proto__") found := by
  induction args generalizing frame with
  | nil =>
    obtain ⟨hf, rfl⟩ := Prod.mk.inj h
    exact ⟨rfl, [], by simp [Except.ok.inj hf], .nil⟩
  | cons a args ih =>
    obtain ⟨v, hv, hrest⟩ : ∃ v, Evaluates s a.value v ∧
        exec (bindings s p (frame.bind a.key v) args) st = (.ok frame', st') := by
      obtain ⟨key, path | text⟩ := a
      · simp only [bindings, resolve] at h
        cases hv : s.resolve path with
        | error f => simp [hv, exec_bind] at h
        | ok v =>
          rw [hv] at h
          exact ⟨v, hv, h⟩
      · exact ⟨_, rfl, h⟩
    obtain ⟨rfl, found, rfl, hf⟩ := ih hrest
    by_cases hk : a.key = "__proto__"
    · exact ⟨rfl, found, by simp [Frame.bind, hk], by simpa [hk] using hf⟩
    · refine ⟨rfl, (a.key, v) :: found, by simp [Frame.bind, hk], ?_⟩
      rw [List.filter_cons_of_pos (by simpa using hk)]
      exact .cons ⟨rfl, hv⟩ hf

end Render

namespace Generator

open CodeTemplate.Action

/-- What the first computation gives in any consistent store, the second gives, too. -/
def Reproduces (source : Source) {α : Type} (x y : Action Store α) : Prop :=
  ∀ s s' a t, s.cache.Consistent source → s'.cache.Consistent source →
    exec x s = (.ok a, t) → t.cache.Consistent source ∧
      ∃ t', exec y s' = (.ok a, t') ∧ t'.cache.Consistent source

theorem reproduces_bind {source : Source} {α β : Type} {x y : Action Store α}
    {f f' : α → Action Store β} (hx : Reproduces source x y)
    (hf : ∀ a, Reproduces source (f a) (f' a)) : Reproduces source (x >>= f) (y >>= f') := by
  intro s s' b u hs hs' h
  rw [exec_bind] at h
  split at h
  · next a t he =>
    obtain ⟨ht, t', hy, ht'⟩ := hx s s' a t hs hs' he
    obtain ⟨hu, u', hy', hu'⟩ := hf a t t' b u ht ht' h
    exact ⟨hu, u', (exec_bind_ok hy).trans hy', hu'⟩
  · simp at h

theorem reproduces_throw (source : Source) {α : Type} (e : TemplateError) (y : Action Store α) :
    Reproduces source (throw e) y := by
  intro s s' a t _ _ h
  simp at h

def reproduces (source : Source) : Congruence Store Store where
  rel := Reproduces source
  pure := by
    intro α a s s' b t hs hs' h
    obtain ⟨ha, rfl⟩ := Prod.mk.inj h
    exact ⟨hs, s', by rw [exec_pure, ha], hs'⟩
  throw e _ := reproduces_throw source e _
  bind := reproduces_bind

theorem reproduces_of_sameResult {source : Source} {α : Type} {x y : Action Store α}
    (h : SameResult source x y) : Reproduces source x y := by
  intro s s' a t hs hs' hx
  obtain ⟨r, u, u', hx', hy, hu, hu', -, -⟩ := h s s' hs hs'
  obtain ⟨rfl, rfl⟩ := Prod.mk.inj (hx.symm.trans hx')
  exact ⟨hu, u', hy, hu'⟩

/-- For a rendering that goes on after loading a template, that template may be taken to be there.
-/
theorem reproduces_of_loaded {g : Generator} {key : String} {p : Option Position} {α : Type}
    {f : Template → Action Store α} {y : Action Store α}
    (h : key ∈ g.source.map (·.1) → Reproduces g.source (g.loadKey key p >>= f) y) :
    Reproduces g.source (g.loadKey key p >>= f) y := by
  intro s s' a u hs hs' hx
  obtain ⟨t, hl, -, -⟩ := exec_loadKey g key p hs
  cases ht : g.source.parse key p with
  | error e =>
    rw [ht] at hl
    simp [exec_bind_error hl] at hx
  | ok tree =>
    exact h (Source.mem_keys_of_tree? ((Source.parse_eq_ok p).1 ht)) s s' a u hs hs' hx

/-- A rendering is reproduced by a generator with another language and a limit that is no stricter,
where no more templates are active and all others of the source can be called. -/
theorem reproduces_run (g : Generator) {lang : Language} {d : Number}
    (hd : ∀ n, d.atMost n = true → g.maxDepth.atMost n = true)
    {active active' others others' : List String} (ha : active'.Sublist active)
    (ho : ∀ key ∈ g.source.map (·.1), key ∉ active' → key ∈ others')
    (t : Template) (frame : Frame) (l : Language) :
    Reproduces g.source (g.run active others t frame l)
      (run { g with language := lang, maxDepth := d } active' others' t frame l) := by
  induction hn : others.length using Nat.strongRecOn
    generalizing active active' others others' t frame l with
  | ind n ih =>
  rw [run_eq, run_eq]
  refine rel_template_setting (reproduces g.source) g t (fun site _ args l => ?_) frame l
  refine reproduces_bind (rel_key (reproduces g.source) _ _) fun key => ?_
  by_cases hc : key ∈ active
  · simp only [hc, ↓reduceIte]
    exact reproduces_throw _ _ _
  by_cases hm : g.maxDepth.atMost active.length = true
  · simp only [hc, hm, ↓reduceIte]
    exact reproduces_throw _ _ _
  by_cases hk : key ∈ others
  · have hc' : key ∉ active' := fun h => hc (ha.subset h)
    have hm' : ¬ d.atMost active'.length = true :=
      fun h => hm (hd _ (Number.atMost_mono ha.length_le h))
    simp only [hc, hm, hk, hc', hm', ↓reduceIte]
    refine reproduces_of_loaded fun hs => ?_
    simp only [ho key hs hc', ↓reduceIte]
    refine reproduces_bind (reproduces_of_sameResult (sameResult_loadKey g key _)) fun t => ?_
    subst hn
    refine ih _ (length_without_lt hk) (ha.append_right _) (fun k hks hka => ?_) t args l rfl
    simp only [List.mem_append, List.mem_singleton, not_or] at hka
    exact mem_without.2 ⟨ho k hks hka.1, hka.2⟩
  · simp only [hc, hm, hk, ↓reduceIte]
    exact reproduces_throw _ _ _

/-- A rendering by name, reproduced from a rendering of the same tree inside other templates. -/
theorem render_of_run (g : Generator) {lang : Language} {d : Number}
    (hd : ∀ n, d.atMost n = true → g.maxDepth.atMost n = true) {name key : String}
    (hkey : TemplateName.normalize name = .ok key) {active others : List String} {t : Template}
    (ht : g.source.tree? key = some t) {frame : Frame} {s s' u : Store} {text : String}
    (hs : s.cache.Consistent g.source) (hs' : s'.cache.Consistent g.source)
    (h : exec (g.run (active ++ [key]) others t frame lang) s = (.ok text, u)) :
    (exec (render { g with language := lang, maxDepth := d } name frame) s').1 = .ok text := by
  let g' : Generator := { g with language := lang, maxDepth := d }
  obtain ⟨v, hl, hv, -⟩ := exec_loadKey g' key none hs'
  rw [(Source.parse_eq_ok none).2 ht] at hl
  have ho : ∀ k ∈ g.source.map (·.1), k ∉ [key] → k ∈ g'.callable (some key) v := by
    intro k hk hne
    refine (mem_callable g' hv).2 ⟨hk, ?_⟩
    simpa [eq_comm] using hne
  have hsub : [key].Sublist (active ++ [key]) := List.sublist_append_right active [key]
  obtain ⟨-, w, hw, -⟩ := reproduces_run g hd hsub ho t frame lang s v text u hs hv h
  have hr : exec (g'.start (some key) t frame) v = (.ok text, w) := by
    rw [exec_start]
    exact hw
  have hk : exec (Generator.key name none) s' = (.ok key, s') := by rw [exec_key, hkey]
  simp only [render, exec_observed]
  rw [exec_bind_ok hk, exec_bind_ok hl, hr]

/-- A call that gives a text has found a template, and rendered it inside those that are active. -/
theorem exec_call_ok (g : Generator) {active others : List String} {name : String} {args : Frame}
    {l : Language} {p : Position} {s s' : Store} {text : String} (hs : s.cache.Consistent g.source)
    (h : exec (g.call active others name args l p) s = (.ok text, s')) :
    ∃ key t v, TemplateName.normalize name = .ok key ∧ g.source.tree? key = some t ∧
      v.cache.Consistent g.source ∧
      exec (g.run (active ++ [key]) (without key others) t args l) v = (.ok text, s') := by
  simp only [call, exec_bind, exec_key] at h
  cases hn : TemplateName.normalize name with
  | error f => simp [hn] at h
  | ok key =>
    simp only [hn] at h
    split_ifs at h
    · simp at h
    · simp at h
    · obtain ⟨v, hl, hv, -⟩ := exec_loadKey g key (some p) hs
      rw [exec_bind, hl] at h
      cases ht : g.source.parse key (some p) with
      | error e => simp [ht] at h
      | ok t =>
        simp only [ht] at h
        exact ⟨key, t, v, rfl, (Source.parse_eq_ok _).1 ht, hv, h⟩
    · simp at h

theorem reproduces_start (g : Generator) {d : Number}
    (hd : ∀ n, d.atMost n = true → g.maxDepth.atMost n = true) (root : Option String) (t : Template)
    (frame : Frame) :
    Reproduces g.source (g.start root t frame) (start { g with maxDepth := d } root t frame) := by
  intro s s' text u hs hs' h
  rw [exec_start] at h
  rw [exec_start]
  refine reproduces_run g hd (List.Sublist.refl _) (fun key hk ha => ?_) t frame g.language
    s s' text u hs hs' h
  refine (mem_callable { g with maxDepth := d } hs').2 ⟨hk, ?_⟩
  rintro rfl
  simp at ha

theorem reproduces_observed {source : Source} {x y : Action Store String} (name : String)
    (h : Reproduces source x y) : Reproduces source (observed name x) (observed name y) := by
  intro s s' text u hs hs' hx
  rw [exec_observed] at hx
  obtain ⟨hr, rfl⟩ := Prod.mk.inj hx
  obtain ⟨hc, t', hy, hc'⟩ := h s s' text _ hs hs' (Prod.ext hr rfl)
  exact ⟨hc, t'.tell (.ofResult name (.ok text)), by rw [exec_observed, hy], hc'⟩

theorem reproduces_render (g : Generator) {d : Number}
    (hd : ∀ n, d.atMost n = true → g.maxDepth.atMost n = true) (name : String) (frame : Frame) :
    Reproduces g.source (g.render name frame) (render { g with maxDepth := d } name frame) :=
  reproduces_observed name <| reproduces_bind (rel_key (reproduces g.source) name none) fun key =>
    reproduces_bind (reproduces_of_sameResult (sameResult_loadKey g key none)) fun t =>
      reproduces_start g hd (some key) t frame

/-- What a call node gives: the text of a call with its arguments' values, and nothing else. -/
theorem exec_node_call {σ : Type} {c : Render.Setting σ} {s : Scope} {inList : Bool} {l : Language}
    {name : String} {args : List Argument} {start : Location} {st st' : σ} {out : Render.Output}
    {f : String → Frame → Language → Position → Action σ String} (hf : c.call = some f)
    (h : exec (Render.node c s inList l (.call name args start)) st = (.ok out, st')) :
    ∃ frame, List.Forall₂ (fun a b => b.1 = a.key ∧ Render.Evaluates s a.value b.2)
        (args.filter fun a => a.key ≠ "__proto__") frame.reverse ∧
      exec (f name frame l ⟨c.template, start⟩) st = (.ok out.text, st') ∧
      out.language = l ∧ out.entries = [] := by
  simp only [Render.node, hf] at h
  rw [exec_bind] at h
  split at h
  · next frame t hb =>
    obtain ⟨rfl, found, rfl, hfound⟩ := Render.exec_bindings_ok hb
    rw [exec_bind] at h
    split at h
    · next text u hx =>
      obtain ⟨ho, rfl⟩ := Prod.mk.inj h
      obtain rfl := Except.ok.inj ho
      exact ⟨_, by simpa using hfound, hx, rfl, rfl⟩
    · simp at h
  · simp at h

/-- A template that is called, whatever templates are active, gives what it gives when it is
rendered by itself, with the arguments as its only bindings, from the language in effect at the
call, with any store and any limit that is not lower. The nodes after the call are rendered in the
scope, the language and the parameter list of the call. And with a higher limit, what was rendered
as a text is rendered as the same text. By `run_eq` every call that is made is one of these. -/
theorem call_eq_render (g : Generator) :
    (∀ (active others : List String) (t : Template) (s : Scope) (inList : Bool) (l : Language)
      (name : String) (args : List Argument) (start : Location) (st st' : Store)
      (out : Render.Output), st.cache.Consistent g.source →
      let c := g.setting t (g.call active others)
      exec (Render.node c s inList l (.call name args start)) st = (.ok out, st') →
      (∃ frame : Frame,
        List.Forall₂ (fun a b => b.1 = a.key ∧ Render.Evaluates s a.value b.2)
          (args.filter fun a => a.key ≠ "__proto__") frame.reverse ∧
        ∀ d, d = g.maxDepth ∨ g.maxDepth.Le d → ∀ alone : Store, alone.cache.Consistent g.source →
          (exec (render { g with language := l, maxDepth := d } name frame) alone).1 =
            .ok out.text) ∧
      out.language = l ∧ out.entries = [] ∧
      ∀ after, exec (Render.nodes c s inList l (.call name args start :: after)) st =
        Prod.map (Except.map fun rest => { rest with text := out.text ++ rest.text }) id
          (exec (Render.nodes c s inList l after) st')) ∧
    ∀ (d d' : Number) (name : String) (frame : Frame) (st st' : Store) (text : String), d.Le d' →
      st.cache.Consistent g.source → st'.cache.Consistent g.source →
      (exec (render { g with maxDepth := d } name frame) st).1 = .ok text →
      (exec (render { g with maxDepth := d' } name frame) st').1 = .ok text := by
  have limit : ∀ {x d : Number}, d = x ∨ x.Le d → ∀ n, d.atMost n = true → x.atMost n = true := by
    rintro x d (rfl | hd) n h
    · exact h
    · exact Number.atMost_of_le hd h
  refine ⟨?_, ?_⟩
  · intro active others t s inList l name args start st st' out hst c h
    obtain ⟨frame, hargs, hcall, hl, he⟩ := exec_node_call (c := c) rfl h
    refine ⟨⟨frame, hargs, fun d hd alone ha => ?_⟩, hl, he, fun after => ?_⟩
    · obtain ⟨key, u, v, hkey, hu, hv, hrun⟩ := exec_call_ok g hst hcall
      exact render_of_run g (limit hd) hkey hu hv ha hrun
    · obtain ⟨text, language, entries⟩ := out
      subst hl he
      simp only [Render.nodes]
      rw [exec_bind_ok h, exec_bind]
      rcases exec (Render.nodes c s inList language after) st' with ⟨_ | rest, u⟩
      · rfl
      · simp [Render.Output.append, Except.map]
  · intro d d' name frame st st' text hd hst hst' h
    obtain ⟨-, u, hu, -⟩ := reproduces_render { g with maxDepth := d } (limit (.inr hd)) name frame
      st st' text _ hst hst' (Prod.ext h rfl)
    rw [hu]

/-- A call with a value of the caller at the limit's edge, and the callee alone without a limit. -/
theorem call_eq_render_variable :
    let g : Generator := ⟨[("item.tmpl", "\x7b\x7b n \x7d\x7d")], Language.builtin,
      Language.default, none, Number.ofNat 80, Number.ofNat 1⟩
    let c := g.setting ⟨none, []⟩ (g.call [] ["item.tmpl"])
    let s : Scope := [[("x", .string "a")]]
    let args : List Argument := [⟨"n", .path ⟨"x", []⟩⟩]
    let called := exec (Render.node c s false Language.java (.call "item" args ⟨1, 1⟩)) {}
    called.1.toOption.map (·.text) = some "a" ∧ (Number.ofNat 1).Le (.infinite false) ∧
      (∃ frame : Frame,
        List.Forall₂ (fun a b => b.1 = a.key ∧ Render.Evaluates s a.value b.2) args frame.reverse ∧
        (exec (render { g with language := Language.java, maxDepth := .infinite false } "item"
          frame) {}).1 = .ok "a") ∧
      (exec (render { g with maxDepth := .infinite false } "item" [("n", .string "b")]) {}).1 =
        .ok "b" := by
  intro g c s args called
  have hs : ({} : Store).cache.Consistent g.source := Cache.consistent_nil _
  have hle : (Number.ofNat 1).Le (.infinite false) :=
    ⟨_, _, by with_unfolding_all rfl, rfl, le_top⟩
  have htext : called.1.toOption.map (·.text) = some "a" := by decide +kernel
  have hb : (exec (render { g with maxDepth := Number.ofNat 1 } "item" [("n", .string "b")]) {}).1 =
      .ok "b" := ok_of_toOption (by decide +kernel)
  obtain ⟨out, hout, ha⟩ := Option.map_eq_some_iff.1 htext
  obtain ⟨hcall, hlimit⟩ := call_eq_render g
  obtain ⟨⟨frame, hargs, halone⟩, -⟩ := hcall [] ["item.tmpl"] ⟨none, []⟩ s false Language.java
    "item" args ⟨1, 1⟩ {} called.2 out hs (Prod.ext (ok_of_toOption hout) rfl)
  exact ⟨htext, hle, ⟨frame, hargs, ha ▸ halone _ (.inr hle) {} hs⟩,
    hlimit _ _ "item" _ {} {} "b" hle hs hs hb⟩

end Generator
end CodeTemplate

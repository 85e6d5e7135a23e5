import CodeTemplate.Proofs.Generator.Events
import CodeTemplate.Proofs.Generator.Guards
import CodeTemplate.Proofs.Markup.Name

/-! Several names of one template. Names with the same key are interchangeable: they load the same
template, be it parsed or kept, and a call by one of them is refused while the template is active
under another. -/

namespace CodeTemplate

open CodeTemplate.Action

/-! ### Loading -/

namespace Generator

variable {g : Generator} {a b key : String} {p : Option Position} {s : Store} {t : Template}

theorem exec_load_eq (h : TemplateName.normalize a = .ok key) :
    exec (g.load a p) s = exec (g.loadKey key p) s := by
  rw [load, exec_bind_ok (by rw [exec_key, h])]

/-- What was loaded is kept. -/
theorem lookup_exec_loadKey (h : (exec (g.loadKey key p) s).1 = .ok t) :
    (exec (g.loadKey key p) s).2.cache.lookup key = some t := by
  cases hc : s.cache.lookup key with
  | some kept =>
    rw [exec_loadKey_cached hc] at h ⊢
    obtain rfl := Except.ok.inj h
    exact hc
  | none =>
    cases ht : g.source.tree? key with
    | none =>
      rw [exec_loadKey_missing hc ht] at h
      simp [(Source.parse_eq_ok p).1 h] at ht
    | some tree =>
      rw [exec_loadKey_parsed hc ht] at h ⊢
      obtain rfl := Except.ok.inj h
      simp only [Store.tell]
      rw [← setKey_of_lookup_none hc, lookup_setKey, if_pos rfl]

end Generator

/-! ### Calls -/

/-- From a session with the given stack, the computation leads to one with that stack, and the calls
that are made in it have at least the keys of `base` on theirs. -/
def Above (base active : List String) {α : Type} (y : Action Session α) : Prop :=
  ∀ s, s.active = active → ∃ r t new, exec y s = (r, t) ∧ t.active = active ∧
    t.calls = s.calls ++ new ∧ ∀ c ∈ new, base <+: c.before

section Above

variable {base active : List String} {α β : Type} {x y : Action Session α}

theorem above_result (r : Except TemplateError α) (h : ∀ s, exec y s = (r, s)) :
    Above base active y :=
  fun s hs => ⟨r, s, [], h s, hs, by simp, by simp⟩

theorem Above.bind {f : α → Action Session β} (h : Above base active y)
    (hf : ∀ a, Above base active (f a)) : Above base active (y >>= f) := by
  intro s hs
  obtain ⟨r, t, new, hy, ht, hcalls, hnew⟩ := h s hs
  cases r with
  | error e => exact ⟨_, t, new, exec_bind_error hy, ht, hcalls, hnew⟩
  | ok a =>
    obtain ⟨r, u, new', hf, hu, hcalls', hnew'⟩ := hf a t ht
    refine ⟨r, u, new ++ new', (exec_bind_ok hy).trans hf, hu, ?_, ?_⟩
    · rw [hcalls', hcalls, List.append_assoc]
    · exact List.forall_mem_append.2 ⟨hnew, hnew'⟩

/-- The computation on the left is of no account. -/
def above (base active : List String) : Congruence Session Session where
  rel _ y := Above base active y
  pure a := above_result (.ok a) fun _ => rfl
  throw e _ := above_result (.error e) fun _ => rfl
  bind h hf := h.bind hf

theorem above_lift (x : Action Store α) : Above base active (Session.lift x) :=
  fun s hs => ⟨_, _, [], Session.exec_lift x s, hs, by simp, by simp⟩

theorem Above.inside {key : String} (h : Above base (active ++ [key]) y) :
    Above base active (Session.inside key y) := by
  rintro s rfl
  obtain ⟨r, t, new, hy, ht, hcalls, hnew⟩ := h (s.become (s.active ++ [key])) rfl
  have hdrop : t.active.dropLast = s.active := by rw [ht, List.dropLast_concat]
  refine ⟨r, t.become s.active, new, ?_, rfl, hcalls, hnew⟩
  simp only [Session.exec_inside, hy, hdrop]

theorem Above.mono {more : List String} (h : Above more active y) (hbase : base <+: more) :
    Above base active y := by
  intro s hs
  obtain ⟨r, t, new, hy, ht, hcalls, hnew⟩ := h s hs
  exact ⟨r, t, new, hy, ht, hcalls, fun c hc => hbase.trans (hnew c hc)⟩

/-- A call comes after the calls in it, and is made on the stack that it finds. -/
theorem Above.called (h : Above base active y) (name : String) (p : Position) (s : Session)
    (hs : s.active = active) :
    ∃ r t inner, exec (Session.called name p y) s = (r, t) ∧ t.active = active ∧
      t.calls = s.calls ++ (inner ++ [⟨name, p, active, active⟩]) ∧
      ∀ c ∈ inner, base <+: c.before := by
  obtain ⟨r, t, inner, hy, ht, hcalls, hinner⟩ := h s hs
  refine ⟨r, { t with calls := t.calls ++ [⟨name, p, s.active, t.active⟩] }, inner, ?_, ht, ?_,
    hinner⟩
  · simp only [Session.exec_called, hy]
  · simp [hcalls, hs, ht]

end Above

namespace Generator

variable {g : Generator} {base active others : List String} {name : String} {args : Frame}
  {l : Language} {p : Position}

/-- The calls in a call are made while the template that it enters is active. -/
theorem above_tracedCall
    (hbase : ∀ key, TemplateName.normalize name = .ok key → base <+: active ++ [key])
    (ih : ∀ key ∈ others, ∀ t, Above (active ++ [key]) (active ++ [key])
      (g.traced (without key others) t args l)) (s : Session) (hs : s.active = active) :
    ∃ r t inner, exec (g.tracedCall others name args l p) s = (r, t) ∧ t.active = active ∧
      t.calls = s.calls ++ (inner ++ [⟨name, p, active, active⟩]) ∧
      ∀ c ∈ inner, base <+: c.before := by
  refine Above.called (fun u hu => ?_) name p s hs
  subst hu
  have hfail : ∀ e : TemplateError, Above base u.active (throw e : Action Session String) :=
    fun e => above_result (.error e) fun _ => rfl
  simp only [exec_bind, Session.exec_lift, exec_key]
  cases hn : TemplateName.normalize name with
  | error f => exact hfail _ u rfl
  | ok key =>
    simp only [exec_get]
    by_cases hc : key ∈ u.active
    · simp only [hc, ↓reduceIte]
      exact hfail _ u rfl
    by_cases hd : g.maxDepth.atMost u.active.length = true
    · simp only [hc, hd, ↓reduceIte]
      exact hfail _ u rfl
    by_cases hk : key ∈ others
    · simp only [hc, hd, hk, ↓reduceIte]
      exact (above_lift _).bind (fun t => ((ih key hk t).mono (hbase key hn)).inside) u rfl
    · simp only [hc, hd, hk, ↓reduceIte]
      exact hfail _ u rfl

/-- The induction is on the keys that can still be called. -/
theorem above_traced (g : Generator) (active others : List String) (t : Template) (frame : Frame)
    (l : Language) : Above active active (g.traced others t frame l) := by
  induction hlen : others.length using Nat.strongRecOn generalizing active others t frame l with
  | ind n ih =>
  have hcall : ∀ site ∈ Node.allCalls t.nodes, ∀ frame l, (above active active).rel
      (g.tracedCall others site.template frame l ⟨t.name, site.start⟩)
      (g.tracedCall others site.template frame l ⟨t.name, site.start⟩) := by
    intro site hsite args l s hs
    subst hlen
    obtain ⟨r, u, inner, hy, hu, hcalls, hinner⟩ :=
      above_tracedCall (fun _ _ => List.prefix_append _ _) (fun key hk v =>
        ih _ (length_without_lt hk) (active ++ [key]) _ v args l rfl) s hs
    exact ⟨r, u, _, hy, hu, hcalls, List.forall_mem_append.2 ⟨hinner, by simp⟩⟩
  rw [traced_eq]
  exact rel_template_setting (above active active) g t hcall frame l

/-- All calls of a session are made with the root active, if it has a key. -/
theorem above_session (g : Generator) (root : Root) (frame : Frame) (s : Store) :
    ∀ c ∈ (g.session root frame s).2.calls, root.stack <+: c.before := by
  rcases hl : exec (root.load g) s with ⟨e | ⟨key, t⟩, u⟩
  · simp [session, hl, Session.start]
  · obtain ⟨r, v, new, hy, -, hcalls, hnew⟩ :=
      above_traced g root.stack (g.callable key u) t frame g.language
        (Session.start u root.stack) rfl
    intro c hc
    simp only [session, hl, hy, hcalls] at hc
    exact hnew c hc

/-! ### Names with the same key -/

/-- The names `a` and `b` stand for the template with the key. -/
structure Interchangeable (g : Generator) (key a b : String) : Prop where
  /-- A text is given to a source by either name. -/
  source : ∀ kept text rest,
    Source.adding kept ((b, text) :: rest) = Source.adding kept ((a, text) :: rest)
  /-- Either name loads the template, with the same effect. -/
  load : ∀ p s, exec (g.load b p) s = exec (g.load a p) s
  /-- After the one name, the other gives the template that was kept. -/
  reload : ∀ p p' s t, (exec (g.load a p) s).1 = .ok t →
    (exec (g.load b p') (exec (g.load a p) s).2).1 = .ok t
  render : ∀ frame s, (exec (g.render b frame) s).1 = (exec (g.render a frame) s).1
  call : ∀ active others args l p, g.call active others b args l p = g.call active others a args l p
  /-- A call is refused while the template is active. -/
  refused : ∀ active others args l p s, key ∈ active →
    exec (g.call active others b args l p) s = (.error ⟨.cycle (active ++ [key]), some p⟩, s)
  /-- The template is active in all calls of a rendering by name. -/
  root : ∀ frame s, ∀ c ∈ (g.session (.named a) frame s).2.calls, key ∈ c.before
  /-- The template is active in all calls of a rendering under a name. -/
  rootText : ∀ text frame s, ∀ c ∈ (g.session (.ofText text (some a)) frame s).2.calls,
    key ∈ c.before
  /-- The template is active in all calls in a call by name. -/
  inner : ∀ others args l p s, ∃ nested, (exec (g.tracedCall others a args l p) s).2.calls =
    s.calls ++ (nested ++ [⟨a, p, s.active, s.active⟩]) ∧ ∀ c ∈ nested, key ∈ c.before
  /-- A rendering with a call by the other name, made while the template is active, is a cycle. -/
  cycle : ∀ root frame s, s.cache.Consistent g.source → ∀ c ∈ (g.session root frame s).2.calls,
    c.name = b → key ∈ c.before →
    (g.session root frame s).1 = .error ⟨.cycle (c.before ++ [key]), some c.position⟩

theorem mem_of_stack_prefix {root : Root} {key : String} {stack : List String}
    (hk : root.key? = some key) (h : root.stack <+: stack) : key ∈ stack :=
  h.subset (by simp [Root.stack, hk])

theorem interchangeable {key a b : String} (g : Generator)
    (ha : TemplateName.normalize a = .ok key) (hb : TemplateName.normalize b = .ok key) :
    Interchangeable g key a b where
  source kept text rest := by simp [Source.adding, ha, hb]
  load p s := by rw [exec_load_eq ha, exec_load_eq hb]
  reload p p' s t h := by
    rw [exec_load_eq ha] at h ⊢
    rw [exec_load_eq hb, exec_loadKey_cached (lookup_exec_loadKey h)]
  render frame s := by simp [render, exec_observed, exec_bind, exec_key, ha, hb]
  call active others args l p := by
    have hkey : Generator.key b (some p) = Generator.key a (some p) := by
      simp [Generator.key, ha, hb]
    simp only [Generator.call, hkey]
  refused active others args l p s hk := by
    simp [Generator.call, exec_bind, exec_key, hb, hk]
  root frame s c hc := mem_of_stack_prefix (by simp [Root.key?, ha, Except.toOption])
    (above_session g (.named a) frame s c hc)
  rootText text frame s c hc := mem_of_stack_prefix (by simp [Root.key?, ha, Except.toOption])
    (above_session g (.ofText text (some a)) frame s c hc)
  inner others args l p s := by
    have hbase : ∀ k, TemplateName.normalize a = .ok k → s.active ++ [key] <+: s.active ++ [k] := by
      intro k hk
      obtain rfl := Except.ok.inj (ha.symm.trans hk)
      exact List.prefix_rfl
    obtain ⟨r, t, inner, hy, -, hcalls, hinner⟩ :=
      above_tracedCall hbase (fun k _ u => above_traced g _ _ u args l) s rfl
    exact ⟨inner, by rw [hy, hcalls], fun c hc => (hinner c hc).subset (by simp)⟩
  cycle root frame s hs c hc hname hk := by
    obtain ⟨-, -, -, hexplains⟩ := session_spec g root frame hs
    exact (hexplains.cycle_iff _ _).2 ⟨c, hc, key, hname ▸ hb, hk, rfl, rfl⟩

/-- A name is refused exactly if it is unusable, and the key of any other one is a path down from
where it starts and its own key. All names with one key stand for one template: they load the same,
and a call by one of them while the template is active under another is a cycle. -/
theorem normalize_interchangeable :
    (∀ name f, TemplateName.normalize name = .error f ↔ TemplateName.fault? name = some f) ∧
      (∀ name key, TemplateName.normalize name = .ok key → TemplateName.IsKey key) ∧
      ∀ (g : Generator) (key a b : String), TemplateName.normalize a = .ok key →
        TemplateName.normalize b = .ok key → Interchangeable g key a b :=
  ⟨fun _ _ => TemplateName.normalize_eq_error_iff, fun _ _ => TemplateName.isKey_of_normalize,
    fun g _ _ _ => interchangeable g⟩

/-- A template that calls itself by another name than the one that it is rendered by. -/
theorem normalize_interchangeable_page :
    let g : Generator := ⟨[("page.tmpl", "\x7b% call_template /page.tmpl %\x7d")],
      Language.builtin, Language.default, none, Number.ofNat 80, Number.ofNat 32⟩
    let run := g.session (.named "page") [] {}
    TemplateName.normalize "page" = .ok "page.tmpl" ∧
      TemplateName.normalize "/page.tmpl" = .ok "page.tmpl" ∧
      TemplateName.normalize "../page" = .error (.parent "../page") ∧
      TemplateName.IsKey "page.tmpl" ∧ Interchangeable g "page.tmpl" "page" "/page.tmpl" ∧
      run.2.calls.map (·.name) = ["/page.tmpl"] ∧
      run.1 = .error ⟨.cycle ["page.tmpl", "page.tmpl"], some ⟨some "page.tmpl", ⟨1, 1⟩⟩⟩ := by
  intro g run
  have hpage : TemplateName.normalize "page" = .ok "page.tmpl" := by decide +kernel
  have hslash : TemplateName.normalize "/page.tmpl" = .ok "page.tmpl" := by decide +kernel
  have hcalls : run.2.calls.map (·.name) = ["/page.tmpl"] := by decide +kernel
  have hrun : run.1 =
      .error ⟨.cycle ["page.tmpl", "page.tmpl"], some ⟨some "page.tmpl", ⟨1, 1⟩⟩⟩ := by
    decide +kernel
  obtain ⟨hfault, hkey, hnames⟩ := normalize_interchangeable
  exact ⟨hpage, hslash, (hfault _ _).2 (by decide +kernel), hkey _ _ hpage,
    hnames g _ _ _ hpage hslash, hcalls, hrun⟩

end Generator
end CodeTemplate

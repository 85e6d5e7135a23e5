import CodeTemplate.Proofs.Generator.Guards
import CodeTemplate.Proofs.Render.Failure

/-! Where errors are reported. An error of a rendering is at a tag of the template that is rendered
when it occurs, and an error of reading at the fault of the text that is read. Its position has the
name of that template, whatever templates called it. -/

namespace CodeTemplate

open CodeTemplate.Action

theorem TemplateName.exists_key {name : String} (h : fault? name = none) :
    ∃ key, normalize name = .ok key := by
  simp [normalize, h]

namespace Root

variable {g : Generator} {root : Root}

/-- Above the root, it is the last key that tells what is rendered. -/
theorem current?_concat {stack : List String} {key text : String}
    (hroot : ∀ k, root.key? = some k → k ∈ stack) (hk : key ∉ stack)
    (h : g.source.read? key = some text) :
    root.current? g (stack ++ [key]) = some (some key, text) := by
  cases root with
  | named name => exact Source.last?_concat stack h
  | ofText own name =>
    have hne : stack ++ [key] ≠ (ofText own name).stack := by
      intro heq
      rw [Root.stack] at heq
      cases hkey : (ofText own name).key? with
      | none => simp [hkey] at heq
      | some k =>
        rw [hkey] at heq
        obtain ⟨rfl, hlast⟩ := List.append_eq_singleton_iff.1 heq |>.resolve_right (by simp)
        simpa using hroot k hkey
    rw [current?, if_neg hne]
    exact Source.last?_concat stack h

end Root

namespace Generator

/-- The name and the text of a template that is read in the session: the root, or one that is
called. -/
inductive Reads (g : Generator) (root : Root) (s : Session) : Option String → String → Prop
  | root {name : Option String} {text : String} :
      root.current? g root.stack = some (name, text) → Reads g root s name text
  | called {c : Call} {key text : String} : c ∈ s.calls → TemplateName.normalize c.name = .ok key →
      g.source.read? key = some text → Reads g root s (some key) text

/-- The error is at a place in the text of a template, under its name: at a tag of one that was
rendered in the session, or at the fault of one that was read. -/
inductive Reported (g : Generator) (root : Root) (e : TemplateError) (s : Session) : Prop
  | rendering {stack : List String} {name : Option String} {text : String} {l : Location} :
      stack ∈ s.moments → root.current? g stack = some (name, text) → e.cause.Rendering →
      e.position = some ⟨name, l⟩ → l.Marks text.toList OpensTag → Reported g root e s
  | reading {name : Option String} {text : String} {l : Location} :
      Reads g root s name text → e.position = some ⟨name, l⟩ → Template.Faulty text e.cause l →
      Reported g root e s

/-- The error is the fault of the text that is found under the name. -/
def Misread (g : Generator) (name : String) (e : TemplateError) : Prop :=
  ∃ key text l, TemplateName.normalize name = .ok key ∧ g.source.read? key = some text ∧
    e.position = some ⟨some key, l⟩ ∧ Template.Faulty text e.cause l

/-- The session is at a moment with the given stack. -/
structure At (g : Generator) (active : List String) (s : Session) : Prop where
  consistent : s.store.cache.Consistent g.source
  current : s.active = active
  moment : active ∈ s.moments

variable {g : Generator} {root : Root} {active : List String} {e : TemplateError}

theorem Reported.mono {s s' : Session} (h : Reported g root e s) (hm : s.moments ⊆ s'.moments)
    (hc : s.calls ⊆ s'.calls) : Reported g root e s' := by
  cases h with
  | rendering hs hcur hcause hp hl => exact .rendering (hm hs) hcur hcause hp hl
  | reading hr hp hf =>
    refine .reading ?_ hp hf
    cases hr with
    | root hcur => exact .root hcur
    | called hcall hn ht => exact .called (hc hcall) hn ht

theorem At.become {stack : List String} {s : Session} (h : At g active s) :
    At g stack (s.become stack) :=
  ⟨h.consistent, rfl, by simp [Session.become]⟩

theorem keeps_inside {α : Type} {key : String} {x : Action Session α}
    (h : Keeps (At g (active ++ [key])) (Reported g root) x) :
    Keeps (At g active) (Reported g root) (Session.inside key x) := by
  intro s hs
  have hin : At g (active ++ [key]) (s.become (s.active ++ [key])) := hs.current ▸ hs.become
  rw [Session.exec_inside]
  rcases hx : exec x (s.become (s.active ++ [key])) with ⟨e | a, t⟩
  · exact (h.of_error hin hx).mono (List.subset_append_left _ _) (List.Subset.refl _)
  · have ht := h.of_ok hin hx
    have hdrop : t.active.dropLast = active := by rw [ht.current, List.dropLast_concat]
    exact hdrop ▸ ht.become

/-- A call is remembered, so that the text of the template that it could not read is one that was
read in the session. -/
theorem keeps_called {α : Type} {name : String} {p : Position} {x : Action Session α}
    (h : Keeps (At g active) (fun e s => Reported g root e s ∨ Misread g name e) x) :
    Keeps (At g active) (Reported g root) (Session.called name p x) := by
  intro s hs
  rw [Session.exec_called]
  rcases hx : exec x s with ⟨e | a, t⟩
  · rcases h.of_error hs hx with hr | ⟨key, text, l, hn, ht, hp, hf⟩
    · exact hr.mono (List.Subset.refl _) (List.subset_append_left _ _)
    · have hc : ⟨name, p, s.active, t.active⟩ ∈ t.calls ++ [⟨name, p, s.active, t.active⟩] :=
        List.mem_concat_self
      exact .reading (.called hc hn ht) hp hf
  · have ht := h.of_ok hs hx
    exact ⟨ht.consistent, ht.current, ht.moment⟩

/-- Loading fails as nothing is found, or with the fault of the text that is found. -/
theorem keeps_load {name key : String} {p : Position} {α : Type} {f : Template → Action Session α}
    (hn : TemplateName.normalize name = .ok key)
    (hp : Render.MayFail (At g active) (Reported g root) p)
    (hf : ∀ t text, g.source.read? key = some text → Template.ofText (some key) text = .ok t →
      Keeps (At g active) (Reported g root) (f t)) :
    Keeps (At g active) (fun e s => Reported g root e s ∨ Misread g name e)
      (Session.lift (g.loadKey key (some p)) >>= f) := by
  intro s hs
  obtain ⟨v, hl, hv, -⟩ := exec_loadKey g key (some p) hs.consistent
  have hs' : At g active { s with store := v } := ⟨hv, hs.current, hs.moment⟩
  have hl' : exec (Session.lift (g.loadKey key (some p))) s =
      (g.source.parse key (some p), { s with store := v }) := by
    rw [Session.exec_lift, hl]
  unfold Source.parse at hl'
  cases hread : g.source.read? key with
  | none =>
    simp only [hread] at hl'
    rw [exec_bind_error hl']
    exact .inl (hp (.notFound key) trivial _ hs')
  | some text =>
    simp only [hread] at hl'
    cases ht : Template.ofText (some key) text with
    | error e =>
      rw [ht] at hl'
      obtain ⟨l, hpos, hfault⟩ := Template.faulty_of_ofText ht
      rw [exec_bind_error hl']
      exact .inr ⟨key, text, l, hn, hread, hpos, hfault⟩
    | ok t =>
      rw [ht] at hl'
      rw [exec_bind_ok hl']
      rcases hx : exec (f t) { s with store := v } with ⟨e | a, u⟩
      · exact .inl ((hf t text hread ht).of_error hs' hx)
      · exact (hf t text hread ht).of_ok hs' hx

/-- A call by a usable name, if the rendering of each template that it may enter is known. -/
theorem keeps_tracedCall {others : List String} {name key : String} {args : Frame} {l : Language}
    {p : Position} (hn : TemplateName.normalize name = .ok key)
    (hp : Render.MayFail (At g active) (Reported g root) p)
    (ih : key ∈ others → key ∉ active → ∀ t text, g.source.read? key = some text →
      Template.ofText (some key) text = .ok t →
      Keeps (At g (active ++ [key])) (Reported g root) (g.traced (without key others) t args l)) :
    Keeps (At g active) (Reported g root) (g.tracedCall others name args l p) := by
  refine keeps_called fun s hs => ?_
  obtain rfl := hs.current
  have hfail : ∀ cause : Cause, cause.Rendering →
      Reported g root ⟨cause, some p⟩ s ∨ Misread g name ⟨cause, some p⟩ :=
    fun cause hc => .inl (hp cause hc s hs)
  simp only [exec_bind, Session.exec_lift, exec_key, hn, exec_get]
  by_cases hc : key ∈ s.active
  · simp only [hc, ↓reduceIte]
    exact hfail (.cycle (s.active ++ [key])) trivial
  by_cases hd : g.maxDepth.atMost s.active.length = true
  · simp only [hc, hd, ↓reduceIte]
    exact hfail (.tooDeep g.maxDepth (s.active ++ [key])) trivial
  by_cases hk : key ∈ others
  · simp only [hc, hd, hk, ↓reduceIte]
    exact keeps_load hn hp (fun t text hr ht => keeps_inside (ih hk hc t text hr ht)) s hs
  · simp only [hc, hd, hk, ↓reduceIte]
    exact hfail (.notFound key) trivial

/-- The induction is on the keys that can still be called. -/
theorem keeps_traced (g : Generator) (root : Root) {active others : List String} {t : Template}
    {text : String} (hroot : ∀ key, root.key? = some key → key ∈ active)
    (hcur : root.current? g active = some (t.name, text))
    (ht : Template.ofText t.name text = .ok t) (frame : Frame) (l : Language) :
    Keeps (At g active) (Reported g root) (g.traced others t frame l) := by
  induction hn : others.length using Nat.strongRecOn
    generalizing active others t text frame l with
  | ind n ih =>
  rw [traced_eq]
  have hread := Template.readOf_of_ofText ht
  have hown : ∀ n ∈ Node.allWithin t.nodes, ∀ start ∈ n.start?,
      Render.MayFail (At g active) (Reported g root) ⟨t.name, start⟩ :=
    fun n hn start hstart cause hc s hs =>
      .rendering hs.moment hcur hc rfl ((hread n hn).start start hstart)
  have hcall : ∀ name args start, .call name args start ∈ Node.allWithin t.nodes → ∀ frame l,
      Keeps (At g active) (Reported g root) (g.tracedCall others name frame l ⟨t.name, start⟩) := by
    intro name args start hmem frame l
    obtain ⟨key, hname⟩ := TemplateName.exists_key ((hread _ hmem).name _ _ _ rfl)
    refine keeps_tracedCall hname (hown _ hmem start rfl) fun hk hne u text hr hu => ?_
    have hu' : u.name = some key := Template.name_of_ofText hu
    have hcur' : root.current? g (active ++ [key]) = some (u.name, text) :=
      hu' ▸ Root.current?_concat hroot hne hr
    subst hn
    exact ih _ (length_without_lt hk) (fun k h => List.mem_append_left _ (hroot k h)) hcur'
      (hu' ▸ hu) frame l rfl
  have hfailing : Render.Failing (g.setting t (g.tracedCall others)) (At g active)
      (Reported g root) (Node.allWithin t.nodes) := ⟨hown, g.tracedCall others, rfl, hcall⟩
  exact Render.keeps_template hfailing (Template.placed_of_ofText ht) frame l

/-- The errors of a session: the root is not found, or the error is reported where it is. -/
theorem session_error (g : Generator) (root : Root) (frame : Frame) {s : Store}
    (hs : s.cache.Consistent g.source) (h : (g.session root frame s).1 = .error e) :
    root.Unfound g e ∨ Reported g root e (g.session root frame s).2 := by
  obtain ⟨r, t, hl, ht, hr⟩ := root.exec_load g hs
  simp only [session, hl] at h ⊢
  cases hr with
  | unfound hu =>
    obtain rfl := Except.error.inj h
    exact .inl hu
  | @text name text hcur =>
    cases hu : Template.ofText name text with
    | error e' =>
      simp only [hu, Except.map] at h ⊢
      obtain rfl := Except.error.inj h
      obtain ⟨l, hp, hf⟩ := Template.faulty_of_ofText hu
      exact .inr (.reading (.root hcur) hp hf)
    | ok u =>
      simp only [hu, Except.map] at h ⊢
      obtain rfl : u.name = name := Template.name_of_ofText hu
      have hat : At g root.stack (Session.start t root.stack) := ⟨ht, rfl, List.mem_cons_self⟩
      have hroot : ∀ key, root.key? = some key → key ∈ root.stack :=
        fun key hkey => by simp [Root.stack, hkey]
      exact .inr ((keeps_traced g root hroot hcur hu frame g.language).of_error hat
        (Prod.ext h rfl))

/-- Neither the place of a parameter nor the name in a call is to blame, and no fault that reading
only guards against. -/
theorem Reported.external {s : Session} (h : Reported g root e s) :
    e.cause ≠ .parameterOutsideList ∧ (∀ f, e.cause ≠ .badName f) ∧
      ∀ f, e.cause = .parse f → ¬ f.Internal := by
  obtain ⟨cause, position⟩ := e
  cases h with
  | rendering _ _ hc _ _ =>
    refine ⟨?_, fun f => ?_, fun f => ?_⟩ <;> rintro rfl <;> exact absurd hc not_false
  | reading _ _ hf =>
    refine ⟨?_, fun f => ?_, fun f => ?_⟩ <;> rintro rfl
    · nomatch hf
    · nomatch hf
    · exact hf.not_internal

theorem exec_render_eq (g : Generator) (root : Root) (frame : Frame) {s : Store}
    (hs : s.cache.Consistent g.source) :
    let run := g.session root frame s
    exec (root.render g frame) s = (run.1, run.2.store.tell (.ofResult root.title run.1)) := by
  intro run
  obtain ⟨hrun, -⟩ := session_spec g root frame hs
  rw [Root.render_eq, exec_observed, hrun]

/-- What the tokens of a text make up does not depend on what comes after them, a fault is at one of
them and is no internal one, and in a template each parameter has its place and each call a usable
name. So no rendering fails for the place of a parameter, and none for a name but its own. -/
theorem no_internal_error :
    (∀ (name : Option String) (text : String) (ts : List Token), Token.ofText text = .ok ts →
      (∀ more, Template.ofTokens name (ts ++ more) = Template.ofTokens name ts) ∧
      (∀ l, Template.ofTokens name ts = .error l →
        ¬ l.fault.Internal ∧ ∃ t ∈ ts, l.location = t.location ∧ 1 ≤ t.location.line) ∧
      ∀ t, Template.ofTokens name ts = .ok t → Grammar.AllPlaced false t.nodes ∧
        ∀ called args start, .call called args start ∈ Node.allWithin t.nodes →
          TemplateName.fault? called = none) ∧
    ∀ (g : Generator) (root : Root) (frame : Frame) (s : Store) (e : TemplateError),
      s.cache.Consistent g.source → (exec (root.render g frame) s).1 = .error e →
      e.cause ≠ .parameterOutsideList ∧ (∀ f, e.cause = .badName f → root.Unfound g e) ∧
        ∀ f, e.cause = .parse f → ¬ f.Internal := by
  refine ⟨fun name text ts hts => ?_, fun g root frame s e hs he => ?_⟩
  · obtain ⟨hmore, hblames⟩ := Template.ofTokens_spec hts name
    refine ⟨hmore, fun l hl => ?_, fun t ht => ?_⟩
    · obtain ⟨us, stop, -, -, -, hmarks⟩ := Token.ofText_spec hts
      obtain ⟨t, ht, hloc⟩ := (hblames l hl).exists_token
      exact ⟨(hblames l hl).not_internal, t, ht, hloc, (hmarks t ht).line_pos.1⟩
    · have htext : Template.ofText name text = .ok t := Template.ofText_eq_ok.2 ⟨ts, hts, ht⟩
      exact ⟨Template.placed_of_ofText htext, fun called args start hcall =>
        (Template.readOf_of_ofText htext _ hcall).name _ _ _ rfl⟩
  · have hrun : (g.session root frame s).1 = .error e := by
      rw [← he, exec_render_eq g root frame hs]
    rcases session_error g root frame hs hrun with hu | hr
    · cases hu with
      | badName hn => simp [Root.Unfound.badName hn]
      | missing => simp
      | badTextName hn => simp [Root.Unfound.badTextName hn]
    · obtain ⟨hplace, hname, hparse⟩ := hr.external
      exact ⟨hplace, fun f hf => absurd hf (hname f), hparse⟩

/-- A parameter whose variable is unknown, an end tag without its block, and a name that cannot be
used. -/
theorem no_internal_error_unresolved :
    let text := "\x7b%parameter_list%\x7d\x7b%parameter%\x7d\x7b\x7bx\x7d\x7d" ++
      "\x7b%end_parameter%\x7d\x7b%end_parameter_list%\x7d"
    let stray := "\x7b%endif%\x7d"
    let g : Generator := ⟨[("list.tmpl", text)], Language.builtin, Language.default, none,
      Number.ofNat 80, Number.ofNat 32⟩
    let e : TemplateError := ⟨.unresolved ⟨"x", "x"⟩, some ⟨some "list.tmpl", ⟨1, 32⟩⟩⟩
    (∃ ts t, Token.ofText text = .ok ts ∧ Template.ofTokens none ts = .ok t ∧
      Grammar.AllPlaced false t.nodes) ∧
    (∃ ts l, Token.ofText stray = .ok ts ∧ Template.ofTokens none ts = .error l ∧
      ¬ l.fault.Internal) ∧
    (exec ((Root.named "list").render g []) {}).1 = .error e ∧ e.cause ≠ .parameterOutsideList ∧
    (exec ((Root.named "..").render g []) {}).1 = .error ⟨.badName (.parent ".."), none⟩ ∧
    (Root.named "..").Unfound g ⟨.badName (.parent ".."), none⟩ := by
  intro text stray g e
  have hs : ({} : Store).cache.Consistent g.source := Cache.consistent_nil _
  have htext : ((Token.ofText text).toOption.bind fun ts =>
      (Template.ofTokens none ts).toOption).isSome = true := by decide +kernel
  have hstray : ((Token.ofText stray).toOption.map fun ts =>
      (Template.ofTokens none ts).toOption.isNone) = some true := by decide +kernel
  have hlist : (exec ((Root.named "list").render g []) {}).1 = .error e := by decide +kernel
  have hname : (exec ((Root.named "..").render g []) {}).1 =
      .error ⟨.badName (.parent ".."), none⟩ := by decide +kernel
  obtain ⟨hread, hrender⟩ := no_internal_error
  refine ⟨?_, ?_, hlist, (hrender g (.named "list") [] {} e hs hlist).1, hname,
    (hrender g (.named "..") [] {} _ hs hname).2.1 _ rfl⟩
  · obtain ⟨t, ht⟩ := Option.isSome_iff_exists.1 htext
    obtain ⟨ts, hts, ht⟩ := Option.bind_eq_some_iff.1 ht
    have hts' := ok_of_toOption hts
    have ht' := ok_of_toOption ht
    exact ⟨ts, t, hts', ht', ((hread none text ts hts').2.2 t ht').1⟩
  · obtain ⟨ts, hts, hnone⟩ := Option.map_eq_some_iff.1 hstray
    have hts' := ok_of_toOption hts
    cases hl : Template.ofTokens none ts with
    | error l => exact ⟨ts, l, hts', hl, ((hread none stray ts hts').2.1 l hl).1⟩
    | ok t => simp [hl, Except.toOption] at hnone

end Generator
end CodeTemplate

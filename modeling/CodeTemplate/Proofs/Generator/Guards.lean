import Mathlib.Data.List.Chain
import CodeTemplate.Proofs.Generator.Session
import CodeTemplate.Proofs.Number.Order

/-! The two guards of a call. A stack never holds a key twice and never grows past the limit, each
call leaves it as it was, and a rendering fails by a guard exactly when a call was made that the
guard refuses. -/

namespace CodeTemplate

open CodeTemplate.Action

namespace Generator

/-- The template under one key has a call of the template under the other. -/
def Linked (g : Generator) (root : Root) (key called : String) : Prop :=
  ∃ t, root.tree? g key = some t ∧
    ∃ site ∈ Node.allCalls t.nodes, TemplateName.normalize site.template = .ok called

/-- What is true of each stack in a session. -/
structure Proper (g : Generator) (root : Root) (stack : List String) : Prop where
  nodup : stack.Nodup
  normalized : ∀ key ∈ stack, ∃ name, TemplateName.normalize name = .ok key
  linked : stack.IsChain (Linked g root)
  bounded : ∀ i, g.maxDepth.LeInt i → (stack.length : ℤ) ≤ max (root.stack.length : ℤ) i

/-- The guard refuses the call with the error. -/
def Refused (g : Generator) (c : Call) (e : TemplateError) : Prop :=
  ∃ key, TemplateName.normalize c.name = .ok key ∧ e.position = some c.position ∧
    (key ∈ c.before ∧ e.cause = .cycle (c.before ++ [key]) ∨
      key ∉ c.before ∧ g.maxDepth.LeInt c.before.length ∧
        e.cause = .tooDeep g.maxDepth (c.before ++ [key]))

/-- A result fails by a guard if and only if one of the calls is refused with that error. -/
def Explains (g : Generator) {α : Type} (r : Except TemplateError α) (calls : List Call) : Prop :=
  ∀ e : TemplateError, e.cause.Refusal → (r = .error e ↔ ∃ c ∈ calls, Refused g c e)

variable {g : Generator} {root : Root} {active : List String}

theorem Proper.push {stack : List String} (h : Proper g root stack) {name key : String}
    (hn : TemplateName.normalize name = .ok key) (hk : key ∉ stack)
    (hd : ¬ g.maxDepth.atMost stack.length = true)
    (hl : ∀ k ∈ stack.getLast?, Linked g root k key) : Proper g root (stack ++ [key]) where
  nodup := List.nodup_append.2 ⟨h.nodup, by simp, by
    rintro a ha b hb rfl
    rw [List.mem_singleton.1 hb] at ha
    exact hk ha⟩
  normalized k hm := by
    rcases List.mem_append.1 hm with hm | hm
    · exact h.normalized k hm
    · exact ⟨name, List.mem_singleton.1 hm ▸ hn⟩
  linked := h.linked.append (List.isChain_singleton key) (by simpa using hl)
  bounded i hi := by
    have := Number.lt_of_leInt hd hi
    simp only [List.length_append, List.length_singleton]
    omega

theorem Refused.refusal {c : Call} {e : TemplateError} (h : Refused g c e) : e.cause.Refusal := by
  obtain ⟨key, -, -, ⟨-, he⟩ | ⟨-, -, he⟩⟩ := h <;> simp [he, Cause.Refusal]

theorem Refused.unique {c : Call} {e e' : TemplateError} (h : Refused g c e) (h' : Refused g c e') :
    e = e' := by
  obtain ⟨cause, position⟩ := e
  obtain ⟨cause', position'⟩ := e'
  obtain ⟨key, hn, rfl, h⟩ := h
  obtain ⟨key', hn', rfl, h'⟩ := h'
  obtain rfl := Except.ok.inj (hn.symm.trans hn')
  rcases h with ⟨hk, rfl⟩ | ⟨hk, -, rfl⟩ <;> rcases h' with ⟨hk', rfl⟩ | ⟨hk', -, rfl⟩
  · rfl
  · exact absurd hk hk'
  · exact absurd hk' hk
  · rfl

section Explains

variable {α β : Type} {c : Call} {calls calls' : List Call}

theorem explains_ok (a : α) : Explains g (.ok a) [] := by
  simp [Explains]

theorem explains_error (e : TemplateError) (h : ¬ e.cause.Refusal) :
    Explains g (.error e : Except TemplateError α) [] := by
  intro e' he
  simp only [Except.error.injEq, List.not_mem_nil, false_and, exists_false, iff_false]
  rintro rfl
  exact h he

theorem Explains.not_refused {a : α} (h : Explains g (.ok a) calls) {e : TemplateError}
    (hc : c ∈ calls) : ¬ Refused g c e := by
  intro he
  simpa using (h e he.refusal).2 ⟨c, hc, he⟩

/-- Calls that led to no failure explain nothing of what comes after them. -/
theorem Explains.append {a : α} {r : Except TemplateError β} (h : Explains g (.ok a) calls)
    (h' : Explains g r calls') : Explains g r (calls ++ calls') := by
  intro e he
  rw [h' e he]
  constructor
  · rintro ⟨c, hc, hr⟩
    exact ⟨c, List.mem_append_right _ hc, hr⟩
  · rintro ⟨c, hc, hr⟩
    rcases List.mem_append.1 hc with hc | hc
    · exact absurd hr (h.not_refused hc)
    · exact ⟨c, hc, hr⟩

/-- The failure of a call that was not refused comes from the calls in it. -/
theorem Explains.concat {r : Except TemplateError α} (h : Explains g r calls)
    (hc : ∀ e, ¬ Refused g c e) : Explains g r (calls ++ [c]) := by
  intro e he
  rw [h e he]
  constructor
  · rintro ⟨d, hd, hr⟩
    exact ⟨d, List.mem_append_left _ hd, hr⟩
  · rintro ⟨d, hd, hr⟩
    rcases List.mem_append.1 hd with hd | hd
    · exact ⟨d, hd, hr⟩
    · exact absurd (List.mem_singleton.1 hd ▸ hr) (hc e)

theorem explains_refused {e : TemplateError} (h : Refused g c e) :
    Explains g (.error e : Except TemplateError α) [c] := by
  intro e' he
  simp only [Except.error.injEq, List.mem_singleton, exists_eq_left]
  exact ⟨fun h' => h' ▸ h, h.unique⟩

theorem Explains.cycle_iff {r : Except TemplateError α} (h : Explains g r calls)
    (chain : List String) (p : Option Position) :
    r = .error ⟨.cycle chain, p⟩ ↔ ∃ c ∈ calls, ∃ key, TemplateName.normalize c.name = .ok key ∧
      key ∈ c.before ∧ chain = c.before ++ [key] ∧ p = some c.position := by
  rw [h ⟨.cycle chain, p⟩ trivial]
  simp only [Refused, Cause.cycle.injEq, reduceCtorEq, and_false, or_false]
  constructor
  · rintro ⟨c, hc, key, hn, hp, hk, hchain⟩
    exact ⟨c, hc, key, hn, hk, hchain, hp⟩
  · rintro ⟨c, hc, key, hn, hk, hchain, hp⟩
    exact ⟨c, hc, key, hn, hp, hk, hchain⟩

theorem Explains.tooDeep_iff {r : Except TemplateError α} (h : Explains g r calls) (limit : Number)
    (chain : List String) (p : Option Position) :
    r = .error ⟨.tooDeep limit chain, p⟩ ↔ limit = g.maxDepth ∧
      ∃ c ∈ calls, ∃ key, TemplateName.normalize c.name = .ok key ∧ key ∉ c.before ∧
        g.maxDepth.LeInt c.before.length ∧ chain = c.before ++ [key] ∧ p = some c.position := by
  rw [h ⟨.tooDeep limit chain, p⟩ trivial]
  simp only [Refused, Cause.tooDeep.injEq, reduceCtorEq, and_false, false_or]
  constructor
  · rintro ⟨c, hc, key, hn, hp, hk, hd, hlimit, hchain⟩
    exact ⟨hlimit, c, hc, key, hn, hk, hd, hchain, hp⟩
  · rintro ⟨hlimit, c, hc, key, hn, hk, hd, hchain, hp⟩
    exact ⟨c, hc, key, hn, hp, hk, hd, hlimit, hchain⟩

end Explains

/-- What is true of a session at any time. -/
structure Sound (g : Generator) (root : Root) (s : Session) : Prop where
  consistent : s.store.cache.Consistent g.source
  head : s.moments.head? = some root.stack
  current : s.active ∈ s.moments
  proper : ∀ stack ∈ s.moments, Proper g root stack
  calls : ∀ c ∈ s.calls, c.after = c.before ∧ c.before ∈ s.moments

theorem Sound.become {s : Session} (h : Sound g root s) {stack : List String}
    (hp : Proper g root stack) : Sound g root (s.become stack) where
  consistent := h.consistent
  head := by simp [Session.become, List.head?_append, h.head]
  current := by simp [Session.become]
  proper := by
    intro k hk
    rcases List.mem_append.1 hk with hk | hk
    · exact h.proper k hk
    · exact List.mem_singleton.1 hk ▸ hp
  calls c hc := ⟨(h.calls c hc).1, List.mem_append_left _ (h.calls c hc).2⟩

/-- In a sound session with the given stack, the second computation gives what the first one gives,
the stack is as before in the end, and the calls made in between explain the result. -/
def Follows (g : Generator) (root : Root) (active : List String) {α : Type}
    (x : Action Store α) (y : Action Session α) : Prop :=
  ∀ s, s.active = active → Sound g root s → ∃ r t new, exec y s = (r, t) ∧
    exec x s.store = (r, t.store) ∧ t.active = active ∧ Sound g root t ∧
    t.calls = s.calls ++ new ∧ Explains g r new

theorem follows_bind {α β : Type} {x : Action Store α} {y : Action Session α}
    {f : α → Action Store β} {f' : α → Action Session β} (hx : Follows g root active x y)
    (hf : ∀ a, Follows g root active (f a) (f' a)) :
    Follows g root active (x >>= f) (y >>= f') := by
  intro s ha hs
  obtain ⟨r, t, new, hy, hx, hta, ht, hc, he⟩ := hx s ha hs
  cases r with
  | error e =>
    have he' : Explains g (.error e : Except TemplateError β) new := by simpa [Explains] using he
    exact ⟨_, t, new, exec_bind_error hy, exec_bind_error hx, hta, ht, hc, he'⟩
  | ok a =>
    obtain ⟨r, u, new', hy', hx', hua, hu, hc', he'⟩ := hf a t hta ht
    exact ⟨r, u, new ++ new', (exec_bind_ok hy).trans hy', (exec_bind_ok hx).trans hx', hua, hu,
      by rw [hc', hc, List.append_assoc], he.append he'⟩

def follows (g : Generator) (root : Root) (active : List String) : Congruence Store Session where
  rel := Follows g root active
  pure a s ha hs := ⟨_, s, [], rfl, rfl, ha, hs, by simp, explains_ok a⟩
  throw e h s ha hs := ⟨_, s, [], rfl, rfl, ha, hs, by simp, explains_error e h⟩
  bind := follows_bind

/-- Entering a template with a new key, when the call was let through. -/
theorem follows_inside {α : Type} {x : Action Store α} {y : Action Session α} {key : String}
    (hp : Proper g root (active ++ [key]))
    (h : Follows g root (active ++ [key]) x y) :
    Follows g root active x (Session.inside key y) := by
  rintro s rfl hs
  obtain ⟨r, t, new, hy, hx, hta, ht, hc, he⟩ :=
    h (s.become (s.active ++ [key])) rfl (hs.become hp)
  have hd : t.active.dropLast = s.active := by rw [hta, List.dropLast_concat]
  refine ⟨r, t.become s.active, new, ?_, hx, rfl, ht.become (hs.proper _ hs.current), hc, he⟩
  simp only [Session.exec_inside, hy, hd]

/-- A call is explained by itself and the calls in it. -/
theorem follows_called {α : Type} {x : Action Store α} {y : Action Session α} {name : String}
    {p : Position}
    (h : ∀ s, s.active = active → Sound g root s → ∃ r t new, exec y s = (r, t) ∧
      exec x s.store = (r, t.store) ∧ t.active = active ∧ Sound g root t ∧
      t.calls = s.calls ++ new ∧ Explains g r (new ++ [⟨name, p, active, active⟩])) :
    Follows g root active x (Session.called name p y) := by
  rintro s rfl hs
  obtain ⟨r, t, new, hy, hx, hta, ht, hc, he⟩ := h s rfl hs
  refine ⟨r, { t with calls := t.calls ++ [⟨name, p, s.active, t.active⟩] }, _, ?_, hx, hta, ?_, ?_,
    he⟩
  · simp only [Session.exec_called, hy]
  · refine ⟨ht.consistent, ht.head, ht.current, ht.proper, ?_⟩
    intro c hm
    rcases List.mem_append.1 hm with hm | hm
    · exact ht.calls c hm
    · obtain rfl := List.mem_singleton.1 hm
      exact ⟨hta, hta ▸ ht.current⟩
  · simp [hc, hta]

theorem ofText_error {name : Option String} {text : String} {e : TemplateError}
    (h : Template.ofText name text = .error e) : ¬ e.cause.Refusal := by
  simp only [Template.ofText] at h
  split at h
  · obtain rfl := Except.error.inj h
    exact not_false
  · split at h
    · obtain rfl := Except.error.inj h
      exact not_false
    · simp at h

theorem parse_error {source : Source} {key : String} {p : Option Position} {e : TemplateError}
    (h : source.parse key p = .error e) : ¬ e.cause.Refusal := by
  simp only [Source.parse] at h
  split at h
  · obtain rfl := Except.error.inj h
    exact not_false
  · exact ofText_error h

/-- What follows the loading of a template need only be followed for the tree of its key. -/
theorem follows_load {key : String} {p : Option Position} {α : Type} {f : Template → Action Store α}
    {f' : Template → Action Session α}
    (hf : ∀ t, g.source.tree? key = some t → Follows g root active (f t) (f' t)) :
    Follows g root active (g.loadKey key p >>= f) (Session.lift (g.loadKey key p) >>= f') := by
  intro s ha hs
  obtain ⟨v, hl, hv, -⟩ := exec_loadKey g key p hs.consistent
  have hs' : Sound g root { s with store := v } := { hs with consistent := hv }
  have hl' : exec (Session.lift (g.loadKey key p)) s =
      (g.source.parse key p, { s with store := v }) := by
    rw [Session.exec_lift, hl]
  cases hu : g.source.parse key p with
  | error e =>
    rw [hu] at hl hl'
    exact ⟨_, _, [], exec_bind_error hl', exec_bind_error hl, ha, hs', by simp,
      explains_error e (parse_error hu)⟩
  | ok t =>
    rw [hu] at hl hl'
    rw [exec_bind_ok hl', exec_bind_ok hl]
    exact hf t ((Source.parse_eq_ok _).1 hu) _ ha hs'

/-- A call in a template that is being rendered, when those that it enters are followed. -/
theorem follows_call {others : List String} {t : Template} {site : CallSite}
    (hroot : ∀ key, root.key? = some key → key ∈ active)
    (ht : ∀ key ∈ active.getLast?, root.tree? g key = some t)
    (hsite : site ∈ Node.allCalls t.nodes) {args : Frame} {l : Language} {p : Position}
    (ih : ∀ key ∈ others, ∀ u, root.tree? g key = some u → Follows g root (active ++ [key])
      (g.run (active ++ [key]) (without key others) u args l)
      (g.traced (without key others) u args l)) :
    Follows g root active (g.call active others site.template args l p)
      (g.tracedCall others site.template args l p) := by
  refine follows_called fun s ha hs => ?_
  subst ha
  simp only [call, exec_bind, Session.exec_lift, exec_key]
  cases hn : TemplateName.normalize site.template with
  | error f =>
    have hr : ∀ e, ¬ Refused g ⟨site.template, p, s.active, s.active⟩ e := by
      rintro e ⟨key, hkey, -⟩
      simp [hn] at hkey
    exact ⟨_, s, [], rfl, rfl, rfl, hs, by simp,
      (explains_error ⟨.badName f, some p⟩ not_false).concat hr⟩
  | ok key =>
    simp only [exec_get]
    by_cases hc : key ∈ s.active
    · simp only [hc, ↓reduceIte]
      exact ⟨_, s, [], rfl, rfl, rfl, hs, by simp,
        explains_refused ⟨key, hn, rfl, .inl ⟨hc, rfl⟩⟩⟩
    by_cases hd : g.maxDepth.atMost s.active.length = true
    · simp only [hc, hd, ↓reduceIte]
      exact ⟨_, s, [], rfl, rfl, rfl, hs, by simp, explains_refused
        ⟨key, hn, rfl, .inr ⟨hc, (Number.atMost_iff_leInt _ _).1 hd, rfl⟩⟩⟩
    have hr : ∀ e, ¬ Refused g ⟨site.template, p, s.active, s.active⟩ e := by
      rintro e ⟨key', hkey, -, h⟩
      obtain rfl := Except.ok.inj (hn.symm.trans hkey)
      rcases h with ⟨h, -⟩ | ⟨-, h, -⟩
      · exact hc h
      · exact hd ((Number.atMost_iff_leInt _ _).2 h)
    by_cases hk : key ∈ others
    · simp only [hc, hd, hk, ↓reduceIte]
      have hp : Proper g root (s.active ++ [key]) :=
        (hs.proper _ hs.current).push hn hc hd fun k hk => ⟨t, ht k hk, site, hsite, hn⟩
      have htree : root.tree? g key = g.source.tree? key :=
        Root.tree?_of_ne fun h => hc (hroot key h)
      obtain ⟨r, w, new, hy, hx, hwa, hw, hcalls, he⟩ :=
        follows_load (fun u hu => follows_inside hp (ih key hk u (htree.trans hu))) s rfl hs
      exact ⟨r, w, new, hy, hx, hwa, hw, hcalls, he.concat hr⟩
    · simp only [hc, hd, hk, ↓reduceIte]
      exact ⟨_, s, [], rfl, rfl, rfl, hs, by simp,
        (explains_error ⟨.notFound key, some p⟩ not_false).concat hr⟩

/-- The induction is on the keys that can still be called. -/
theorem follows_traced (g : Generator) (root : Root) {active others : List String}
    {t : Template} (hroot : ∀ key, root.key? = some key → key ∈ active)
    (ht : ∀ key ∈ active.getLast?, root.tree? g key = some t) (frame : Frame) (l : Language) :
    Follows g root active (g.run active others t frame l) (g.traced others t frame l) := by
  induction hn : others.length using Nat.strongRecOn generalizing active others t frame l with
  | ind n ih =>
  rw [run_eq, traced_eq]
  refine rel_template_setting (follows g root active) g t (fun site hsite args l => ?_) frame l
  refine follows_call hroot ht hsite fun key hk u hu => ?_
  subst hn
  refine ih _ (length_without_lt hk) (fun k h => List.mem_append_left _ (hroot k h)) ?_ args l rfl
  simpa using hu

/-- What loading may give: a failure that is no refusal, or a template, which is the tree under its
key if it has one. -/
def Loads (g : Generator) (root : Root) : Except TemplateError (Option String × Template) → Prop
  | .error e => ¬ e.cause.Refusal
  | .ok (key, t) => key = root.key? ∧ ∀ k ∈ key, root.tree? g k = some t

theorem tree?_of_current? {key : String} {name : Option String} {text : String} {t : Template}
    (hk : root.key? = some key) (hcur : root.current? g root.stack = some (name, text))
    (ht : Template.ofText name text = .ok t) : root.tree? g key = some t := by
  cases root with
  | named given =>
    simp only [Root.current?, Root.stack, hk, Option.toList_some, Source.last?,
      List.getLast?_singleton, Option.bind_some, Option.map_eq_some_iff, Prod.mk.injEq] at hcur
    obtain ⟨_, hr, rfl, rfl⟩ := hcur
    exact Source.tree?_eq_some_iff.2 ⟨_, hr, ht⟩
  | ofText given givenName =>
    simp only [Root.current?, ↓reduceIte, Option.some.injEq, Prod.mk.injEq] at hcur
    obtain ⟨rfl, rfl⟩ := hcur
    simp [Root.tree?, hk, ht, Except.toOption]

theorem loads_of_loaded {r : Except TemplateError (Option String × Template)}
    (h : root.Loaded g r) : Loads g root r := by
  cases h with
  | unfound hu => cases hu <;> exact not_false
  | @text name text hcur =>
    cases ht : Template.ofText name text with
    | error e => exact ofText_error ht
    | ok t => exact ⟨rfl, fun key hk => tree?_of_current? hk hcur ht⟩

theorem proper_stack (g : Generator) (root : Root) : Proper g root root.stack := by
  unfold Root.stack
  cases hk : root.key? with
  | none => exact ⟨by simp, by simp, by simp, by simp [Root.stack, hk]⟩
  | some k =>
    exact ⟨by simp, by simpa using Root.exists_normalize hk, by simp, by simp [Root.stack, hk]⟩

theorem sound_start (root : Root) {s : Store} (hs : s.cache.Consistent g.source) :
    Sound g root (Session.start s root.stack) :=
  ⟨hs, rfl, by simp [Session.start], by simpa [Session.start] using proper_stack g root,
    by simp [Session.start]⟩

/-- A session from beginning to end. -/
theorem session_spec (g : Generator) (root : Root) (frame : Frame) {s : Store}
    (hs : s.cache.Consistent g.source) :
    let run := g.session root frame s
    exec (root.load g >>= fun w => g.start w.1 w.2 frame) s = (run.1, run.2.store) ∧
      run.2.active = root.stack ∧ Sound g root run.2 ∧ Explains g run.1 run.2.calls := by
  obtain ⟨r, t, hl, ht, hr⟩ := root.exec_load g hs
  have hr' := loads_of_loaded hr
  simp only [session, hl]
  cases r with
  | error e => exact ⟨exec_bind_error hl, rfl, sound_start root ht, explains_error e hr'⟩
  | ok w =>
    obtain ⟨key, u⟩ := w
    obtain ⟨rfl, hk⟩ := hr'
    have hlast : ∀ k ∈ root.stack.getLast?, root.tree? g k = some u := by
      unfold Root.stack
      cases hkey : root.key? with
      | none => simp
      | some k => simpa using hk k hkey
    have hf : Follows g root root.stack
        (g.run root.stack (g.callable root.key? t) u frame g.language)
        (g.traced (g.callable root.key? t) u frame g.language) :=
      follows_traced g root (fun k h => by simp [Root.stack, h]) hlast frame g.language
    obtain ⟨r, v, new, hy, hx, hva, hv, hc, he⟩ := hf _ rfl (sound_start root ht)
    simp only [hy]
    refine ⟨?_, hva, hv, ?_⟩
    · rw [exec_bind_ok hl, exec_start]
      exact hx
    · rw [hc]
      exact he

/-- A rendering is its session. In it every stack is proper, and each call leaves the stack as it
was, even if it fails. The rendering fails with a cycle exactly when a call was made of a template
that is active, so a template that is only called while it is not active never leads to one; it
fails as too deep exactly when a call was made of another template at the limit. -/
theorem session_guards (g : Generator) (root : Root) (frame : Frame) {s : Store}
    (hs : s.cache.Consistent g.source) :
    let run := g.session root frame s
    exec (root.render g frame) s = (run.1, run.2.store.tell (.ofResult root.title run.1)) ∧
      run.2.moments.head? = some root.stack ∧ run.2.active = root.stack ∧
      (∀ stack ∈ run.2.moments, Proper g root stack) ∧
      (∀ c ∈ run.2.calls, c.after = c.before ∧ c.before ∈ run.2.moments) ∧
      (∀ chain p, run.1 = .error ⟨.cycle chain, p⟩ ↔
        ∃ c ∈ run.2.calls, ∃ key, TemplateName.normalize c.name = .ok key ∧
          key ∈ c.before ∧ chain = c.before ++ [key] ∧ p = some c.position) ∧
      (∀ key, (∀ c ∈ run.2.calls, TemplateName.normalize c.name = .ok key → key ∉ c.before) →
        ∀ chain p, run.1 ≠ .error ⟨.cycle (chain ++ [key]), p⟩) ∧
      ∀ limit chain p, run.1 = .error ⟨.tooDeep limit chain, p⟩ ↔ limit = g.maxDepth ∧
        ∃ c ∈ run.2.calls, ∃ key, TemplateName.normalize c.name = .ok key ∧ key ∉ c.before ∧
          g.maxDepth.LeInt c.before.length ∧ chain = c.before ++ [key] ∧
          p = some c.position := by
  intro run
  obtain ⟨hrun, hactive, hsound, hexplains⟩ := session_spec g root frame hs
  refine ⟨?_, hsound.head, hactive, hsound.proper, hsound.calls, hexplains.cycle_iff, ?_,
    hexplains.tooDeep_iff⟩
  · rw [Root.render_eq, exec_observed, hrun]
  · intro key hkey chain p h
    obtain ⟨c, hc, key', hn, hk, heq, -⟩ := (hexplains.cycle_iff _ _).1 h
    have he : key = key' := by simpa using (List.append_inj' heq rfl).2
    exact hkey c hc (he ▸ hn) (he ▸ hk)

/-- Two templates that call each other: the call of the second one is refused, and the stack is back
to what it was. -/
theorem session_guards_mutual :
    let g : Generator := ⟨[("a.tmpl", "\x7b% call_template b %\x7d"),
      ("b.tmpl", "\x7b% call_template a %\x7d")], Language.builtin, Language.default, none,
      Number.ofNat 80, Number.ofNat 32⟩
    let run := g.session (.named "a") [] {}
    run.1 = .error ⟨.cycle ["a.tmpl", "b.tmpl", "a.tmpl"], some ⟨some "b.tmpl", ⟨1, 1⟩⟩⟩ ∧
      run.2.active = (Root.named "a").stack ∧ (∀ c ∈ run.2.calls, c.after = c.before) ∧
      ∃ c ∈ run.2.calls, ∃ key, TemplateName.normalize c.name = .ok key ∧ key ∈ c.before ∧
        ["a.tmpl", "b.tmpl", "a.tmpl"] = c.before ++ [key] := by
  intro g run
  have hs : ({} : Store).cache.Consistent g.source := Cache.consistent_nil _
  have hrun : run.1 =
      .error ⟨.cycle ["a.tmpl", "b.tmpl", "a.tmpl"], some ⟨some "b.tmpl", ⟨1, 1⟩⟩⟩ := by
    decide +kernel
  obtain ⟨-, -, hactive, -, hcalls, hcycle, -⟩ := session_guards g (.named "a") [] hs
  obtain ⟨c, hc, key, hn, hk, hchain, -⟩ := (hcycle _ _).1 hrun
  exact ⟨hrun, hactive, fun c hc => (hcalls c hc).1, c, hc, key, hn, hk, hchain⟩

end Generator
end CodeTemplate

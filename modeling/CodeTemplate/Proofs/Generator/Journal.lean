import CodeTemplate.Proofs.Generator.Events

/-! Renderings with a journal of the calls that are made. It notes a call when it is made, together
with the keys that are active, and before anything is known of the template that is called. The
rendering is the same with the journal, and what it tells are the templates that the calls in the
journal load. -/

namespace CodeTemplate

open CodeTemplate.Action

/-- A call that is made while the templates with the keys are rendered, the outermost first. -/
structure Visit where
  name : String
  active : List String
  deriving DecidableEq, Repr

/-- The key of the template that the call loads: the guards let the call through, and there is a
template under the key. -/
def Visit.loaded? (g : Generator) (v : Visit) : Option String :=
  (TemplateName.normalize v.name).toOption.bind fun key =>
    if key ∈ v.active ∨ g.maxDepth.atMost v.active.length then none else g.source.has? key

/-- A store, and the calls that were made, in order. -/
structure Journal where
  store : Store
  visits : List Visit

namespace Journal

variable {α : Type}

def note (j : Journal) (v : Visit) : Journal := { j with visits := j.visits ++ [v] }

/-- A computation with the store alone. -/
def lift (x : Action Store α) : Action Journal α := fun j =>
  let (r, s) := x j.store
  (r, { j with store := s })

/-- A computation that is noted as a call when it starts. -/
def noted (v : Visit) (x : Action Journal α) : Action Journal α := fun j => x (j.note v)

theorem exec_lift (x : Action Store α) (j : Journal) :
    exec (lift x) j = ((exec x j.store).1, { j with store := (exec x j.store).2 }) := rfl

theorem exec_noted (v : Visit) (x : Action Journal α) (j : Journal) :
    exec (noted v x) j = exec x (j.note v) := rfl

end Journal

namespace Generator

open Journal

/-- Renders a template with a journal. -/
def journaled (g : Generator) (active others : List String) (t : Template) (frame : Frame)
    (l : Language) : Action Journal String :=
  let call (name : String) (args : Frame) (l : Language) (p : Position) : Action Journal String :=
    noted ⟨name, active⟩ do
      let key ← lift (key name (some p))
      let chain := active ++ [key]
      if key ∈ active then Render.fail (.cycle chain) p
      else if g.maxDepth.atMost active.length then Render.fail (.tooDeep g.maxDepth chain) p
      else if h : key ∈ others then
        have := length_without_lt h
        let t ← lift (g.loadKey key (some p))
        journaled g chain (without key others) t args l
      else Render.fail (.notFound key) p
  Render.template (g.setting t call) frame l t
termination_by others.length

/-- A call with a journal. -/
def journaledCall (g : Generator) (active others : List String) (name : String) (args : Frame)
    (l : Language) (p : Position) : Action Journal String :=
  noted ⟨name, active⟩ do
    let key ← lift (key name (some p))
    let chain := active ++ [key]
    if key ∈ active then Render.fail (.cycle chain) p
    else if g.maxDepth.atMost active.length then Render.fail (.tooDeep g.maxDepth chain) p
    else if key ∈ others then
      let t ← lift (g.loadKey key (some p))
      g.journaled chain (without key others) t args l
    else Render.fail (.notFound key) p

theorem journaled_eq (g : Generator) (active others : List String) (t : Template) (frame : Frame)
    (l : Language) :
    g.journaled active others t frame l =
      Render.template (g.setting t (g.journaledCall active others)) frame l t := by
  rw [journaled]
  rfl

/-! ### Runs -/

/-- From the one journal to the other, the templates are told that the new calls load. -/
def Advances (g : Generator) (j k : Journal) : Prop :=
  ∃ visits es, k.visits = j.visits ++ visits ∧ Tells j.store k.store es ∧
    es.map Event.parsed? = (visits.filterMap (Visit.loaded? g)).map some

variable {g : Generator} {i j k : Journal}

theorem Advances.refl (j : Journal) : Advances g j j := ⟨[], [], by simp, .refl _, rfl⟩

theorem Advances.trans (h : Advances g i j) (h' : Advances g j k) : Advances g i k := by
  obtain ⟨visits, es, hvisits, htells, hkeys⟩ := h
  obtain ⟨visits', es', hvisits', htells', hkeys'⟩ := h'
  refine ⟨visits ++ visits', es ++ es', ?_, htells.trans htells', ?_⟩
  · rw [hvisits', hvisits, List.append_assoc]
  · rw [List.map_append, hkeys, hkeys', List.filterMap_append, List.map_append]

/-- A call advances the journal by the template that it loads, if it loads one. -/
theorem advances_note {v : Visit} {s : Store} {es : List Event} (h : Tells j.store s es)
    (hkeys : es.map Event.parsed? = (v.loaded? g).toList.map some) :
    Advances g j { j.note v with store := s } := by
  refine ⟨[v], es, rfl, h, ?_⟩
  rw [hkeys]
  cases hv : v.loaded? g <;> simp [hv]

theorem advances_refused {v : Visit} (h : v.loaded? g = none) : Advances g j (j.note v) :=
  advances_note (.refl j.store) (by simp [h])

/-- With a consistent store, the second computation gives what the first one gives, and tells what
the calls load that it notes. -/
def Records (g : Generator) {α : Type} (x : Action Store α) (y : Action Journal α) : Prop :=
  ∀ j, j.store.cache.Consistent g.source → ∃ r k, exec y j = (r, k) ∧
    exec x j.store = (r, k.store) ∧ k.store.cache.Consistent g.source ∧ Advances g j k

theorem records_bind {α β : Type} {x : Action Store α} {y : Action Journal α}
    {f : α → Action Store β} {f' : α → Action Journal β} (hx : Records g x y)
    (hf : ∀ a, Records g (f a) (f' a)) : Records g (x >>= f) (y >>= f') := by
  intro j hj
  obtain ⟨r, k, hy, hx, hk, ha⟩ := hx j hj
  cases r with
  | error e => exact ⟨_, k, exec_bind_error hy, exec_bind_error hx, hk, ha⟩
  | ok a =>
    obtain ⟨r, l, hy', hx', hl, ha'⟩ := hf a k hk
    exact ⟨r, l, (exec_bind_ok hy).trans hy', (exec_bind_ok hx).trans hx', hl, ha.trans ha'⟩

def records (g : Generator) : Congruence Store Journal where
  rel := Records g
  pure _ j hj := ⟨_, j, rfl, rfl, hj, .refl j⟩
  throw _ _ j hj := ⟨_, j, rfl, rfl, hj, .refl j⟩
  bind := records_bind

/-- What follows the loading of a template is recorded together with the call that loads it. -/
theorem records_load {v : Visit} {key : String} {p : Option Position} {α : Type}
    {f : Template → Action Store α} {f' : Template → Action Journal α}
    (hv : v.loaded? g = g.source.has? key) (hf : ∀ t, Records g (f t) (f' t))
    (hj : j.store.cache.Consistent g.source) :
    ∃ r k, exec (lift (g.loadKey key p) >>= f') (j.note v) = (r, k) ∧
      exec (g.loadKey key p >>= f) j.store = (r, k.store) ∧
      k.store.cache.Consistent g.source ∧ Advances g j k := by
  obtain ⟨s, hl, hs, -⟩ := exec_loadKey g key p hj
  obtain ⟨es, htells, hkeys⟩ := tells_loadKey g key p hj
  rw [hl] at htells
  have ha : Advances g j { j.note v with store := s } := advances_note htells (hv ▸ hkeys)
  have hl' : exec (lift (g.loadKey key p)) (j.note v) =
      (g.source.parse key p, { j.note v with store := s }) := by
    rw [exec_lift]
    exact congrArg (fun r => (r.1, { j.note v with store := r.2 })) hl
  cases ht : g.source.parse key p with
  | error e =>
    rw [ht] at hl hl'
    exact ⟨_, _, exec_bind_error hl', exec_bind_error hl, hs, ha⟩
  | ok t =>
    rw [ht] at hl hl'
    obtain ⟨r, k, hy, hx, hk, ha'⟩ := hf t { j.note v with store := s } hs
    exact ⟨r, k, (exec_bind_ok hl').trans hy, (exec_bind_ok hl).trans hx, hk, ha.trans ha'⟩

/-- A call is recorded when the templates are that it enters. -/
theorem records_call {active others : List String}
    (ho : ∀ key ∈ g.source.map (·.1), key ∉ active → key ∈ others) {name : String} {args : Frame}
    {l : Language} {p : Position}
    (ih : ∀ key ∈ others, ∀ t, Records g (g.run (active ++ [key]) (without key others) t args l)
      (g.journaled (active ++ [key]) (without key others) t args l)) :
    Records g (g.call active others name args l p) (g.journaledCall active others name args l p) := by
  intro j hj
  let v : Visit := ⟨name, active⟩
  simp only [call, journaledCall, exec_noted, exec_bind, exec_lift, exec_key]
  cases hn : TemplateName.normalize name with
  | error f =>
    have hv : v.loaded? g = none := by simp [Visit.loaded?, v, hn, Except.toOption]
    exact ⟨_, j.note v, rfl, rfl, hj, advances_refused hv⟩
  | ok key =>
    have hv : v.loaded? g =
        if key ∈ active ∨ g.maxDepth.atMost active.length then none else g.source.has? key := by
      simp [Visit.loaded?, v, hn, Except.toOption]
    by_cases hc : key ∈ active
    · simp only [hc, ↓reduceIte]
      exact ⟨_, j.note v, rfl, rfl, hj, advances_refused (by simp [hv, hc])⟩
    by_cases hd : g.maxDepth.atMost active.length = true
    · simp only [hc, hd, ↓reduceIte]
      exact ⟨_, j.note v, rfl, rfl, hj, advances_refused (by simp [hv, hd])⟩
    have hv : v.loaded? g = g.source.has? key := by simp [hv, hc, hd]
    by_cases hk : key ∈ others
    · simp only [hc, hd, hk, ↓reduceIte]
      exact records_load hv (ih key hk) hj
    · simp only [hc, hd, hk, ↓reduceIte]
      -- A key that cannot be called and is not active is no key of the source.
      have hnone : g.source.has? key = none := Source.has?_of_not_mem fun h => hk (ho key h hc)
      exact ⟨_, j.note v, rfl, rfl, hj, advances_refused (hv.trans hnone)⟩

/-- The induction is on the keys that can still be called. -/
theorem records_journaled (g : Generator) {active others : List String}
    (ho : ∀ key ∈ g.source.map (·.1), key ∉ active → key ∈ others) (t : Template) (frame : Frame)
    (l : Language) :
    Records g (g.run active others t frame l) (g.journaled active others t frame l) := by
  induction hn : others.length using Nat.strongRecOn generalizing active others t frame l with
  | ind n ih =>
  rw [run_eq, journaled_eq]
  refine rel_template_setting (records g) g t (fun site _ args l => ?_) frame l
  refine records_call ho fun key hk u => ?_
  subst hn
  refine ih _ (length_without_lt hk) (fun k hs hka => ?_) u args l rfl
  simp only [List.mem_append, List.mem_singleton, not_or] at hka
  exact mem_without.2 ⟨ho k hs hka.1, hka.2⟩

end Generator

/-! ### Renderings -/

namespace Root

/-- The key of the template that is rendered, if it is a template of the source. -/
def loaded? (g : Generator) : Root → Option String
  | named name => (TemplateName.normalize name).toOption.bind g.source.has?
  | ofText _ _ => none

variable {g : Generator} {root : Root} {s : Store}

theorem tells_load (root : Root) (hs : s.cache.Consistent g.source) :
    ∃ es, Tells s (exec (root.load g) s).2 es ∧
      es.map Event.parsed? = (root.loaded? g).toList.map some := by
  cases root with
  | named name =>
    simp only [load, exec_bind, Generator.exec_key, loaded?]
    cases hn : TemplateName.normalize name with
    | error f => exact ⟨[], .refl s, rfl⟩
    | ok key =>
      obtain ⟨es, htells, hkeys⟩ := Generator.tells_loadKey g key none hs
      refine ⟨es, ?_, hkeys⟩
      simp only
      generalize exec (g.loadKey key none) s = r at htells
      obtain ⟨_ | t, u⟩ := r <;> exact htells
  | ofText text name =>
    refine ⟨[], ?_, rfl⟩
    simp only [load]
    cases Template.ofText name text with
    | error e => exact .refl s
    | ok t =>
      cases name with
      | none => exact .refl s
      | some name =>
        simp only [exec_bind, Generator.exec_key]
        cases TemplateName.normalize name <;> exact .refl s

theorem Loaded.key_eq {w : Option String × Template} {r : Except TemplateError _}
    (h : root.Loaded g r) (hr : r = .ok w) : w.1 = root.key? := by
  cases h with
  | unfound => simp at hr
  | @text name text _ =>
    cases ht : Template.ofText name text with
    | error e => simp [ht, Except.map] at hr
    | ok t =>
      obtain rfl : (root.key?, t) = w := by simpa [ht, Except.map] using hr
      rfl

end Root

namespace Generator

/-- A rendering with its journal, which starts when the template to be rendered is loaded. -/
def journal (g : Generator) (root : Root) (frame : Frame) (s : Store) :
    Except TemplateError String × Journal :=
  match exec (root.load g) s with
  | (.error e, s) => (.error e, ⟨s, []⟩)
  | (.ok (key, t), s) =>
    exec (g.journaled root.stack (g.callable key s) t frame g.language) ⟨s, []⟩

/-- The keys of the templates that a rendering loads, in order: its own, if it is a template of the
source, and those of the calls that are made. -/
def loads (g : Generator) (root : Root) (frame : Frame) (s : Store) : List String :=
  (root.loaded? g).toList ++ (g.journal root frame s).2.visits.filterMap (Visit.loaded? g)

/-- A rendering is the one with its journal. It tells what it loads. -/
theorem journal_spec (g : Generator) (root : Root) (frame : Frame) {s : Store}
    (hs : s.cache.Consistent g.source) :
    let run := g.journal root frame s
    exec (root.load g >>= fun w => g.start w.1 w.2 frame) s = (run.1, run.2.store) ∧
      ∃ es, Tells s run.2.store es ∧
        es.map Event.parsed? = (g.loads root frame s).map some := by
  obtain ⟨r, t, hl, ht, hr⟩ := root.exec_load g hs
  obtain ⟨es, htells, hkeys⟩ := root.tells_load hs
  rw [hl] at htells
  simp only [loads, journal, hl, List.map_append, ← hkeys]
  cases r with
  | error e => exact ⟨exec_bind_error hl, es, htells, by simp⟩
  | ok w =>
    obtain ⟨key, u⟩ := w
    obtain rfl : key = root.key? := hr.key_eq rfl
    have ho : ∀ k ∈ g.source.map (·.1), k ∉ root.stack → k ∈ g.callable root.key? t :=
      fun k hk hka => (mem_callable g ht).2 ⟨hk, fun h => hka (by simp [Root.stack, h])⟩
    obtain ⟨r, k, hy, hx, -, visits, es', hvisits, htells', hkeys'⟩ :=
      records_journaled g ho u frame g.language ⟨t, []⟩ ht
    simp only [hy]
    refine ⟨?_, es ++ es', htells.trans htells', ?_⟩
    · rw [exec_bind_ok hl, exec_start]
      exact hx
    · rw [List.map_append, hkeys', hvisits, List.nil_append]

end Generator
end CodeTemplate

import Mathlib.Tactic.SplitIfs
import CodeTemplate.Proofs.Generator.Call

/-! The cache shows in no result. Two generators' stores that are consistent with the source may
hold different templates; whatever is done in one gives the same in the other, and both stay
consistent and lose nothing. -/

namespace CodeTemplate
namespace Generator

open CodeTemplate.Action

/-- Computations with the same result in any two consistent stores, in which they only add. -/
def SameResult (source : Source) {α : Type} (x y : Action Store α) : Prop :=
  ∀ s s', s.cache.Consistent source → s'.cache.Consistent source →
    ∃ r t t', exec x s = (r, t) ∧ exec y s' = (r, t') ∧
      t.cache.Consistent source ∧ t'.cache.Consistent source ∧
      s.cache <+: t.cache ∧ s'.cache <+: t'.cache

theorem sameResult_bind {source : Source} {α β : Type} {x y : Action Store α}
    {f f' : α → Action Store β} (hx : SameResult source x y)
    (hf : ∀ a, SameResult source (f a) (f' a)) : SameResult source (x >>= f) (y >>= f') := by
  intro s s' hs hs'
  obtain ⟨r, t, t', hx, hy, ht, ht', hp, hp'⟩ := hx s s' hs hs'
  cases r with
  | error e => exact ⟨_, t, t', exec_bind_error hx, exec_bind_error hy, ht, ht', hp, hp'⟩
  | ok a =>
    obtain ⟨r, u, u', hx', hy', hu, hu', hq, hq'⟩ := hf a t t' ht ht'
    exact ⟨r, u, u', (exec_bind_ok hx).trans hx', (exec_bind_ok hy).trans hy', hu, hu',
      hp.trans hq, hp'.trans hq'⟩

theorem sameResult_throw {source : Source} {α : Type} (e : TemplateError) :
    SameResult source (throw e : Action Store α) (throw e) :=
  fun s s' hs hs' => ⟨.error e, s, s', rfl, rfl, hs, hs', List.prefix_rfl, List.prefix_rfl⟩

def sameResult (source : Source) : Congruence Store Store where
  rel := SameResult source
  pure a s s' hs hs' := ⟨.ok a, s, s', rfl, rfl, hs, hs', List.prefix_rfl, List.prefix_rfl⟩
  throw e _ := sameResult_throw e
  bind := sameResult_bind

theorem rel_key (R : Congruence Store Store) (name : String) (p : Option Position) :
    R.rel (key name p) (key name p) := by
  simp only [key]
  cases TemplateName.normalize name with
  | ok key => exact R.pure key
  | error f => exact R.throw _ not_false

theorem sameResult_loadKey (g : Generator) (key : String) (p : Option Position) :
    SameResult g.source (g.loadKey key p) (g.loadKey key p) := by
  intro s s' hs hs'
  obtain ⟨t, hx, ht, hp⟩ := exec_loadKey g key p hs
  obtain ⟨t', hx', ht', hp'⟩ := exec_loadKey g key p hs'
  exact ⟨_, t, t', hx, hx', ht, ht', hp, hp'⟩

/-- Only which keys can still be called matters, not how they are listed. -/
theorem sameResult_run (g : Generator) {active others others' : List String}
    (ho : ∀ k, k ∈ others ↔ k ∈ others') (t : Template) (frame : Frame) (l : Language) :
    SameResult g.source (g.run active others t frame l) (g.run active others' t frame l) := by
  induction hn : others.length using Nat.strongRecOn
    generalizing active others others' t frame l with
  | ind n ih =>
  rw [run_eq, run_eq]
  refine rel_template_setting (sameResult g.source) g t (fun site _ args l => ?_) frame l
  refine sameResult_bind (rel_key (sameResult g.source) _ _) fun key => ?_
  simp only [← ho]
  split_ifs with hc hd hk
  · exact sameResult_throw _
  · exact sameResult_throw _
  · refine sameResult_bind (sameResult_loadKey g key _) fun t => ?_
    subst hn
    exact ih _ (length_without_lt hk) (fun k => by simp [mem_without, ho]) t args l rfl
  · exact sameResult_throw _

theorem sameResult_call (g : Generator) (active others : List String) (name : String)
    (args : Frame) (l : Language) (p : Position) :
    SameResult g.source (g.call active others name args l p)
      (g.call active others name args l p) := by
  refine sameResult_bind (rel_key (sameResult g.source) _ _) fun key => ?_
  split_ifs
  · exact sameResult_throw _
  · exact sameResult_throw _
  · exact sameResult_bind (sameResult_loadKey g key _) fun t =>
      sameResult_run g (fun _ => Iff.rfl) t args l
  · exact sameResult_throw _

theorem mem_loadable (g : Generator) {s : Store} (hs : s.cache.Consistent g.source) {key : String} :
    key ∈ g.loadable s ↔ key ∈ g.source.map (·.1) := by
  simp only [loadable, List.mem_append, or_iff_right_iff_imp]
  intro h
  obtain ⟨⟨k, t⟩, hm, rfl⟩ := List.mem_map.1 h
  exact Source.mem_keys_of_tree? (hs k t hm)

/-- The keys that can be called when a rendering starts. -/
def callable (g : Generator) (root : Option String) (s : Store) : List String :=
  match root with
  | none => g.loadable s
  | some key => without key (g.loadable s)

theorem exec_start (g : Generator) (root : Option String) (t : Template) (frame : Frame)
    (s : Store) :
    exec (g.start root t frame) s =
      exec (g.run root.toList (g.callable root s) t frame g.language) s := by
  simp only [start, exec_bind, exec_get]
  rfl

theorem mem_callable (g : Generator) {root : Option String} {s : Store}
    (hs : s.cache.Consistent g.source) {key : String} :
    key ∈ g.callable root s ↔ key ∈ g.source.map (·.1) ∧ root ≠ some key := by
  cases root with
  | none => simp [callable, mem_loadable g hs]
  | some k => simp [callable, mem_loadable g hs, mem_without, eq_comm]

theorem sameResult_start (g : Generator) (root : Option String) (t : Template) (frame : Frame) :
    SameResult g.source (g.start root t frame) (g.start root t frame) := by
  intro s s' hs hs'
  rw [exec_start, exec_start]
  have ho : ∀ k, k ∈ g.callable root s ↔ k ∈ g.callable root s' := by
    intro k
    rw [mem_callable g hs, mem_callable g hs']
  exact sameResult_run g ho t frame g.language s s' hs hs'

theorem exec_observed (name : String) (x : Action Store String) (s : Store) :
    exec (observed name x) s =
      ((exec x s).1, (exec x s).2.tell (.ofResult name (exec x s).1)) := rfl

theorem sameResult_observed {source : Source} {x y : Action Store String} (name : String)
    (h : SameResult source x y) : SameResult source (observed name x) (observed name y) := by
  intro s s' hs hs'
  obtain ⟨r, t, t', hx, hy, ht, ht', hp, hp'⟩ := h s s' hs hs'
  exact ⟨r, t.tell (.ofResult name r), t'.tell (.ofResult name r), by rw [exec_observed, hx],
    by rw [exec_observed, hy], ht, ht', hp, hp'⟩

theorem sameResult_render (g : Generator) (name : String) (frame : Frame) :
    SameResult g.source (g.render name frame) (g.render name frame) :=
  sameResult_observed name <| sameResult_bind (rel_key (sameResult g.source) _ _) fun key =>
    sameResult_bind (sameResult_loadKey g key _) fun t => sameResult_start g _ t frame

theorem sameResult_renderText (g : Generator) (text : String) (frame : Frame)
    (name : Option String) :
    SameResult g.source (g.renderText text frame name) (g.renderText text frame name) := by
  refine sameResult_observed _ ?_
  cases Template.ofText name text with
  | error e => exact sameResult_throw e
  | ok t =>
    cases name with
    | none => exact sameResult_start g none t frame
    | some name =>
      exact sameResult_bind (rel_key (sameResult g.source) _ _) fun key =>
        sameResult_start g (some key) t frame

theorem sameResult_load (g : Generator) (name : String) (p : Option Position) :
    SameResult g.source (g.load name p) (g.load name p) :=
  sameResult_bind (rel_key (sameResult g.source) _ _) fun key => sameResult_loadKey g key p

/-- What a generator can be asked to do. -/
inductive Task where
  | parse (name : String)
  | render (name : String) (frame : Frame)
  | renderText (text : String) (frame : Frame) (name : Option String)
  | renderAll (jobs : List (String × Frame))

inductive Answer where
  | template (r : Except TemplateError Template)
  | text (r : Except TemplateError String)
  | texts (rs : List (Except TemplateError String))

/-- The answer to a task and the store after it. -/
def perform (g : Generator) (task : Task) (s : Store) : Answer × Store :=
  match task with
  | .parse name => (.template (exec (g.load name none) s).1, (exec (g.load name none) s).2)
  | .render name frame => (.text (exec (g.render name frame) s).1, (exec (g.render name frame) s).2)
  | .renderText text frame name =>
    (.text (exec (g.renderText text frame name) s).1, (exec (g.renderText text frame name) s).2)
  | .renderAll jobs => (.texts ((g.renderAll jobs).run s).1, ((g.renderAll jobs).run s).2)

/-- The store after tasks of several generators, one after the other. -/
def performAll (tasks : List (Generator × Task)) (s : Store) : Store :=
  tasks.foldl (fun s w => (w.1.perform w.2 s).2) s

theorem run_renderAll_cons (g : Generator) (name : String) (frame : Frame)
    (jobs : List (String × Frame)) (s : Store) :
    (g.renderAll ((name, frame) :: jobs)).run s =
      let r := exec (g.render name frame) s
      let rs := (g.renderAll jobs).run r.2
      (r.1 :: rs.1, rs.2) := by
  simp only [renderAll, List.mapM_cons]
  rfl

/-- A batch gives for each job what the job gives by itself, in any consistent store. -/
theorem renderAll_spec (g : Generator) (jobs : List (String × Frame)) {s s' : Store}
    (hs : s.cache.Consistent g.source) (hs' : s'.cache.Consistent g.source) :
    ((g.renderAll jobs).run s).1 = jobs.map (fun job => (exec (g.render job.1 job.2) s').1) ∧
      ((g.renderAll jobs).run s).2.cache.Consistent g.source ∧
      s.cache <+: ((g.renderAll jobs).run s).2.cache := by
  induction jobs generalizing s with
  | nil => exact ⟨rfl, hs, List.prefix_rfl⟩
  | cons job jobs ih =>
    obtain ⟨r, t, t', hx, hx', ht, -, hp, -⟩ := sameResult_render g job.1 job.2 s s' hs hs'
    obtain ⟨hr, hc, hq⟩ := ih ht
    rw [run_renderAll_cons, hx]
    exact ⟨by simp [hr, hx'], hc, hp.trans hq⟩

theorem perform_spec (g : Generator) (task : Task) {s s' : Store}
    (hs : s.cache.Consistent g.source) (hs' : s'.cache.Consistent g.source) :
    (g.perform task s).1 = (g.perform task s').1 ∧
      (g.perform task s).2.cache.Consistent g.source ∧ s.cache <+: (g.perform task s).2.cache := by
  have single : ∀ {α : Type} {x : Action Store α} (f : Except TemplateError α → Answer),
      SameResult g.source x x → f (exec x s).1 = f (exec x s').1 ∧
        (exec x s).2.cache.Consistent g.source ∧ s.cache <+: (exec x s).2.cache := by
    intro α x f hx
    obtain ⟨r, t, t', hx, hx', ht, -, hp, -⟩ := hx s s' hs hs'
    rw [hx, hx']
    exact ⟨rfl, ht, hp⟩
  cases task with
  | parse name => exact single .template (sameResult_load g name none)
  | render name frame => exact single .text (sameResult_render g name frame)
  | renderText text frame name => exact single .text (sameResult_renderText g text frame name)
  | renderAll jobs =>
    obtain ⟨hr, hc, hp⟩ := renderAll_spec g jobs hs hs'
    exact ⟨congrArg Answer.texts (hr.trans (renderAll_spec g jobs hs' hs').1.symm), hc, hp⟩

theorem performAll_consistent {source : Source} {tasks : List (Generator × Task)}
    (ht : ∀ w ∈ tasks, w.1.source = source) {s : Store} (hs : s.cache.Consistent source) :
    (performAll tasks s).cache.Consistent source := by
  induction tasks generalizing s with
  | nil => exact hs
  | cons w tasks ih =>
    have hw := ht w (by simp)
    subst hw
    exact ih (fun v hv => ht v (by simp [hv])) (perform_spec w.1 w.2 hs hs).2.1

/-- Whatever generators on one source have done before with one cache, the next task keeps what is
in the cache and adds only trees of texts in the source; its answer is that of an empty cache; and
each job of a batch gives what it gives alone. -/
theorem perform_after_tasks (g : Generator) (task : Task) {before : List (Generator × Task)}
    (hb : ∀ w ∈ before, w.1.source = g.source) {s : Store} (hs : s.cache.Consistent g.source) :
    let found := performAll before s
    let after := (g.perform task found).2
    after.cache.Consistent g.source ∧ found.cache <+: after.cache ∧
      (∀ key ∈ after.cache.map (·.1), key ∉ found.cache.map (·.1) → ∃ text t,
        g.source.read? key = some text ∧ Template.ofText (some key) text = .ok t) ∧
      (g.perform task found).1 = (g.perform task { found with cache := [] }).1 ∧
      ∀ jobs, task = .renderAll jobs → (g.perform task found).1 =
        .texts (jobs.map fun job => (exec (g.render job.1 job.2) found).1) := by
  intro found after
  have hf : found.cache.Consistent g.source := performAll_consistent hb hs
  have he : ({ found with cache := [] } : Store).cache.Consistent g.source := Cache.consistent_nil _
  obtain ⟨hr, hc, hp⟩ := perform_spec g task hf he
  refine ⟨hc, hp, fun key hk _ => ?_, hr, ?_⟩
  · obtain ⟨⟨k, t⟩, hm, rfl⟩ := List.mem_map.1 hk
    obtain ⟨text, hread, ht⟩ := Source.tree?_eq_some_iff.1 (hc k t hm)
    exact ⟨text, t, hread, ht⟩
  · rintro jobs rfl
    exact congrArg Answer.texts (renderAll_spec g jobs hf hf).1

/-- A batch of which one job calls a template and another one fails, after the first was parsed. -/
theorem perform_after_tasks_batch :
    let g : Generator := ⟨[("page.tmpl", "\x7b% call_template item %\x7d"), ("item.tmpl", "x")],
      Language.builtin, Language.default, none, Number.ofNat 80, Number.ofNat 32⟩
    let found := performAll [(g, .parse "page")] {}
    let jobs : List (String × Frame) := [("page", []), ("missing", []), ("item", [])]
    (∀ w ∈ [(g, Task.parse "page")], w.1.source = g.source) ∧ Cache.Consistent g.source [] ∧
      (g.perform (.renderAll jobs) found).1 =
        .texts (jobs.map fun job => (exec (g.render job.1 job.2) found).1) := by
  intro g found jobs
  have hb : ∀ w ∈ [(g, Task.parse "page")], w.1.source = g.source := by simp
  have hs : Cache.Consistent g.source [] := Cache.consistent_nil _
  exact ⟨hb, hs, (perform_after_tasks g (.renderAll jobs) (s := {}) hb hs).2.2.2.2 jobs rfl⟩

end Generator
end CodeTemplate

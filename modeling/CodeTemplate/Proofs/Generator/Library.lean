import CodeTemplate.Proofs.Generator.Naming
import CodeTemplate.Proofs.Render.Success
import CodeTemplate.Proofs.Render.Typing

/-! Libraries of templates that fit their shapes and call each other without a cycle: rendering any
of them succeeds. -/

namespace CodeTemplate

/-- The keys of templates with what these need. A template may call those after it. -/
abbrev Library := List (String × Needs)

namespace Library

/-- What the template of that name needs. -/
def needs (lib : Library) (name : String) : Option Needs :=
  match TemplateName.normalize name with
  | .ok key => lib.lookup key
  | .error _ => none

/-- What the templates before those of the library can count on. -/
def surroundings (language : String → Bool) (lib : Library) : Surroundings := ⟨language, lib.needs⟩

/-- Whether each template fits what it is given, where all of `language` are languages. -/
def fits (source : Source) (language : String → Bool) : Library → Bool
  | [] => true
  | (key, needs) :: rest =>
    (rest.lookup key).isNone && fits source language rest &&
      (source.tree? key).any fun t =>
        Node.allFit (surroundings language rest) (.ofNeeds needs) false t.nodes

theorem fits_cons {source : Source} {language : String → Bool} {key : String} {needs : Needs}
    {rest : Library} (h : fits source language ((key, needs) :: rest) = true) :
    rest.lookup key = none ∧ fits source language rest = true ∧ ∃ t, source.tree? key = some t ∧
      Node.allFit (surroundings language rest) (.ofNeeds needs) false t.nodes = true := by
  simp only [fits, Bool.and_eq_true, Option.isNone_iff_eq_none, Option.any_eq_true] at h
  exact ⟨h.1.1, h.1.2, h.2⟩

/-- A template of the library fits where those after it can be called. -/
theorem exists_rest {source : Source} {language : String → Bool} {lib : Library}
    (h : lib.fits source language = true) {key : String} {needs : Needs}
    (hk : lib.lookup key = some needs) :
    ∃ (rest : Library) (t : Template), rest.fits source language = true ∧ rest.length < lib.length ∧
      (∀ k, rest.lookup k ≠ none → lib.lookup k ≠ none ∧ k ≠ key) ∧ source.tree? key = some t ∧
      Node.allFit (surroundings language rest) (.ofNeeds needs) false t.nodes = true := by
  induction lib with
  | nil => simp at hk
  | cons entry lib ih =>
    obtain ⟨first, needs'⟩ := entry
    obtain ⟨hnone, hrest, t, ht, hfit⟩ := fits_cons h
    by_cases heq : key = first
    · simp only [heq, List.lookup_cons_self, Option.some.injEq] at hk
      subst heq hk
      refine ⟨lib, t, hrest, Nat.lt_succ_self _, fun k hl => ⟨?_, ?_⟩, ht, hfit⟩
      · by_cases hkey : k = key
        · simp [hkey]
        · simpa [List.lookup_cons, beq_eq_false_iff_ne.2 hkey] using hl
      · rintro rfl
        exact hl hnone
    · rw [List.lookup_cons, beq_eq_false_iff_ne.2 heq] at hk
      obtain ⟨rest, t, hfits, hlen, hkeys, ht, hfit⟩ := ih hrest hk
      refine ⟨rest, t, hfits, Nat.lt_succ_of_lt hlen, fun k hl => ⟨?_, (hkeys k hl).2⟩, ht, hfit⟩
      by_cases hkey : k = first
      · simp [hkey]
      · simpa [List.lookup_cons, beq_eq_false_iff_ne.2 hkey] using (hkeys k hl).1

end Library

namespace Generator

open CodeTemplate.Action Library

variable {g : Generator} {language : String → Bool}

/-- The cache holds only trees of texts in the source. -/
def Ready (g : Generator) (s : Store) : Prop := s.cache.Consistent g.source

theorem succeeds_loadKey {key : String} {t : Template} (h : g.source.tree? key = some t)
    {p : Option Position} {α : Type} {f : Template → Action Store α}
    (hf : Succeeds g.Ready (f t)) : Succeeds g.Ready (g.loadKey key p >>= f) := by
  intro s hs
  obtain ⟨s', hload, hs', -⟩ := exec_loadKey g key p hs
  rw [(Source.parse_eq_ok p).2 h] at hload
  rw [exec_bind_ok hload]
  exact hf s' hs'

theorem succeeds_run {lib : Library} (hl : ∀ name, language name = true →
      ∃ l, g.languages.find? name = some l) {active others : List String} {t : Template}
    {needs : Needs} {frame : Frame}
    (hcall : ∀ name needs, lib.needs name = some needs → ∀ args : Frame, args.Meets needs →
      ∀ l p, Succeeds g.Ready (g.call active others name args l p))
    (ht : Node.allFit (surroundings language lib) (.ofNeeds needs) false t.nodes = true)
    (hm : frame.Meets needs) (l : Language) : Succeeds g.Ready (g.run active others t frame l) := by
  rw [run_eq]
  exact Render.succeeds_template ⟨hl, _, rfl, hcall⟩ ht hm l

/-- The induction is on the library: a template that is called leaves those after it to be called,
which are then neither active nor too deep. -/
theorem succeeds_call (hl : ∀ name, language name = true → ∃ l, g.languages.find? name = some l)
    {lib : Library} (h : lib.fits g.source language = true) {active others : List String}
    (hactive : ∀ k, lib.lookup k ≠ none → k ∉ active ∧ k ∈ others)
    (hdepth : ∀ n < active.length + lib.length, g.maxDepth.atMost n = false)
    {name : String} {needs : Needs} (hn : lib.needs name = some needs) {args : Frame}
    (hm : args.Meets needs) (l : Language) (p : Position) :
    Succeeds g.Ready (g.call active others name args l p) := by
  induction hlen : lib.length using Nat.strongRecOn
    generalizing lib active others name needs args l p with
  | ind n ih =>
  subst hlen
  simp only [Library.needs] at hn
  split at hn
  · next key hkey =>
    obtain ⟨rest, t, hfits, hless, hkeys, ht, hfit⟩ := exists_rest h hn
    obtain ⟨hout, hin⟩ := hactive key (by simp [hn])
    have hd : g.maxDepth.atMost active.length = false := hdepth _ (by omega)
    simp only [call, Generator.key, hkey, pure_bind, hout, hin, hd, ↓reduceIte, Bool.false_eq_true]
    refine succeeds_loadKey ht (succeeds_run hl (fun name needs hn args hm l p => ?_) hfit hm l)
    refine ih rest.length hless hfits (fun k hk => ?_) (fun n hlt => ?_) hn hm l p rfl
    · obtain ⟨hlib, hne⟩ := hkeys k hk
      obtain ⟨hout, hin⟩ := hactive k hlib
      exact ⟨by simp [hout, hne], mem_without.2 ⟨hin, hne⟩⟩
    · simp only [List.length_append, List.length_singleton] at hlt
      exact hdepth n (by omega)
  · simp at hn

theorem succeeds_observed {name : String} {x : Action Store String} (h : Succeeds g.Ready x) :
    Succeeds g.Ready (observed name x) := by
  intro s hs
  obtain ⟨text, t, hx, ht⟩ := h.exists_ok hs
  rw [exec_observed, hx]
  exact ht

/-- Rendering a template of the library with the bindings that it needs succeeds. -/
theorem succeeds_render (hl : ∀ name, language name = true → ∃ l, g.languages.find? name = some l)
    {lib : Library} (h : lib.fits g.source language = true)
    (hdepth : ∀ n < lib.length, g.maxDepth.atMost n = false) {name : String} {needs : Needs}
    (hn : lib.needs name = some needs) {frame : Frame} (hm : frame.Meets needs) :
    Succeeds g.Ready (g.render name frame) := by
  simp only [Library.needs] at hn
  split at hn
  · next key hkey =>
    obtain ⟨rest, t, hfits, hless, hkeys, ht, hfit⟩ := exists_rest h hn
    refine succeeds_observed ?_
    simp only [Generator.key, hkey, pure_bind]
    refine succeeds_loadKey ht fun s hs => ?_
    rw [exec_start]
    refine succeeds_run hl (fun name needs hn args hm l p => ?_) hfit hm g.language s hs
    refine succeeds_call hl hfits (fun k hk => ?_) (fun n hlt => ?_) hn hm l p
    · have hne : k ≠ key := (hkeys k hk).2
      obtain ⟨needs', hk⟩ := Option.ne_none_iff_exists'.1 hk
      obtain ⟨-, t', -, -, -, ht', -⟩ := exists_rest hfits hk
      have hsource : k ∈ g.source.map (·.1) := Source.mem_keys_of_tree? ht'
      exact ⟨by simp [hne], (mem_callable g hs).2 ⟨hsource, by simp [hne.symm]⟩⟩
    · simp only [Option.toList_some, List.length_singleton] at hlt
      exact hdepth n (by omega)
  · simp at hn

/-! ### Renderings that give a text -/

theorem keeps_of_sameResult {α : Type} {x : Action Store α} (h : SameResult g.source x x) :
    Keeps g.Ready (fun _ _ => True) x := by
  intro s hs
  obtain ⟨r, t, _, hx, -, ht, -⟩ := h s s hs hs
  rw [hx]
  cases r with
  | error e => trivial
  | ok a => exact ht

theorem steady_setting (g : Generator) (t : Template) (active others : List String) :
    Render.Steady (g.setting t (g.call active others)) g.Ready := by
  intro n s inList l
  apply keeps_of_sameResult
  refine Render.rel_node n (R := sameResult g.source) ⟨rfl, rfl, rfl, rfl, Iff.rfl, ?_⟩ s inList l
  rintro _ _ ⟨⟩ ⟨⟩ site - args l
  exact sameResult_call g active others site.template args l _

theorem mayGive_of_run {active others : List String} {t : Template} {frame : Frame} {l : Language}
    {s s' : Store} {text : String} (hs : g.Ready s)
    (h : exec (g.run active others t frame l) s = (.ok text, s')) :
    ∃ out, MayGive g.Ready (Render.nodes (g.setting t (g.call active others)) [frame] false l
      t.nodes) out := by
  rw [run_eq, Render.template] at h
  have hgive : MayGive g.Ready _ text := ⟨s, s', hs, h⟩
  obtain ⟨out, hout, -⟩ := hgive.bind ((steady_setting g t active others).nodes _ _ _ _)
  exact ⟨out, hout⟩

/-- A rendering by name that gives a text has rendered the nodes of the template. -/
theorem mayGive_of_render {name key : String} (hkey : TemplateName.normalize name = .ok key)
    {t : Template} (ht : g.source.tree? key = some t) {frame : Frame} {s : Store} (hs : g.Ready s)
    {text : String} (h : (exec (g.render name frame) s).1 = .ok text) :
    ∃ active others out, MayGive g.Ready (Render.nodes (g.setting t (g.call active others)) [frame]
      false g.language t.nodes) out := by
  obtain ⟨source, hread, htext⟩ := Source.tree?_eq_some_iff.1 ht
  obtain ⟨u, hu, hrender⟩ := exec_render_of_read frame hs hkey hread
  rw [hrender, htext] at h
  have hstart : exec (g.start (some key) t frame) u = (.ok text, _) := Prod.ext h rfl
  rw [exec_start] at hstart
  exact ⟨_, _, mayGive_of_run hu hstart⟩

end Generator
end CodeTemplate

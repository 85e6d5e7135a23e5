import Mathlib.Data.List.Induction
import CodeTemplate.Proofs.Generator.Session

/-! What loading tells. A template is told to be cached exactly if its key is in the cache, where it
stays; so of all the events since the cache was empty, the first one of each key is the only one
that is not cached. -/

namespace CodeTemplate

open CodeTemplate.Action

/-! ### Events -/

/-- The key of a template that was loaded. -/
def Event.parsed? : Event → Option String
  | .parsed key _ => some key
  | _ => none

/-- Each template is told to be cached if and only if it is one of the known ones or was told
before. -/
def Flagged (known : List String) : List Event → Prop
  | [] => True
  | e :: es => (∀ key cached, e = .parsed key cached → (cached = true ↔ key ∈ known)) ∧
      Flagged (known ++ e.parsed?.toList) es

variable {known known' : List String} {es fs : List Event} {key : String}

theorem Flagged.congr (h : ∀ k, k ∈ known ↔ k ∈ known') (he : Flagged known es) :
    Flagged known' es := by
  induction es generalizing known known' with
  | nil => exact trivial
  | cons e es ih =>
    refine ⟨fun k cached hk => by rw [← h, he.1 k cached hk], ih (fun k => ?_) he.2⟩
    rw [List.mem_append, List.mem_append, h]

theorem flagged_append : Flagged known (es ++ fs) ↔
    Flagged known es ∧ Flagged (known ++ es.filterMap Event.parsed?) fs := by
  induction es generalizing known with
  | nil => simp [Flagged]
  | cons e es ih =>
    have hkeys : (e :: es).filterMap Event.parsed? =
        e.parsed?.toList ++ es.filterMap Event.parsed? := by
      cases h : e.parsed? <;> simp [h]
    rw [List.cons_append, Flagged, Flagged, ih, hkeys, List.append_assoc, and_assoc]

/-- The template of a key is parsed at most once, before it is taken from the cache. -/
def ParsedOnce (es : List Event) : Prop :=
  ∀ key, es.count (.parsed key false) ≤ 1 ∧
    ∀ before after, es = before ++ .parsed key true :: after → .parsed key false ∈ before

/-- The first event of a key is not cached. -/
theorem Flagged.mem_of_parsed (h : Flagged [] es) (hk : key ∈ es.filterMap Event.parsed?) :
    .parsed key false ∈ es := by
  induction es using List.reverseRecOn with
  | nil => simp at hk
  | append_singleton es e ih =>
    obtain ⟨hes, he, -⟩ := flagged_append.1 h
    rw [List.nil_append] at he
    have hbefore : key ∈ es.filterMap Event.parsed? → .parsed key false ∈ es ++ [e] :=
      fun hk => List.mem_append_left _ (ih hes hk)
    rw [List.filterMap_append, List.mem_append] at hk
    rcases hk with hk | hk
    · exact hbefore hk
    · cases e with
      | parsed k cached =>
        obtain rfl : key = k := by simpa [Event.parsed?] using hk
        cases cached with
        | true => exact hbefore ((he key true rfl).1 rfl)
        | false => simp
      | rendered | failed => simp [Event.parsed?] at hk

theorem Flagged.parsedOnce (h : Flagged [] es) : ParsedOnce es := by
  refine fun key => ⟨?_, fun before after heq => ?_⟩
  · induction es using List.reverseRecOn with
    | nil => simp
    | append_singleton es e ih =>
      obtain ⟨hes, he, -⟩ := flagged_append.1 h
      by_cases hlast : e = .parsed key false
      · have hnew : key ∉ es.filterMap Event.parsed? := by
          simpa using (he key false hlast).not
        have hnone : .parsed key false ∉ es := fun hm =>
          hnew (List.mem_filterMap.2 ⟨_, hm, rfl⟩)
        rw [List.count_append, List.count_eq_zero.2 hnone, hlast]
        simp
      · rw [List.count_append, List.count_singleton]
        simpa [hlast] using ih hes
  · rw [heq] at h
    obtain ⟨hbefore, htrue, -⟩ := flagged_append.1 h
    exact hbefore.mem_of_parsed ((htrue key true rfl).1 rfl)

/-! ### Stores -/

/-- The keys of the templates that are kept. -/
def Store.keys (s : Store) : List String := s.cache.map (·.1)

/-- From the one store to the other the events are told, as is right for what is kept, and each
template that is told is kept. -/
structure Tells (s t : Store) (es : List Event) : Prop where
  events : t.events = s.events ++ es
  flagged : Flagged s.keys es
  keys : ∀ key, key ∈ t.keys ↔ key ∈ s.keys ++ es.filterMap Event.parsed?

variable {s t u : Store}

theorem Tells.refl (s : Store) : Tells s s [] := ⟨by simp, trivial, by simp⟩

theorem Tells.trans (h : Tells s t es) (h' : Tells t u fs) : Tells s u (es ++ fs) where
  events := by rw [h'.events, h.events, List.append_assoc]
  flagged := flagged_append.2 ⟨h.flagged, h'.flagged.congr h.keys⟩
  keys key := by
    rw [h'.keys, List.mem_append, h.keys, List.filterMap_append, ← List.append_assoc,
      ← List.mem_append]

theorem Tells.tell (h : Tells s t es) {e : Event} (he : e.parsed? = none) :
    Tells s (t.tell e) (es ++ [e]) := by
  refine h.trans ⟨rfl, ⟨?_, trivial⟩, fun key => by simp [Store.tell, Store.keys, he]⟩
  rintro key cached rfl
  simp [Event.parsed?] at he

namespace Source

/-- The key, if there is a template under it. -/
def has? (source : Source) (key : String) : Option String := (source.tree? key).map fun _ => key

variable {source : Source} {p : Option Position}

theorem has?_of_parse_ok {t : Template} (h : source.parse key p = .ok t) :
    source.has? key = some key := by
  rw [has?, (parse_eq_ok p).1 h, Option.map_some]

theorem has?_of_parse_error {e : TemplateError} (h : source.parse key p = .error e) :
    source.has? key = none := by
  rw [has?, Option.map_eq_none_iff, Option.eq_none_iff_forall_ne_some]
  intro t ht
  simp [(parse_eq_ok p).2 ht] at h

theorem has?_of_not_mem (h : key ∉ source.map (·.1)) : source.has? key = none := by
  rw [has?, Option.map_eq_none_iff, Option.eq_none_iff_forall_ne_some]
  exact fun t ht => h (mem_keys_of_tree? ht)

end Source

namespace Generator

variable {g : Generator} {p : Option Position} {tree : Template}

theorem exec_loadKey_cached (h : s.cache.lookup key = some tree) :
    exec (g.loadKey key p) s = (.ok tree, s.tell (.parsed key true)) := by
  simp only [loadKey, exec_bind, exec_get, h]
  rfl

theorem exec_loadKey_parsed (h : s.cache.lookup key = none)
    (ht : g.source.tree? key = some tree) :
    exec (g.loadKey key p) s =
      (.ok tree, Store.tell ⟨s.cache ++ [(key, tree)], s.events⟩ (.parsed key false)) := by
  obtain ⟨text, hr, hx⟩ := Source.tree?_eq_some_iff.1 ht
  simp only [loadKey, exec_bind, exec_get, h, hr, hx]
  rw [← setKey_of_lookup_none h]
  rfl

theorem exec_loadKey_missing (h : s.cache.lookup key = none) (ht : g.source.tree? key = none) :
    exec (g.loadKey key p) s = (g.source.parse key p, s) := by
  simp only [loadKey, exec_bind, exec_get, h, Source.parse]
  cases hr : g.source.read? key with
  | none => rfl
  | some text =>
    simp only
    cases hx : Template.ofText (some key) text with
    | error e => rfl
    | ok tree => simp [Source.tree?, hr, hx, Except.toOption] at ht

/-- Loading tells the key of the template, if there is one. -/
theorem tells_loadKey (g : Generator) (key : String) (p : Option Position)
    (hs : s.cache.Consistent g.source) :
    ∃ es, Tells s (exec (g.loadKey key p) s).2 es ∧
      es.map Event.parsed? = (g.source.has? key).toList.map some := by
  cases hc : s.cache.lookup key with
  | some tree =>
    have hm := mem_of_lookup hc
    have hkey : key ∈ s.keys := List.mem_map_of_mem hm
    have hhas : g.source.has? key = some key := by simp [Source.has?, hs key tree hm]
    rw [exec_loadKey_cached hc, hhas]
    refine ⟨[.parsed key true], ⟨rfl, ⟨?_, trivial⟩, fun k => ⟨List.mem_append_left _, ?_⟩⟩,
      rfl⟩
    · rintro _ _ ⟨⟩
      exact iff_of_true rfl hkey
    · intro hk
      rcases List.mem_append.1 hk with hk | hk
      · exact hk
      · obtain rfl : k = key := by simpa [Event.parsed?] using hk
        exact hkey
  | none =>
    cases ht : g.source.tree? key with
    | none =>
      rw [exec_loadKey_missing hc ht]
      exact ⟨[], .refl s, by simp [Source.has?, ht]⟩
    | some tree =>
      have hkey : key ∉ s.keys := by
        intro hk
        obtain ⟨kept, hm, heq⟩ := List.mem_map.1 hk
        simpa [heq] using List.lookup_eq_none_iff.1 hc kept hm
      rw [exec_loadKey_parsed hc ht, Source.has?, ht]
      refine ⟨[.parsed key false], ⟨rfl, ⟨?_, trivial⟩, fun k => ?_⟩, rfl⟩
      · rintro _ _ ⟨⟩
        exact iff_of_false Bool.false_ne_true hkey
      · simp [Store.tell, Store.keys, Event.parsed?]

end Generator
end CodeTemplate

import Mathlib.Data.Finset.Card
import CodeTemplate.Proofs.Generator.Session

/-! How deep calls nest. In a rendering that enters whatever is found under a key, with no list of
the keys that can still be called, calls are unrolled up to some depth. A depth that is greater than
the number of keys is never used up, since no key is active twice, and the rendering is the one that
passes the keys down. -/

namespace CodeTemplate
namespace Generator

open CodeTemplate.Action Session

/-- How a call is answered in a session. -/
abbrev Caller := String → Frame → Language → Position → Action Session String

/-- A call in which at most `n` calls are nested, itself among them. `beyond` answers a call that is
nested more deeply. -/
def nestedCall (g : Generator) (beyond : Caller) : Nat → Caller
  | 0 => beyond
  | n + 1 => fun name args l p => do
    let key ← lift (key name (some p))
    let active := (← get).active
    if key ∈ active then Render.fail (.cycle (active ++ [key])) p
    else if g.maxDepth.atMost active.length then
      Render.fail (.tooDeep g.maxDepth (active ++ [key])) p
    else
      let t ← lift (g.loadKey key (some p))
      inside key (Render.template (g.setting t (nestedCall g beyond n)) args l t)

/-- A rendering in which at most `n` calls are nested. -/
def nested (g : Generator) (beyond : Caller) (n : Nat) (root : Root) (frame : Frame) (s : Store) :
    Except TemplateError String × Session :=
  match exec (root.load g) s with
  | (.error e, s) => (.error e, Session.start s [])
  | (.ok (key, t), s) =>
    exec (Render.template (g.setting t (g.nestedCall beyond n)) frame g.language t)
      (Session.start s key.toList)

/-- Loading finds nothing new: what can be loaded after it could be loaded before. -/
theorem loadable_exec_loadKey (g : Generator) (key : String) (p : Option Position) (s : Store) :
    g.loadable (exec (g.loadKey key p) s).2 ⊆ g.loadable s := by
  intro k hk
  simp only [loadKey, exec_bind, exec_get] at hk
  cases hc : s.cache.lookup key with
  | some t =>
    rw [hc] at hk
    exact hk
  | none =>
    rw [hc] at hk
    cases hr : g.source.read? key with
    | none =>
      rw [hr] at hk
      exact hk
    | some text =>
      rw [hr] at hk
      cases ht : Template.ofText (some key) text with
      | error e =>
        simp only [ht] at hk
        exact hk
      | ok t =>
        simp only [ht] at hk
        have hkey : key ∈ g.source.map (·.1) := mem_keys_of_lookup hr
        have hk' : k ∈ (setKey key t s.cache).map (·.1) ++ g.source.map (·.1) := hk
        rw [List.mem_append, mem_keys_setKey] at hk'
        rw [loadable, List.mem_append]
        rcases hk' with (rfl | hk') | hk'
        · exact .inr hkey
        · exact .inl hk'
        · exact .inr hk'

theorem exec_loadKey_of_not_mem (g : Generator) {key : String} (p : Option Position) {s : Store}
    (h : key ∉ g.loadable s) : exec (g.loadKey key p) s = (.error ⟨.notFound key, p⟩, s) := by
  rw [loadable, List.mem_append, not_or] at h
  have hc : s.cache.lookup key = none := by
    by_contra hne
    obtain ⟨t, ht⟩ := Option.ne_none_iff_exists'.1 hne
    exact h.1 (mem_keys_of_lookup ht)
  have hr : g.source.read? key = none := by
    by_contra hne
    obtain ⟨text, ht⟩ := Option.ne_none_iff_exists'.1 hne
    exact h.2 (mem_keys_of_lookup ht)
  simp only [loadKey, exec_bind, exec_get, hc, hr]
  rfl

/-- What is true of a session in which only the keys can be loaded: no stack has a key twice, and
all but the first of its keys are among them. -/
structure Confined (g : Generator) (keys : List String) (s : Session) : Prop where
  loadable : g.loadable s.store ⊆ keys
  current : s.active ∈ s.moments
  distinct : ∀ stack ∈ s.moments, stack.Nodup ∧ stack.tail ⊆ keys

variable {g : Generator} {keys : List String}

theorem toFinset_card_le_of_subset {keys' : List String} (h : keys ⊆ keys') :
    keys.toFinset.card ≤ keys'.toFinset.card :=
  Finset.card_le_card fun _ hk => List.mem_toFinset.2 (h (List.mem_toFinset.1 hk))

theorem length_le_of_tail_subset {stack : List String} (hn : stack.Nodup)
    (ht : stack.tail ⊆ keys) : stack.length ≤ keys.toFinset.card + 1 := by
  have hcard : stack.tail.toFinset.card = stack.tail.length :=
    List.toFinset_card_of_nodup hn.tail
  have hle := toFinset_card_le_of_subset ht
  have hlen := stack.length_tail
  omega

theorem Confined.become {s : Session} (h : Confined g keys s) {stack : List String}
    (hs : stack.Nodup ∧ stack.tail ⊆ keys) : Confined g keys (s.become stack) where
  loadable := h.loadable
  current := by simp [Session.become]
  distinct := by
    intro k hk
    rcases List.mem_append.1 hk with hk | hk
    · exact h.distinct k hk
    · exact List.mem_singleton.1 hk ▸ hs

/-- A stack with one more key at its end. -/
theorem Confined.push {s : Session} (h : Confined g keys s) {key : String} (hk : key ∈ keys)
    (ha : key ∉ s.active) : (s.active ++ [key]).Nodup ∧ (s.active ++ [key]).tail ⊆ keys := by
  obtain ⟨hn, ht⟩ := h.distinct _ h.current
  refine ⟨List.nodup_append.2 ⟨hn, List.nodup_singleton key, ?_⟩, ?_⟩
  · rintro a hm b hb rfl
    exact ha (List.mem_singleton.1 hb ▸ hm)
  · cases hs : s.active with
    | nil => simp
    | cons a as =>
      rw [hs] at ht
      intro k hm
      rcases List.mem_append.1 hm with hm | hm
      · exact ht hm
      · exact List.mem_singleton.1 hm ▸ hk

/-- In a confined session with the given stack, the second computation gives what the first one
gives, and the stack is as before in the end. -/
def Mirrors (g : Generator) (keys active : List String) {α : Type} (x : Action Store α)
    (y : Action Session α) : Prop :=
  ∀ s, s.active = active → Confined g keys s → ∃ r t, exec y s = (r, t) ∧
    exec x s.store = (r, t.store) ∧ t.active = active ∧ Confined g keys t

variable {active : List String}

theorem mirrors_bind {α β : Type} {x : Action Store α} {y : Action Session α}
    {f : α → Action Store β} {f' : α → Action Session β} (hx : Mirrors g keys active x y)
    (hf : ∀ a, Mirrors g keys active (f a) (f' a)) :
    Mirrors g keys active (x >>= f) (y >>= f') := by
  intro s ha hs
  obtain ⟨r, t, hy, hx, hta, ht⟩ := hx s ha hs
  cases r with
  | error e => exact ⟨_, t, exec_bind_error hy, exec_bind_error hx, hta, ht⟩
  | ok a =>
    obtain ⟨r, u, hy', hx', hua, hu⟩ := hf a t hta ht
    exact ⟨r, u, (exec_bind_ok hy).trans hy', (exec_bind_ok hx).trans hx', hua, hu⟩

theorem mirrors_throw {α : Type} (e : TemplateError) :
    Mirrors g keys active (throw e : Action Store α) (throw e) :=
  fun s ha hs => ⟨_, s, rfl, rfl, ha, hs⟩

def mirrors (g : Generator) (keys active : List String) : Congruence Store Session where
  rel := Mirrors g keys active
  pure _ s ha hs := ⟨_, s, rfl, rfl, ha, hs⟩
  throw e _ := mirrors_throw e
  bind := mirrors_bind

theorem mirrors_lift {α : Type} {x : Action Store α}
    (hx : ∀ s, g.loadable (exec x s).2 ⊆ g.loadable s) :
    Mirrors g keys active x (lift x) := by
  intro s ha hs
  refine ⟨_, _, exec_lift x s, rfl, ha, ?_⟩
  exact { hs with loadable := fun k hk => hs.loadable (hx s.store hk) }

theorem mirrors_inside {α : Type} {x : Action Store α} {y : Action Session α} {key : String}
    (hk : key ∈ keys) (ha : key ∉ active) (h : Mirrors g keys (active ++ [key]) x y) :
    Mirrors g keys active x (inside key y) := by
  rintro s rfl hs
  obtain ⟨r, t, hy, hx, hta, ht⟩ := h (s.become (s.active ++ [key])) rfl (hs.become (hs.push hk ha))
  have hd : t.active.dropLast = s.active := by rw [hta, List.dropLast_concat]
  refine ⟨r, t.become s.active, ?_, hx, rfl, ht.become (hs.distinct _ hs.current)⟩
  simp only [exec_inside, hy, hd]

theorem toFinset_without_card_lt {key : String} {others : List String} (h : key ∈ others) :
    (without key others).toFinset.card < others.toFinset.card := by
  refine Finset.card_lt_card ⟨fun k hk => ?_, fun hsub => ?_⟩
  · exact List.mem_toFinset.2 (mem_without.1 (List.mem_toFinset.1 hk)).1
  · exact (mem_without.1 (List.mem_toFinset.1 (hsub (List.mem_toFinset.2 h)))).2 rfl

/-- The induction is on the depth, which stays greater than the number of keys that are not active.
A key that is found nowhere fails to load, as the call does that finds it not among the others. -/
theorem mirrors_call (g : Generator) (beyond : Caller) {keys active others : List String} {n : Nat}
    (hn : others.toFinset.card < n) (hsub : others ⊆ keys)
    (ho : ∀ key ∈ keys, key ∉ active → key ∈ others) (name : String) (args : Frame) (l : Language)
    (p : Position) :
    Mirrors g keys active (g.call active others name args l p)
      (g.nestedCall beyond n name args l p) := by
  induction n generalizing active others name args l p with
  | zero => omega
  | succ n ih =>
    intro s ha hs
    subst ha
    simp only [call, nestedCall, exec_bind, exec_lift, exec_key]
    cases TemplateName.normalize name with
    | error f => exact ⟨_, s, rfl, rfl, rfl, hs⟩
    | ok key =>
      simp only [exec_get]
      by_cases hc : key ∈ s.active
      · simp only [hc, ↓reduceIte]
        exact ⟨_, s, rfl, rfl, rfl, hs⟩
      by_cases hd : g.maxDepth.atMost s.active.length = true
      · simp only [hc, hd, ↓reduceIte]
        exact ⟨_, s, rfl, rfl, rfl, hs⟩
      by_cases hk : key ∈ others
      · simp only [hc, hd, hk, ↓reduceIte]
        have hload : ∀ t, g.loadable (exec (g.loadKey key (some p)) t).2 ⊆ g.loadable t :=
          loadable_exec_loadKey g key (some p)
        refine mirrors_bind (mirrors_lift hload) (fun t => mirrors_inside (hsub hk) hc ?_) s rfl hs
        have hlt := toFinset_without_card_lt hk
        rw [run_eq]
        refine rel_template_setting (mirrors g keys _) g t (fun site _ args l => ?_) args l
        refine ih (by omega) (fun k hm => hsub (mem_without.1 hm).1) (fun k hm hne => ?_) _ _ _ _
        simp only [List.mem_append, List.mem_singleton, not_or] at hne
        exact mem_without.2 ⟨ho k hm hne.1, hne.2⟩
      · simp only [hc, hd, hk, ↓reduceIte]
        have hnone : key ∉ g.loadable s.store := fun hm => hk (ho key (hs.loadable hm) hc)
        have hfail : exec (lift (g.loadKey key (some p))) s =
            (.error ⟨.notFound key, some p⟩, s) := by
          rw [exec_lift, exec_loadKey_of_not_mem g (some p) hnone]
        exact ⟨_, s, exec_bind_error hfail, rfl, rfl, hs⟩

theorem callable_subset (g : Generator) (root : Option String) (s : Store) :
    g.callable root s ⊆ g.loadable s := by
  cases root with
  | none => exact fun _ h => h
  | some key => exact fun k h => (mem_without.1 h).1

theorem mem_callable_of_not_mem (g : Generator) {root : Option String} {s : Store} {key : String}
    (h : key ∈ g.loadable s) (hne : key ∉ root.toList) : key ∈ g.callable root s := by
  cases root with
  | none => exact h
  | some k => exact mem_without.2 ⟨h, by simpa using hne⟩

theorem loadable_exec_load (g : Generator) (root : Root) (s : Store) :
    g.loadable (exec (root.load g) s).2 ⊆ g.loadable s := by
  cases root with
  | named name =>
    simp only [Root.load, exec_bind, exec_key]
    cases TemplateName.normalize name with
    | error f => exact fun _ h => h
    | ok key =>
      have h := loadable_exec_loadKey g key none s
      rcases hl : exec (g.loadKey key none) s with ⟨_ | t, u⟩ <;> simpa [hl] using h
  | ofText text name =>
    simp only [Root.load]
    cases Template.ofText name text with
    | error e => exact fun _ h => h
    | ok t =>
      cases name with
      | none => exact fun _ h => h
      | some name =>
        simp only [exec_bind, exec_key]
        cases TemplateName.normalize name <;> exact fun _ h => h

theorem confined_start (g : Generator) (root : Option String) (s : Store) :
    Confined g (g.loadable s) (Session.start s root.toList) where
  loadable _ h := h
  current := by simp [Session.start]
  distinct := by cases root <;> simp [Session.start]

/-- Whatever is in the cache, and whatever the limit is: a depth greater than the number of keys is
never used up. What would answer a call beyond it does not matter, and the rendering has the result
of the one that passes the keys down, a text or an error. No template is active twice at any time,
so at most one more are active than there are keys. -/
theorem nested_eq_render (g : Generator) (root : Root) (frame : Frame) (s : Store) (beyond : Caller)
    {n : Nat} (hn : (g.loadable s).toFinset.card < n) :
    let run := g.nested beyond n root frame s
    exec (root.render g frame) s = (run.1, run.2.store.tell (.ofResult root.title run.1)) ∧
      ∀ stack ∈ run.2.moments,
        stack.Nodup ∧ stack.length ≤ (g.loadable s).toFinset.card + 1 := by
  intro run
  rw [Root.render_eq, exec_observed]
  rcases hl : exec (root.load g) s with ⟨e | ⟨key, t⟩, u⟩
  · have hrun : run = (.error e, Session.start u []) := by simp only [run, nested, hl]
    rw [exec_bind_error hl, hrun]
    exact ⟨rfl, by simp [Session.start]⟩
  · have hrun : run =
        exec (Render.template (g.setting t (g.nestedCall beyond n)) frame g.language t)
          (Session.start u key.toList) := by
      simp only [run, nested, hl]
    have hload : g.loadable u ⊆ g.loadable s := by simpa [hl] using loadable_exec_load g root s
    have hcard : (g.loadable u).toFinset.card ≤ (g.loadable s).toFinset.card :=
      toFinset_card_le_of_subset hload
    have hm : Mirrors g (g.loadable u) key.toList
        (g.run key.toList (g.callable key u) t frame g.language)
        (Render.template (g.setting t (g.nestedCall beyond n)) frame g.language t) := by
      rw [run_eq]
      refine rel_template_setting (mirrors g _ _) g t (fun site _ args l => ?_) frame g.language
      have hle := toFinset_card_le_of_subset (callable_subset g key u)
      exact mirrors_call g beyond (by omega) (callable_subset g key u)
        (fun k hk hne => mem_callable_of_not_mem g hk hne) _ _ _ _
    obtain ⟨r, v, hy, hx, -, hv⟩ := hm _ rfl (confined_start g key u)
    rw [hrun, hy]
    refine ⟨?_, fun stack hstack => ?_⟩
    · have hx' : exec (root.load g >>= fun w => g.start w.1 w.2 frame) s = (r, v.store) := by
        rw [exec_bind_ok hl, exec_start]
        exact hx
      rw [hx']
    · obtain ⟨hn, ht⟩ := hv.distinct stack hstack
      exact ⟨hn, (length_le_of_tail_subset hn ht).trans (by omega)⟩

/-- Two templates that call each other, one of them kept without a text, and no limit: three nested
calls are enough to find the cycle. -/
theorem nested_eq_render_unlimited :
    let g : Generator := ⟨[("a.tmpl", "\x7b% call_template b %\x7d")], Language.builtin,
      Language.default, none, Number.ofNat 80, .nan⟩
    let s : Store := { cache := [("b.tmpl", ⟨none, [.call "a" [] ⟨1, 1⟩]⟩)] }
    let beyond : Caller := fun name _ _ p => Render.fail (.failed name) p
    let run := g.nested beyond 3 (.named "a") [] s
    (g.loadable s).toFinset.card < 3 ∧
      run.1 = .error ⟨.cycle ["a.tmpl", "b.tmpl", "a.tmpl"], some ⟨none, ⟨1, 1⟩⟩⟩ ∧
      (exec ((Root.named "a").render g []) s).1 = run.1 ∧
      ∀ stack ∈ run.2.moments, stack.Nodup ∧ stack.length ≤ 3 := by
  intro g s beyond run
  have hn : (g.loadable s).toFinset.card < 3 := by decide
  have hrun : run.1 = .error ⟨.cycle ["a.tmpl", "b.tmpl", "a.tmpl"], some ⟨none, ⟨1, 1⟩⟩⟩ := by
    decide +kernel
  obtain ⟨hr, hm⟩ := nested_eq_render g (.named "a") [] s beyond hn
  refine ⟨hn, hrun, by rw [hr], fun stack hstack => ⟨(hm stack hstack).1, ?_⟩⟩
  exact (hm stack hstack).2.trans (by omega)

end Generator
end CodeTemplate

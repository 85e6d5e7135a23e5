import CodeTemplate.Proofs.Render.Failure
import CodeTemplate.Proofs.Render.Shape

/-! Templates that fit the shapes of the values they are given. Whether one does can be computed;
rendering it then succeeds, as long as the templates that it calls do. -/

namespace CodeTemplate

namespace Action

variable {σ α β : Type} {I : σ → Prop}

/-- From each state with the invariant the computation gives a result, in such a state. -/
def Succeeds (I : σ → Prop) (x : Action σ α) : Prop := Keeps I (fun _ _ => False) x

theorem succeeds_pure (a : α) : Succeeds I (pure a : Action σ α) := keeps_pure a

theorem Succeeds.bind {x : Action σ α} {f : α → Action σ β} (hx : Succeeds I x)
    (hf : ∀ a, Succeeds I (f a)) : Succeeds I (x >>= f) :=
  Keeps.bind hx hf

theorem Succeeds.exists_ok {x : Action σ α} (h : Succeeds I x) {s : σ} (hs : I s) :
    ∃ a t, exec x s = (.ok a, t) ∧ I t := by
  have h := h s hs
  rcases hx : exec x s with ⟨_ | a, t⟩
  · simp [hx] at h
  · exact ⟨a, t, rfl, by simpa [hx] using h⟩

end Action

/-- The bindings that a template needs, with their shapes. -/
abbrev Needs := List (String × Shape)

/-- The frame binds what is needed. -/
def Frame.Meets (frame : Frame) (needs : Needs) : Prop :=
  ∀ n ∈ needs, ∃ v, frame.lookup n.1 = some v ∧ n.2.Holds v

/-- What a template can count on: languages that there are, and templates that need no more than
the given bindings. -/
structure Surroundings where
  language : String → Bool
  needs : String → Option Needs

namespace Facts

/-- What is known where the needed bindings are the only ones. -/
def ofNeeds (needs : Needs) : Facts := needs.map fun n => ⟨⟨n.1, []⟩, n.2⟩

theorem hold_ofNeeds {frame : Frame} {needs : Needs} (h : frame.Meets needs) :
    (ofNeeds needs).Hold [frame] := by
  intro f hf
  obtain ⟨n, hn, rfl⟩ := List.mem_map.1 hf
  obtain ⟨v, hv, hholds⟩ := h n hn
  exact ⟨v, by simp [Scope.resolve, Scope.lookup?, hv, Scope.attributes], hholds⟩

/-- The path leads to something that can be written. -/
def plain (Γ : Facts) (p : Path) : Bool := (Γ.shape? p).any Shape.isPlain

/-- The path leads to something that has a description. -/
def described (Γ : Facts) (p : Path) : Bool :=
  (Γ.shape? p).any fun s => (s.attributes.lookup "description").any Shape.isPlain

/-- The shapes of arguments, in front of those before them: the last one of a name counts. -/
def arguments (Γ : Facts) (before : Needs) : List Argument → Option Needs
  | [] => some before
  | ⟨key, .string _⟩ :: args => arguments Γ ((key, .text) :: before) args
  | ⟨key, .path p⟩ :: args =>
    (Γ.shape? p).bind fun s => arguments Γ ((key, s) :: before) args

/-- The arguments all bind something, and what is needed is among it. -/
def provide (Γ : Facts) (args : List Argument) (needs : Needs) : Bool :=
  (args.all fun a => a.key ≠ "__proto__") &&
    (Γ.arguments [] args).any fun given => needs.all fun n => given.lookup n.1 = some n.2

end Facts

namespace Node

mutual

/-- Whether a node can be rendered where the facts are known. -/
def fits (w : Surroundings) (Γ : Facts) (inList : Bool) : Node → Bool
  | .text _ | .inherited _ => true
  | .variable path _ _ => Γ.plain path
  | .conditional condition thenBranch none _ =>
    match Γ.shape? condition with
    | none => false
    | some s => allFit w (Γ.given condition s) inList thenBranch
  | .conditional condition thenBranch (some elseBranch) _ =>
    match Γ.shape? condition with
    | none => false
    | some s => allFit w (Γ.given condition s) inList thenBranch && allFit w Γ inList elseBranch
  | .loop item collection body _ =>
    match Γ.shape? collection with
    | some (.sequence s) => item != "forloop" && allFit w (Γ.inLoop item s) inList body
    | _ => false
  | .filtered _ body _ => allFit w Γ inList body
  | .imports subject body _ => (Γ.shape? subject).isSome && allFit w Γ inList body
  | .call template args _ => (w.needs template).any (Γ.provide args)
  | .docComment subject _ _ => Γ.described subject
  | .literal path _ => Γ.plain path
  | .parameterList body _ => allFit w Γ true body
  | .parameter _ body _ => inList && allFit w Γ inList body
  | .language name _ => w.language name
  | .copyright .. => true

def allFit (w : Surroundings) (Γ : Facts) (inList : Bool) : List Node → Bool
  | [] => true
  | n :: ns => fits w Γ inList n && allFit w Γ inList ns

end

end Node

namespace Render

open CodeTemplate.Action Node

variable {σ : Type} {I : σ → Prop} {c : Setting σ} {w : Surroundings} {Γ : Facts} {s : Scope}

/-- The setting has what a template counts on. -/
structure Provides (c : Setting σ) (I : σ → Prop) (w : Surroundings) : Prop where
  language : ∀ name, w.language name = true → ∃ l, c.languages.find? name = some l
  call : ∃ f, c.call = some f ∧ ∀ template needs, w.needs template = some needs →
    ∀ frame : Frame, frame.Meets needs → ∀ l p, Succeeds I (f template frame l p)

theorem succeeds_ofValue {α β : Type} {r : Except ValueFault α} {a : α} (h : r = .ok a)
    {p : Position} {f : α → Action σ β} (hf : Succeeds I (f a)) :
    Succeeds I (ofValue p r >>= f) := by
  rw [h]
  exact hf

theorem succeeds_resolve {β : Type} {path : Path} {sh : Shape} (hΓ : Γ.Hold s)
    (h : Γ.shape? path = some sh) {p : Position} {f : Value → Action σ β}
    (hf : ∀ v, s.resolve path = .ok v → sh.Holds v → Succeeds I (f v)) :
    Succeeds I (resolve s path p >>= f) := by
  obtain ⟨v, hv, hholds⟩ := hΓ.resolve h
  simp only [resolve, hv, pure_bind]
  exact hf v hv hholds

theorem succeeds_plain {β : Type} {path : Path} (hΓ : Γ.Hold s) (h : Γ.plain path = true)
    {p : Position} {f : Value → Action σ β}
    (hf : ∀ v sh, sh.isPlain = true → Shape.Holds sh v → Succeeds I (f v)) :
    Succeeds I (resolve s path p >>= f) := by
  obtain ⟨sh, hsh, hplain⟩ := (Option.any_eq_true _ _).1 h
  exact succeeds_resolve hΓ hsh fun v _ hholds => hf v sh hplain hholds

theorem succeeds_descriptionOf {β : Type} {v : Value} {sh : Shape} (hv : sh.Holds v)
    (h : (sh.attributes.lookup "description").any Shape.isPlain = true) {p : Position}
    {f : String → Action σ β} (hf : ∀ t, Succeeds I (f t)) :
    Succeeds I (descriptionOf v p >>= f) := by
  obtain ⟨sd, hsd, hplain⟩ := (Option.any_eq_true _ _).1 h
  obtain ⟨d, hd, hholds⟩ := Shape.attribute_of_holds hv hsd
  obtain ⟨t, ht⟩ := Shape.text_of_plain hplain hholds
  simp only [descriptionOf, hd]
  exact succeeds_ofValue ht (hf t)

/-- Each binding with a shape has that shape. -/
def Shaped (frame : Frame) (shapes : Needs) : Prop :=
  ∀ name sh, shapes.lookup name = some sh → ∃ v, frame.lookup name = some v ∧ sh.Holds v

theorem Shaped.bind {frame : Frame} {shapes : Needs} (h : Shaped frame shapes) {key : String}
    (hkey : key ≠ "__proto__") {v : Value} {sh : Shape} (hv : sh.Holds v) :
    Shaped (frame.bind key v) ((key, sh) :: shapes) := by
  intro name sh' hl
  rw [Frame.lookup_bind]
  by_cases hk : name = key
  · subst hk
    simp only [List.lookup_cons_self, Option.some.injEq] at hl
    exact ⟨v, by simp [hkey], hl ▸ hv⟩
  · rw [List.lookup_cons, beq_eq_false_iff_ne.2 hk] at hl
    simpa [hk] using h name sh' hl

/-- The bindings of arguments have the shapes of the arguments. -/
theorem bindings_shaped (hΓ : Γ.Hold s) (p : Position) {args : List Argument}
    (hkeys : ∀ a ∈ args, a.key ≠ "__proto__") {before given : Needs} {frame : Frame}
    (hf : Shaped frame before)
    (h : Γ.arguments before args = some given) :
    ∃ frame', (bindings s p frame args : Action σ Frame) = pure frame' ∧ Shaped frame' given := by
  induction args generalizing before frame with
  | nil =>
    obtain rfl := Option.some.inj h
    exact ⟨frame, rfl, hf⟩
  | cons a args ih =>
    obtain ⟨hkey, hrest⟩ := List.forall_mem_cons.1 hkeys
    obtain ⟨key, path | text⟩ := a
    · obtain ⟨sh, hsh, hgiven⟩ := Option.bind_eq_some_iff.1 h
      obtain ⟨v, hv, hholds⟩ := hΓ.resolve hsh
      simp only [bindings, resolve, hv, pure_bind]
      exact ih hrest (hf.bind hkey hholds) hgiven
    · exact ih hrest (hf.bind hkey (Shape.holds_text text)) h

theorem succeeds_bindings {β : Type} (hΓ : Γ.Hold s) {args : List Argument} {needs : Needs}
    (h : Γ.provide args needs = true) {p : Position} {f : Frame → Action σ β}
    (hf : ∀ frame : Frame, frame.Meets needs → Succeeds I (f frame)) :
    Succeeds I (bindings s p [] args >>= f) := by
  obtain ⟨hall, hprovided⟩ := Bool.and_eq_true_iff.1 h
  obtain ⟨given, hgiven, hneeds⟩ := (Option.any_eq_true _ _).1 hprovided
  have hkeys : ∀ a ∈ args, a.key ≠ "__proto__" := by simpa using hall
  have hempty : Shaped [] [] := by simp [Shaped]
  obtain ⟨frame, hframe, hshaped⟩ := bindings_shaped (σ := σ) hΓ p hkeys hempty hgiven
  rw [hframe, pure_bind]
  exact hf frame fun n hn => hshaped n.1 n.2 (of_decide_eq_true (List.all_eq_true.1 hneeds n hn))

theorem succeeds_eachItem {body : Scope → Language → Action σ Output} {item : String} {count : Nat}
    {vs : List Value}
    (hb : ∀ v ∈ vs, ∀ i l, Succeeds I (body (Scope.loopFrame item v i count :: s) l)) (i : Nat)
    (l : Language) : Succeeds I (eachItem body s item count i vs l) := by
  induction vs generalizing i l with
  | nil => exact succeeds_pure _
  | cons v vs ih =>
    obtain ⟨hv, hvs⟩ := List.forall_mem_cons.1 hb
    exact (hv i l).bind fun a => (ih hvs _ _).bind fun b => succeeds_pure _

mutual

theorem succeeds_node (hc : Provides c I w) (n : Node) {Γ : Facts} {s : Scope} (hΓ : Γ.Hold s)
    {inList : Bool} (h : fits w Γ inList n = true) (l : Language) :
    Succeeds I (node c s inList l n) := by
  cases n with
  | text | inherited => exact succeeds_pure _
  | «variable» path filters start =>
    simp only [node]
    refine succeeds_plain hΓ h fun v sh hplain hholds => ?_
    obtain ⟨t, ht⟩ := Shape.filtered_of_plain hplain hholds l c.width filters
    exact succeeds_ofValue ht (succeeds_pure _)
  | conditional condition thenBranch elseBranch start =>
    cases hsh : Γ.shape? condition with
    | none => cases elseBranch <;> simp [fits, hsh] at h
    | some sh =>
      cases elseBranch with
      | none =>
        simp only [fits, hsh] at h
        simp only [node]
        refine succeeds_resolve hΓ hsh fun v hv hholds => ?_
        split
        · next ht => exact succeeds_nodes hc thenBranch (hΓ.given hv hholds ht) h l
        · exact succeeds_pure _
      | some elseBranch =>
        simp only [fits, hsh, Bool.and_eq_true] at h
        simp only [node]
        refine succeeds_resolve hΓ hsh fun v hv hholds => ?_
        split
        · next ht => exact succeeds_nodes hc thenBranch (hΓ.given hv hholds ht) h.1 l
        · exact succeeds_nodes hc elseBranch hΓ h.2 l
  | loop item collection body start =>
    simp only [fits] at h
    split at h
    · next sh hsh =>
      simp only [Bool.and_eq_true, bne_iff_ne] at h
      simp only [node]
      refine succeeds_resolve hΓ hsh fun v _ hholds => ?_
      obtain ⟨items, rfl, hitems⟩ := hholds
      refine succeeds_ofValue rfl (succeeds_eachItem (fun v hv i l => ?_) 0 l)
      exact succeeds_nodes hc body (hΓ.inLoop h.1 (hitems v hv) i _) h.2 l
    · simp at h
  | filtered filters body start =>
    simp only [node]
    refine (succeeds_nodes hc body hΓ h l).bind fun out => ?_
    obtain ⟨t, ht⟩ := Shape.filtered_of_plain (s := .text) rfl (Shape.holds_text out.text)
      out.language c.width filters
    exact succeeds_ofValue ht (succeeds_pure _)
  | imports subject body start =>
    simp only [fits, Bool.and_eq_true] at h
    obtain ⟨sh, hsh⟩ := Option.isSome_iff_exists.1 h.1
    simp only [node]
    exact succeeds_resolve hΓ hsh fun v _ _ => succeeds_nodes hc body hΓ h.2 l
  | call template args start =>
    obtain ⟨needs, hneeds, hprovide⟩ := (Option.any_eq_true _ _).1 h
    obtain ⟨f, hf, hcall⟩ := hc.call
    simp only [node, hf]
    exact succeeds_bindings hΓ hprovide fun frame hmeets =>
      (hcall template needs hneeds frame hmeets l _).bind fun text => succeeds_pure _
  | docComment subject indent start =>
    obtain ⟨sh, hsh, hdescription⟩ := (Option.any_eq_true _ _).1 h
    simp only [node]
    exact succeeds_resolve hΓ hsh fun v _ hholds =>
      succeeds_descriptionOf hholds hdescription fun t => succeeds_pure _
  | literal path start =>
    simp only [node]
    refine succeeds_plain hΓ h fun v sh hplain hholds => ?_
    obtain ⟨t, ht⟩ := Shape.literal_of_plain hplain hholds l
    exact succeeds_ofValue ht (succeeds_pure _)
  | parameterList body start =>
    simp only [node]
    exact (succeeds_nodes hc body hΓ h l).bind fun out => succeeds_pure _
  | parameter grouped body start =>
    simp only [fits, Bool.and_eq_true] at h
    simp only [node, h.1, ↓reduceIte]
    exact (succeeds_nodes hc body hΓ (h.1 ▸ h.2) l).bind fun out => succeeds_pure _
  | language name start =>
    obtain ⟨l', hl'⟩ := hc.language name h
    simp only [node, hl']
    exact succeeds_pure _
  | copyright indent start => exact succeeds_pure _

/-- The induction is on the nodes; inside a condition and a loop other facts hold than around. -/
theorem succeeds_nodes (hc : Provides c I w) (ns : List Node) {Γ : Facts} {s : Scope}
    (hΓ : Γ.Hold s) {inList : Bool} (h : allFit w Γ inList ns = true) (l : Language) :
    Succeeds I (nodes c s inList l ns) := by
  cases ns with
  | nil => exact succeeds_pure _
  | cons n ns =>
    simp only [allFit, Bool.and_eq_true] at h
    exact (succeeds_node hc n hΓ h.1 l).bind fun a =>
      (succeeds_nodes hc ns hΓ h.2 a.language).bind fun b => succeeds_pure _

end

theorem succeeds_template (hc : Provides c I w) {t : Template} {needs : Needs}
    (h : allFit w (.ofNeeds needs) false t.nodes = true) {frame : Frame}
    (hf : frame.Meets needs) (l : Language) : Succeeds I (template c frame l t) :=
  (succeeds_nodes hc t.nodes (Facts.hold_ofNeeds hf) h l).bind fun _ => succeeds_pure _

end Render
end CodeTemplate

import CodeTemplate.Proofs.Markup.Origin
import CodeTemplate.Proofs.Render.Action

/-! How renderings fail. A node fails at its start, by a few causes, or as a call in it does. The
parameters of a template that was read have their places, so that none of them fails for its
place. -/

namespace CodeTemplate

/-- The causes by which the rendering of a template can fail, once it is read. -/
def Cause.Rendering : Cause → Prop
  | .unresolved _ | .value _ | .unknownLanguage _ | .cycle _ | .tooDeep .. | .notFound _ => True
  | _ => False

namespace Action

variable {σ α β : Type}

/-- From a state with the invariant, the computation leads to one with the invariant, or it fails
with an error that may come with the state then. -/
def Keeps (I : σ → Prop) (E : TemplateError → σ → Prop) (x : Action σ α) : Prop :=
  ∀ s, I s → match exec x s with
    | (.ok _, t) => I t
    | (.error e, t) => E e t

variable {I : σ → Prop} {E : TemplateError → σ → Prop}

theorem keeps_pure (a : α) : Keeps I E (pure a : Action σ α) := fun _ hs => hs

theorem keeps_throw {e : TemplateError} (h : ∀ s, I s → E e s) :
    Keeps I E (throw e : Action σ α) := h

theorem Keeps.bind {x : Action σ α} {f : α → Action σ β} (hx : Keeps I E x)
    (hf : ∀ a, Keeps I E (f a)) : Keeps I E (x >>= f) := by
  intro s hs
  have h := hx s hs
  rcases hr : exec x s with ⟨_ | a, t⟩
  · rw [hr] at h
    rw [exec_bind_error hr]
    exact h
  · rw [hr] at h
    rw [exec_bind_ok hr]
    exact hf a t h

theorem Keeps.of_ok {x : Action σ α} (h : Keeps I E x) {s t : σ} {a : α} (hs : I s)
    (hx : exec x s = (.ok a, t)) : I t := by
  simpa [hx] using h s hs

theorem Keeps.of_error {x : Action σ α} (h : Keeps I E x) {s t : σ} {e : TemplateError} (hs : I s)
    (hx : exec x s = (.error e, t)) : E e t := by
  simpa [hx] using h s hs

end Action

namespace Render

open CodeTemplate.Action Grammar Node

variable {σ : Type} {I : σ → Prop} {E : TemplateError → σ → Prop} {p : Position}

/-- Rendering may fail at the position. -/
def MayFail (I : σ → Prop) (E : TemplateError → σ → Prop) (p : Position) : Prop :=
  ∀ cause : Cause, cause.Rendering → ∀ s, I s → E ⟨cause, some p⟩ s

theorem MayFail.keeps {α : Type} {cause : Cause} (h : MayFail I E p) (hc : cause.Rendering) :
    Keeps I E (fail cause p : Action σ α) :=
  keeps_throw (h cause hc)

theorem keeps_ofValue {α : Type} (h : MayFail I E p) (v : Except ValueFault α) :
    Keeps I E (ofValue p v : Action σ α) := by
  cases v with
  | ok a => exact keeps_pure a
  | error f => exact h.keeps trivial

theorem keeps_resolve (h : MayFail I E p) (s : Scope) (path : Path) :
    Keeps I E (resolve s path p : Action σ Value) := by
  simp only [resolve]
  cases s.resolve path with
  | ok v => exact keeps_pure v
  | error f => exact h.keeps trivial

theorem keeps_bindings (h : MayFail I E p) (s : Scope) (args : List Argument) (frame : Frame) :
    Keeps I E (bindings s p frame args : Action σ Frame) := by
  induction args generalizing frame with
  | nil => exact keeps_pure frame
  | cons a args ih =>
    obtain ⟨key, path | text⟩ := a
    · exact (keeps_resolve h s path).bind fun v => ih _
    · exact ih _

theorem keeps_descriptionOf (h : MayFail I E p) (v : Value) :
    Keeps I E (descriptionOf v p : Action σ String) := by
  simp only [descriptionOf]
  cases v.attribute? "description" with
  | none => exact keeps_pure ""
  | some d => exact keeps_ofValue h _

theorem keeps_eachItem {body : Scope → Language → Action σ Output}
    (hb : ∀ s l, Keeps I E (body s l)) (s : Scope) (item : String) (count i : Nat)
    (vs : List Value) (l : Language) : Keeps I E (eachItem body s item count i vs l) := by
  induction vs generalizing i l with
  | nil => exact keeps_pure _
  | cons v vs ih =>
    exact (hb _ _).bind fun a => (ih _ _).bind fun b => keeps_pure _

/-- Each of the nodes may fail at its start, and the calls among them can be made. -/
structure Failing (c : Setting σ) (I : σ → Prop) (E : TemplateError → σ → Prop)
    (ms : List Node) : Prop where
  own : ∀ n ∈ ms, ∀ start ∈ n.start?, MayFail I E ⟨c.template, start⟩
  call : ∃ f, c.call = some f ∧ ∀ name args start, .call name args start ∈ ms → ∀ frame l,
    Keeps I E (f name frame l ⟨c.template, start⟩)

variable {c : Setting σ}

theorem Failing.mono {ms ms' : List Node} (h : Failing c I E ms) (hs : ms' ⊆ ms) :
    Failing c I E ms' := by
  obtain ⟨f, hf, hcall⟩ := h.call
  exact ⟨fun n hn => h.own n (hs hn), f, hf, fun name args start hn =>
    hcall name args start (hs hn)⟩

theorem Failing.head {n : Node} {ms : List Node} (h : Failing c I E (n :: ms)) {start : Location}
    (hn : start ∈ n.start?) : MayFail I E ⟨c.template, start⟩ :=
  h.own n List.mem_cons_self start hn

mutual

theorem keeps_node (n : Node) (h : Failing c I E (n :: nested n)) {place inList : Bool}
    (hp : Placed place n) (hin : place = true → inList = true) (s : Scope) (l : Language) :
    Keeps I E (node c s inList l n) := by
  cases n with
  | text | inherited => exact keeps_pure _
  | «variable» path filters start =>
    have hown := h.head rfl
    simp only [node]
    exact (keeps_resolve hown s path).bind fun v =>
      (keeps_ofValue hown _).bind fun text => keeps_pure _
  | conditional condition thenBranch elseBranch start =>
    have hown := h.head rfl
    cases elseBranch with
    | none =>
      simp only [node]
      refine (keeps_resolve hown s condition).bind fun v => ?_
      split
      · exact keeps_nodes thenBranch (h.mono (List.subset_cons_self _ _)) hp hin s l
      · exact keeps_pure _
    | some elseBranch =>
      simp only [node]
      refine (keeps_resolve hown s condition).bind fun v => ?_
      split
      · exact keeps_nodes thenBranch (h.mono (by simp [nested])) hp.1 hin s l
      · exact keeps_nodes elseBranch (h.mono (by simp [nested])) hp.2 hin s l
  | loop item collection body start =>
    have hown := h.head rfl
    have hbody := h.mono (List.subset_cons_self _ _)
    simp only [node]
    exact (keeps_resolve hown s collection).bind fun v => (keeps_ofValue hown _).bind fun items =>
      keeps_eachItem (fun s l => keeps_nodes body hbody hp hin s l) s item _ _ items l
  | filtered filters body start =>
    have hown := h.head rfl
    have hbody := h.mono (List.subset_cons_self _ _)
    simp only [node]
    exact (keeps_nodes body hbody hp hin s l).bind fun out =>
      (keeps_ofValue hown _).bind fun text => keeps_pure _
  | imports subject body start =>
    have hbody := h.mono (List.subset_cons_self _ _)
    simp only [node]
    exact (keeps_resolve (h.head rfl) s subject).bind fun _ => keeps_nodes body hbody hp hin s l
  | call template args start =>
    obtain ⟨f, hf, hcall⟩ := h.call
    simp only [node, hf]
    exact (keeps_bindings (h.head rfl) s args []).bind fun frame =>
      (hcall template args start List.mem_cons_self frame l).bind fun text => keeps_pure _
  | docComment subject indent start =>
    have hown := h.head rfl
    simp only [node]
    exact (keeps_resolve hown s subject).bind fun v =>
      (keeps_descriptionOf hown v).bind fun text => keeps_pure _
  | literal path start =>
    have hown := h.head rfl
    simp only [node]
    exact (keeps_resolve hown s path).bind fun v =>
      (keeps_ofValue hown _).bind fun text => keeps_pure _
  | parameterList body start =>
    have hbody := h.mono (List.subset_cons_self _ _)
    simp only [node]
    exact (keeps_nodes body hbody hp (fun _ => rfl) s l).bind fun out => keeps_pure _
  | parameter grouped body start =>
    -- The place that the parameter has is a list, so the other branch is not reached.
    have hbody := h.mono (List.subset_cons_self _ _)
    simp only [node, hin hp.1, ↓reduceIte]
    exact (keeps_nodes body hbody hp.2 (fun _ => rfl) s l).bind fun out => keeps_pure _
  | language name start =>
    simp only [node]
    split
    · exact keeps_pure _
    · exact (h.head rfl).keeps trivial
  | copyright indent start => exact keeps_pure _

/-- The induction is on the nodes, with the place that they have and whether a list is around. -/
theorem keeps_nodes (ns : List Node) (h : Failing c I E (allWithin ns)) {place inList : Bool}
    (hp : AllPlaced place ns) (hin : place = true → inList = true) (s : Scope) (l : Language) :
    Keeps I E (nodes c s inList l ns) := by
  cases ns with
  | nil => exact keeps_pure _
  | cons n ns =>
    have hhead : n :: nested n ⊆ allWithin (n :: ns) := by simp [allWithin]
    have htail : allWithin ns ⊆ allWithin (n :: ns) := by
      rw [allWithin]
      exact List.Subset.trans (List.subset_append_right _ _) (List.subset_cons_self _ _)
    exact (keeps_node n (h.mono hhead) hp.1 hin s l).bind fun a =>
      (keeps_nodes ns (h.mono htail) hp.2 hin s a.language).bind fun b => keeps_pure _

end

theorem keeps_template {t : Template} (h : Failing c I E (allWithin t.nodes))
    (hp : AllPlaced false t.nodes) (frame : Frame) (l : Language) :
    Keeps I E (template c frame l t) :=
  (keeps_nodes t.nodes h hp (fun he => absurd he (by simp)) [frame] l).bind fun _ => keeps_pure _

end Render
end CodeTemplate

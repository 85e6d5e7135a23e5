import CodeTemplate.Proofs.Render.Failure

/-! What a rendering that gives a text has gone through. Each node on its way gave a text, so what
is written there could be written. -/

namespace CodeTemplate

namespace Action

variable {σ α β : Type}

/-- From some state with the invariant, the computation gives the result. -/
def MayGive (I : σ → Prop) (x : Action σ α) (a : α) : Prop := ∃ s t, I s ∧ exec x s = (.ok a, t)

variable {I : σ → Prop} {E : TemplateError → σ → Prop}

theorem MayGive.bind {x : Action σ α} {f : α → Action σ β} {b : β} (h : MayGive I (x >>= f) b)
    (hx : Keeps I E x) : ∃ a, MayGive I x a ∧ MayGive I (f a) b := by
  obtain ⟨s, t, hs, h⟩ := h
  rw [exec_bind] at h
  split at h
  · next a u hu => exact ⟨a, ⟨s, u, hs, hu⟩, u, t, hx.of_ok hs hu, h⟩
  · simp at h

end Action

/-- Only what can be written as a text goes through filters. -/
theorem Filter.not_inherited_of_applyAll {l : Language} {w : Comment.Width} {v : Value}
    {fs : List Filter} {t : String} (h : applyAll l w v fs = .ok t) (member : Inherited) :
    v ≠ .inherited member := by
  rintro rfl
  cases fs with
  | nil => simp [applyAll, Value.toText] at h
  | cons f fs => cases f <;> simp [applyAll, apply, Value.toText, Language.literal, Except.map] at h

namespace Node

mutual

/-- The node writes what the path leads to, whenever it is rendered. -/
def writes (p : Path) : Node → Bool
  | .variable path _ _ => path = p
  | .parameter _ body _ => anyWrites p body
  | _ => false

def anyWrites (p : Path) : List Node → Bool
  | [] => false
  | n :: ns => writes p n || anyWrites p ns

end

mutual

/-- The node writes the attribute of each item that the path leads to. -/
def writesEach (p : Path) (name : String) : Node → Bool
  | .loop item collection body _ =>
    collection = p && item ≠ "forloop" && anyWrites ⟨item, [name]⟩ body
  | .parameterList body _ => anyWritesEach p name body
  | _ => false

def anyWritesEach (p : Path) (name : String) : List Node → Bool
  | [] => false
  | n :: ns => writesEach p name n || anyWritesEach p name ns

end

end Node

namespace Render

open CodeTemplate.Action Node

variable {σ α : Type} {I : σ → Prop} {c : Setting σ} {s : Scope} {p : Position}

theorem mayGive_resolve {path : Path} {f : Value → Action σ α} {a : α}
    (h : MayGive I (resolve s path p >>= f) a) :
    ∃ v, s.resolve path = .ok v ∧ MayGive I (f v) a := by
  simp only [resolve] at h
  cases hv : s.resolve path with
  | error e =>
    obtain ⟨_, _, _, h⟩ := h
    simp [hv, exec_bind] at h
  | ok v => exact ⟨v, rfl, by simpa only [hv, pure_bind] using h⟩

theorem mayGive_ofValue {β : Type} {r : Except ValueFault β} {f : β → Action σ α} {a : α}
    (h : MayGive I (ofValue p r >>= f) a) : ∃ b, r = .ok b ∧ MayGive I (f b) a := by
  cases r with
  | error e =>
    obtain ⟨_, _, _, h⟩ := h
    simp [ofValue, exec_bind] at h
  | ok b => exact ⟨b, rfl, h⟩

/-- Nodes that are rendered keep the invariant. -/
def Steady (c : Setting σ) (I : σ → Prop) : Prop :=
  ∀ (n : Node) (s : Scope) (inList : Bool) (l : Language),
    Keeps I (fun _ _ => True) (node c s inList l n)

theorem Steady.nodes (hc : Steady c I) (ns : List Node) (s : Scope) (inList : Bool)
    (l : Language) : Keeps I (fun _ _ => True) (nodes c s inList l ns) := by
  induction ns generalizing l with
  | nil => exact keeps_pure _
  | cons n ns ih => exact (hc n s inList l).bind fun a => (ih _).bind fun b => keeps_pure _

/-- Where nodes give something, each of them does. -/
theorem mayGive_of_mem (hc : Steady c I) {inList : Bool} {l : Language} {ns : List Node}
    {out : Output} (h : MayGive I (nodes c s inList l ns) out) {n : Node} (hn : n ∈ ns) :
    ∃ l' out', MayGive I (node c s inList l' n) out' := by
  induction ns generalizing l out with
  | nil => simp at hn
  | cons m ns ih =>
    rw [nodes] at h
    obtain ⟨a, ha, h⟩ := h.bind (hc m s inList l)
    obtain ⟨b, hb, -⟩ := h.bind (hc.nodes ns s inList a.language)
    rcases List.mem_cons.1 hn with rfl | hn
    · exact ⟨l, a, ha⟩
    · exact ih hb hn

theorem mayGive_eachItem {body : Scope → Language → Action σ Output}
    (hb : ∀ s l, Keeps I (fun _ _ => True) (body s l)) {item : String} {count i : Nat}
    {vs : List Value} {l : Language} {out : Output}
    (h : MayGive I (eachItem body s item count i vs l) out) {v : Value} (hv : v ∈ vs) :
    ∃ i l' out', MayGive I (body (Scope.loopFrame item v i count :: s) l') out' := by
  induction vs generalizing i l out with
  | nil => simp at hv
  | cons w vs ih =>
    obtain ⟨a, ha, h⟩ := h.bind (hb _ _)
    obtain ⟨b, hb', -⟩ := h.bind (keeps_eachItem hb s item count (i + 1) vs a.language)
    rcases List.mem_cons.1 hv with rfl | hv
    · exact ⟨i, l, a, ha⟩
    · exact ih hb' hv

mutual

theorem exists_written_of_node (hc : Steady c I) (n : Node) {path : Path}
    (hw : writes path n = true) {s : Scope} {inList : Bool} {l : Language} {out : Output}
    (h : MayGive I (node c s inList l n) out) :
    ∃ v, s.resolve path = .ok v ∧ ∀ member, v ≠ .inherited member := by
  cases n with
  | «variable» path' filters start =>
    obtain rfl : path' = path := by simpa [writes] using hw
    rw [node] at h
    obtain ⟨v, hv, h⟩ := mayGive_resolve h
    obtain ⟨t, ht, -⟩ := mayGive_ofValue h
    exact ⟨v, hv, Filter.not_inherited_of_applyAll ht⟩
  | parameter grouped body start =>
    rw [node] at h
    split at h
    · obtain ⟨a, ha, -⟩ := h.bind (hc.nodes body s inList l)
      exact exists_written_of_nodes hc body hw ha
    · obtain ⟨_, _, _, h⟩ := h
      simp at h
  | _ => simp [writes] at hw

/-- What is written stands for a value that can be written. -/
theorem exists_written_of_nodes (hc : Steady c I) (ns : List Node) {path : Path}
    (hw : anyWrites path ns = true) {s : Scope} {inList : Bool} {l : Language} {out : Output}
    (h : MayGive I (nodes c s inList l ns) out) :
    ∃ v, s.resolve path = .ok v ∧ ∀ member, v ≠ .inherited member := by
  cases ns with
  | nil => simp [anyWrites] at hw
  | cons n ns =>
    rw [nodes] at h
    obtain ⟨a, ha, h⟩ := h.bind (hc n s inList l)
    obtain ⟨b, hb, -⟩ := h.bind (hc.nodes ns s inList a.language)
    rcases Bool.or_eq_true_iff.1 hw with hn | hns
    · exact exists_written_of_node hc n hn ha
    · exact exists_written_of_nodes hc ns hns hb

end

theorem resolve_item {item : String} (hi : item ≠ "forloop") {name : String} {v w : Value}
    {i count : Nat}
    (h : Scope.resolve (Scope.loopFrame item v i count :: s) ⟨item, [name]⟩ = .ok w) :
    v.attribute? name = some w := by
  simp only [Scope.resolve, Scope.lookup?, Scope.loopFrame, List.findSome?_cons, List.lookup_cons,
    beq_eq_false_iff_ne.2 hi, beq_self_eq_true, Scope.attributes] at h
  cases ha : v.attribute? name with
  | none => simp [ha] at h
  | some u => simpa [ha] using h

/-- The path leads to a sequence, each item of which has the attribute, with a value that can be
written. -/
def EachWritten (s : Scope) (path : Path) (name : String) : Prop :=
  ∃ items, s.resolve path = .ok (.sequence items) ∧
    ∀ v ∈ items, ∃ w, v.attribute? name = some w ∧ ∀ member, w ≠ .inherited member

mutual

theorem eachWritten_of_node (hc : Steady c I) (n : Node) {path : Path} {name : String}
    (hw : writesEach path name n = true) {inList : Bool} {l : Language} {out : Output}
    (h : MayGive I (node c s inList l n) out) : EachWritten s path name := by
  cases n with
  | loop item collection body start =>
    simp only [writesEach, Bool.and_eq_true, decide_eq_true_eq] at hw
    obtain ⟨⟨rfl, hi⟩, hbody⟩ := hw
    rw [node] at h
    obtain ⟨v, hv, h⟩ := mayGive_resolve h
    obtain ⟨items, hitems, h⟩ := mayGive_ofValue h
    obtain ⟨_, rfl⟩ : ∃ items, v = .sequence items := by
      cases v <;> simp_all [Value.toItems]
    obtain rfl := Except.ok.inj hitems
    refine ⟨_, hv, fun v hmem => ?_⟩
    obtain ⟨i, l', out', hout⟩ :=
      mayGive_eachItem (fun s l => hc.nodes body s inList l) h hmem
    obtain ⟨w, hresolve, hne⟩ := exists_written_of_nodes hc body hbody hout
    exact ⟨w, resolve_item hi hresolve, hne⟩
  | parameterList body start =>
    rw [node] at h
    obtain ⟨a, ha, -⟩ := h.bind (hc.nodes body s true l)
    exact eachWritten_of_nodes hc body hw ha
  | _ => simp [writesEach] at hw

theorem eachWritten_of_nodes (hc : Steady c I) (ns : List Node) {path : Path} {name : String}
    (hw : anyWritesEach path name ns = true) {inList : Bool} {l : Language} {out : Output}
    (h : MayGive I (nodes c s inList l ns) out) : EachWritten s path name := by
  cases ns with
  | nil => simp [anyWritesEach] at hw
  | cons n ns =>
    rw [nodes] at h
    obtain ⟨a, ha, h⟩ := h.bind (hc n s inList l)
    obtain ⟨b, hb, -⟩ := h.bind (hc.nodes ns s inList a.language)
    rcases Bool.or_eq_true_iff.1 hw with hn | hns
    · exact eachWritten_of_node hc n hn ha
    · exact eachWritten_of_nodes hc ns hns hb

end

end Render
end CodeTemplate

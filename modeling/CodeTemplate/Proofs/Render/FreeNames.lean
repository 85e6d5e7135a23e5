import CodeTemplate.Proofs.Render.Action

/-! What nodes depend on. Of the bindings around them they see those of their free names alone, and
a call sees the values of its arguments alone. -/

namespace CodeTemplate

namespace ArgumentValue

/-- The name that a value is taken from. -/
def freeNames : ArgumentValue → List String
  | .path p => [p.name]
  | .string _ => []

/-- What an argument stands for where the call is. -/
def resolve (s : Scope) : ArgumentValue → Except Unresolved Value
  | .path p => s.resolve p
  | .string text => .ok (.string text)

end ArgumentValue

namespace Node

mutual

/-- The names that a node takes from the scope around it. In the body of a loop its item and
`forloop` are bound. -/
def freeNames : Node → List String
  | .text _ | .inherited _ | .language .. | .copyright .. => []
  | .variable path _ _ => [path.name]
  | .conditional condition thenBranch none _ => condition.name :: allFreeNames thenBranch
  | .conditional condition thenBranch (some elseBranch) _ =>
    condition.name :: (allFreeNames thenBranch ++ allFreeNames elseBranch)
  | .loop item collection body _ =>
    collection.name :: (allFreeNames body).filter fun name => name ≠ item ∧ name ≠ "forloop"
  | .filtered _ body _ => allFreeNames body
  | .imports subject body _ => subject.name :: allFreeNames body
  | .call _ args _ => args.flatMap (·.value.freeNames)
  | .docComment subject _ _ => [subject.name]
  | .literal path _ => [path.name]
  | .parameterList body _ => allFreeNames body
  | .parameter _ body _ => allFreeNames body

def allFreeNames : List Node → List String
  | [] => []
  | n :: ns => freeNames n ++ allFreeNames ns

end

end Node

namespace Scope

/-- The scopes bind the names to the same values, and the same ones of them to none. -/
def Agree (names : List String) (s s' : Scope) : Prop :=
  ∀ name ∈ names, s.lookup? name = s'.lookup? name

variable {names names' : List String} {s s' : Scope}

theorem Agree.mono (h : Agree names s s') (hs : names' ⊆ names) : Agree names' s s' :=
  fun name hm => h name (hs hm)

/-- Only the name at its start ties a path to the scope. -/
theorem resolve_congr {p : Path} (h : s.lookup? p.name = s'.lookup? p.name) :
    s.resolve p = s'.resolve p := by
  simp only [resolve, h]

theorem lookup?_loopFrame {item name : String} (v : Value) (i count : Nat)
    (h : name = item ∨ name = "forloop") (s s' : Scope) :
    lookup? (loopFrame item v i count :: s) name =
      lookup? (loopFrame item v i count :: s') name := by
  have hbound : ∃ w, (loopFrame item v i count).lookup name = some w := by
    by_cases hf : name = "forloop"
    · exact ⟨loopRecord i count, by simp [loopFrame, hf]⟩
    · obtain rfl := h.resolve_right hf
      exact ⟨v, by simp [loopFrame, List.lookup_cons, beq_eq_false_iff_ne.2 hf]⟩
  obtain ⟨w, hw⟩ := hbound
  simp [lookup?, hw]

/-- What a loop binds may differ outside. -/
theorem Agree.loop {item : String}
    (h : Agree (names.filter fun name => name ≠ item ∧ name ≠ "forloop") s s') (v : Value)
    (i count : Nat) :
    Agree names (loopFrame item v i count :: s) (loopFrame item v i count :: s') := by
  intro name hm
  by_cases hb : name = item ∨ name = "forloop"
  · exact lookup?_loopFrame v i count hb s s'
  · have hfree : name ≠ item ∧ name ≠ "forloop" := not_or.1 hb
    have hs := h name (List.mem_filter.2 ⟨hm, by simpa using hfree⟩)
    simp only [lookup?] at hs
    simp only [lookup?, List.findSome?_cons, hs]

end Scope

namespace Render

open Node (freeNames allFreeNames)
open Scope (Agree)
open CodeTemplate.Action

variable {σ : Type} {s s' : Scope}

theorem resolve_congr {path : Path} (h : s.resolve path = s'.resolve path) (p : Position) :
    (resolve s path p : Action σ Value) = resolve s' path p := by
  simp only [resolve, h]

theorem bindings_congr {args : List Argument} (p : Position)
    (h : ∀ key path, ⟨key, .path path⟩ ∈ args → s.resolve path = s'.resolve path) (frame : Frame) :
    (bindings s p frame args : Action σ Frame) = bindings s' p frame args := by
  induction args generalizing frame with
  | nil => rfl
  | cons a args ih =>
    have hargs := ih fun key path hm => h key path (List.mem_cons_of_mem _ hm)
    obtain ⟨key, path | text⟩ := a
    · simp only [bindings, resolve_congr (h key path List.mem_cons_self) p, hargs]
    · simp only [bindings, hargs]

theorem eachItem_congr {body : Scope → Language → Action σ Output} {item : String} {count : Nat}
    (h : ∀ v i l, body (Scope.loopFrame item v i count :: s) l =
      body (Scope.loopFrame item v i count :: s') l)
    (i : Nat) (vs : List Value) (l : Language) :
    eachItem body s item count i vs l = eachItem body s' item count i vs l := by
  induction vs generalizing i l with
  | nil => rfl
  | cons v vs ih => simp only [eachItem, h, ih]

/-- A call of a template depends on the values of its arguments. -/
theorem node_call_congr {args : List Argument}
    (h : ∀ key path, ⟨key, .path path⟩ ∈ args → s.resolve path = s'.resolve path) (c : Setting σ)
    (inList : Bool) (l : Language) (name : String) (start : Location) :
    node c s inList l (.call name args start) = node c s' inList l (.call name args start) := by
  simp only [node, bindings_congr _ h]

theorem mem_freeNames_call {args : List Argument} {key : String} {path : Path}
    (h : ⟨key, .path path⟩ ∈ args) : path.name ∈ args.flatMap (·.value.freeNames) :=
  List.mem_flatMap.2 ⟨_, h, by simp [ArgumentValue.freeNames]⟩

mutual

theorem node_congr (c : Setting σ) (n : Node) {s s' : Scope} (h : Agree (freeNames n) s s')
    (inList : Bool) (l : Language) : node c s inList l n = node c s' inList l n := by
  have path : ∀ p : Path, p.name ∈ freeNames n → s.resolve p = s'.resolve p :=
    fun p hp => Scope.resolve_congr (h p.name hp)
  cases n with
  | text | inherited | language | copyright => rfl
  | «variable» p filters start =>
    simp only [node, resolve_congr (path p (by simp [freeNames]))]
  | conditional p thenBranch elseBranch start =>
    cases elseBranch with
    | none =>
      have hthen := nodes_congr c thenBranch (h.mono (by simp [freeNames]))
      simp only [node, resolve_congr (path p (by simp [freeNames])), hthen]
    | some elseBranch =>
      have hthen := nodes_congr c thenBranch (h.mono (by simp [freeNames]))
      have helse := nodes_congr c elseBranch (h.mono (by simp [freeNames]))
      simp only [node, resolve_congr (path p (by simp [freeNames])), hthen, helse]
  | loop item p body start =>
    have hbound : Agree ((allFreeNames body).filter fun name => name ≠ item ∧ name ≠ "forloop")
        s s' := h.mono (by simp [freeNames])
    have hbody : ∀ count v i l, nodes c (Scope.loopFrame item v i count :: s) inList l body =
        nodes c (Scope.loopFrame item v i count :: s') inList l body :=
      fun count v i l => nodes_congr c body (hbound.loop v i count) inList l
    have hitems : ∀ items : List Value,
        eachItem (fun s l => nodes c s inList l body) s item items.length 0 items l =
          eachItem (fun s l => nodes c s inList l body) s' item items.length 0 items l :=
      fun items => eachItem_congr (hbody items.length) 0 items l
    simp only [node, resolve_congr (path p (by simp [freeNames])), hitems]
  | filtered filters body start =>
    simp only [node, nodes_congr c body (h.mono (by simp [freeNames]))]
  | imports p body start =>
    have hbody := nodes_congr c body (h.mono (by simp [freeNames]))
    simp only [node, resolve_congr (path p (by simp [freeNames])), hbody]
  | call name args start =>
    refine node_call_congr (fun key p hm => ?_) c inList l name start
    exact path p (by simpa only [freeNames] using mem_freeNames_call hm)
  | docComment p indent start =>
    simp only [node, resolve_congr (path p (by simp [freeNames]))]
  | literal p start =>
    simp only [node, resolve_congr (path p (by simp [freeNames]))]
  | parameterList body start =>
    simp only [node, nodes_congr c body (h.mono (by simp [freeNames]))]
  | parameter grouped body start =>
    simp only [node, nodes_congr c body (h.mono (by simp [freeNames]))]

/-- The induction is on the nodes; a loop is the only one that shows its body another scope. -/
theorem nodes_congr (c : Setting σ) (ns : List Node) {s s' : Scope}
    (h : Agree (allFreeNames ns) s s') (inList : Bool) (l : Language) :
    nodes c s inList l ns = nodes c s' inList l ns := by
  cases ns with
  | nil => rfl
  | cons n ns =>
    have hn := node_congr c n (h.mono (by simp [allFreeNames])) inList l
    have hns := nodes_congr c ns (h.mono (by simp [allFreeNames])) inList
    simp only [nodes, hn, hns]

end

/-- What the arguments bind a name to; of two with one key the later counts. The name of the
prototype they do not bind. -/
def argument? (s : Scope) (args : List Argument) (name : String) : Option Value :=
  if name = "__proto__" then none
  else (args.reverse.find? (·.key == name)).bind fun a => (a.value.resolve s).toOption

theorem argument?_cons {a : Argument} {args : List Argument} {v : Value}
    (ha : a.value.resolve s = .ok v) (h : ∀ a ∈ args, ∃ v, a.value.resolve s = .ok v)
    (name : String) :
    argument? s (a :: args) name =
      (argument? s args name).or (if name = a.key ∧ name ≠ "__proto__" then some v else none) := by
  by_cases hname : name = "__proto__"
  · simp [argument?, hname]
  simp only [argument?, hname, ↓reduceIte, List.reverse_cons, List.find?_append]
  cases hf : args.reverse.find? (·.key == name) with
  | none =>
    by_cases hk : name = a.key
    · subst hk
      simp [hname, ha, Except.toOption]
    · simp [hk, beq_eq_false_iff_ne.2 (Ne.symm hk)]
  | some b =>
    obtain ⟨w, hw⟩ := h b (List.mem_reverse.1 (List.mem_of_find?_eq_some hf))
    simp [hw, Except.toOption]

/-- Arguments that all stand for something make a frame of them. -/
theorem exists_bindings {args : List Argument} (p : Position)
    (h : ∀ a ∈ args, ∃ v, a.value.resolve s = .ok v) (frame : Frame) :
    ∃ frame', (bindings s p frame args : Action σ Frame) = pure frame' ∧
      ∀ name, frame'.lookup name = (argument? s args name).or (frame.lookup name) := by
  induction args generalizing frame with
  | nil => exact ⟨frame, rfl, fun name => by simp [argument?]⟩
  | cons a args ih =>
    obtain ⟨v, ha⟩ := h a List.mem_cons_self
    have hargs : ∀ a ∈ args, ∃ v, a.value.resolve s = .ok v :=
      fun a hm => h a (List.mem_cons_of_mem _ hm)
    obtain ⟨frame', hb, hl⟩ := ih hargs (frame.bind a.key v)
    refine ⟨frame', ?_, fun name => ?_⟩
    · obtain ⟨key, path | text⟩ := a
      · have hr : s.resolve path = .ok v := ha
        simpa only [bindings, resolve, hr, pure_bind] using hb
      · obtain rfl : Value.string text = v := Except.ok.inj ha
        exact hb
    · rw [hl, argument?_cons ha hargs, Option.or_assoc, Frame.lookup_bind]
      split <;> simp

/-- A call hands on what its arguments stand for. -/
theorem exists_node_call {args : List Argument} (h : ∀ a ∈ args, ∃ v, a.value.resolve s = .ok v)
    {c : Setting σ} {f : String → Frame → Language → Position → Action σ String}
    (hf : c.call = some f) (inList : Bool) (l : Language) (name : String) (start : Location) :
    ∃ frame : Frame, (∀ key, frame.lookup key = argument? s args key) ∧
      node c s inList l (.call name args start) = (do
        let text ← f name frame l ⟨c.template, start⟩
        return ⟨text, l, []⟩) := by
  obtain ⟨frame, hb, hl⟩ := exists_bindings (σ := σ) ⟨c.template, start⟩ h []
  exact ⟨frame, by simpa using hl, by simp only [node, hf, hb, pure_bind]⟩

theorem template_congr (c : Setting σ) {t : Template} {frame frame' : Frame}
    (h : ∀ name ∈ allFreeNames t.nodes, frame.lookup name = frame'.lookup name) (l : Language) :
    template c frame l t = template c frame' l t := by
  have ha : Agree (allFreeNames t.nodes) [frame] [frame'] := by
    intro name hm
    simp [Scope.lookup?, h name hm]
  simp only [template, nodes_congr c t.nodes ha]

end Render

end CodeTemplate

import Mathlib.Data.List.Forall2
import CodeTemplate.Language.Basic
import CodeTemplate.Render.Filter
import CodeTemplate.Value.Scope

/-! Shapes of values: which attributes a value has, whether it can be written, and what it may be
instead. What is known of the values that some paths lead to tells the shapes of others. -/

namespace CodeTemplate

/-- The model is in a module, and so are those that it is an array of, directly or not. -/
inductive Model.Placed : Model → Prop
  | intro {m : Model} : m.module.isSome = true → (∀ item ∈ m.arrayOf, Placed item) → Placed m

/-- The models that the method refers to are in modules. -/
structure Method.Placed (m : Method) : Prop where
  requestType : ∀ r ∈ m.requestType, r.Placed
  responseType : ∀ r ∈ m.responseType, r.Placed

/-- The code types of the properties are texts. -/
def Model.Spelled (m : Model) : Prop := ∀ p ∈ m.properties, p.codeType.IsOwn

/-- The code types of the parameters are texts. -/
def Method.Spelled (m : Method) : Prop := ∀ p ∈ m.parameters, p.codeType.IsOwn

/-- What is known of a value. A reference is a model that is referred to, of whose properties
nothing is known. -/
inductive Shape where
  | text
  | flag
  | module
  | property
  | reference
  | model
  | parameter
  | method
  | optional (s : Shape)
  | sequence (s : Shape)
  deriving DecidableEq, Repr

namespace Shape

def Holds : Shape → Value → Prop
  | text, v => ∃ s, v = .string s
  | flag, v => ∃ b, v = .bool b
  | module, v => ∃ m, v = .entity (.module m)
  | property, v => ∃ p : Property, p.codeType.IsOwn ∧ v = .entity (.property p)
  | reference, v => ∃ m : Model, m.Placed ∧ v = .entity (.model m)
  | model, v => ∃ m : Model, m.Placed ∧ m.Spelled ∧ v = .entity (.model m)
  | parameter, v => ∃ p : Parameter, p.codeType.IsOwn ∧ v = .entity (.parameter p)
  | method, v => ∃ m : Method, m.Placed ∧ m.Spelled ∧ v = .entity (.method m)
  | optional s, v => v = .null ∨ s.Holds v
  | sequence s, v => ∃ items, v = .sequence items ∧ ∀ i ∈ items, s.Holds i

/-- The attributes of a value of the shape, each with its own shape. -/
def attributes : Shape → List (String × Shape)
  | module => [("path", text), ("name", text)]
  | property => [
      ("wireName", text),
      ("codeName", text),
      ("codeType", text),
      ("description", optional text)]
  | reference => [
      ("className", text),
      ("fullClassName", text),
      ("description", optional text),
      ("module", module),
      ("arrayOf", optional reference),
      ("isArray", flag)]
  | model => [
      ("className", text),
      ("fullClassName", text),
      ("description", optional text),
      ("module", module),
      ("arrayOf", optional reference),
      ("isArray", flag),
      ("properties", sequence property)]
  | parameter => [
      ("wireName", text),
      ("codeName", text),
      ("codeType", text),
      ("description", optional text),
      ("required", flag),
      ("location", text)]
  | method => [
      ("codeName", text),
      ("path", text),
      ("httpMethod", text),
      ("description", optional text),
      ("requestType", optional reference),
      ("responseType", optional reference),
      ("parameters", sequence parameter),
      ("requiredParameters", sequence parameter),
      ("optionalParameters", sequence parameter),
      ("pathParameters", sequence parameter),
      ("queryParameters", sequence parameter)]
  | _ => []

/-! ### Values have the attributes of their shapes -/

@[simp] theorem holds_text (s : String) : text.Holds (.string s) := ⟨s, rfl⟩

@[simp] theorem holds_flag (b : Bool) : flag.Holds (.bool b) := ⟨b, rfl⟩

theorem holds_optional {α : Type} {s : Shape} {f : α → Value} {o : Option α}
    (h : ∀ a ∈ o, s.Holds (f a)) : (optional s).Holds (Value.ofOption f o) := by
  cases o with
  | none => exact .inl rfl
  | some a => exact .inr (h a rfl)

@[simp] theorem holds_text? (o : Option String) : (optional text).Holds (Value.ofText? o) :=
  holds_optional fun s _ => holds_text s

theorem holds_sequence {α : Type} {s : Shape} {f : α → Value} {as : List α}
    (h : ∀ a ∈ as, s.Holds (f a)) : (sequence s).Holds (.sequence (as.map f)) :=
  ⟨_, rfl, by simpa using h⟩

theorem holds_reference {m : Model} (h : m.Placed) : reference.Holds (Entity.ofModel m) :=
  ⟨m, h, rfl⟩

theorem holds_entry {e : PlainEntry} (h : e.IsOwn) : text.Holds (Value.ofEntry e) := by
  obtain ⟨s, rfl⟩ := h
  exact ⟨s, rfl⟩

theorem holds_parameters {ps : List Parameter} (h : ∀ p ∈ ps, p.codeType.IsOwn) :
    (sequence parameter).Holds (Entity.ofParameters ps) :=
  holds_sequence fun p hp => ⟨p, h p hp, rfl⟩

/-- What is known of each model, be it referred to or not. -/
theorem attributes_of_placed {m : Model} (h : m.Placed) :
    List.Forall₂ (fun a b => a.1 = b.1 ∧ a.2.Holds b.2) reference.attributes
      ((Entity.model m).attributes.take 6) := by
  obtain ⟨hmodule, hitem⟩ := h
  obtain ⟨module, hm⟩ := Option.isSome_iff_exists.1 hmodule
  have hplace : Shape.module.Holds (Value.ofOption (fun m => .entity (.module m)) m.module) :=
    ⟨module, by rw [hm]; rfl⟩
  have harray : (optional reference).Holds (Value.ofOption Entity.ofModel m.arrayOf) :=
    holds_optional fun item hi => holds_reference (hitem item hi)
  simp [attributes, Entity.attributes, hplace, harray]

/-- A value that is told by name, for each name with a shape, has the shape that the name has. -/
theorem lookup_of_forall₂ {as : List (String × Shape)} {bs : List (String × Value)}
    (h : List.Forall₂ (fun a b => a.1 = b.1 ∧ a.2.Holds b.2) as bs) {name : String} {s : Shape}
    (hs : as.lookup name = some s) : ∃ v, bs.lookup name = some v ∧ s.Holds v := by
  induction h with
  | nil => simp at hs
  | @cons a b _ _ hab _ ih =>
    obtain ⟨k, s'⟩ := a
    obtain ⟨_, v⟩ := b
    obtain ⟨rfl, hv⟩ := hab
    by_cases hk : name = k
    · simp only [hk, List.lookup_cons_self, Option.some.injEq] at hs ⊢
      exact ⟨v, rfl, hs ▸ hv⟩
    · rw [List.lookup_cons, beq_eq_false_iff_ne.2 hk] at hs ⊢
      exact ih hs

theorem attribute_of_forall₂ {e : Entity} {as : List (String × Shape)}
    (h : List.Forall₂ (fun a b => a.1 = b.1 ∧ a.2.Holds b.2) as e.attributes) {name : String}
    {s : Shape} (hs : as.lookup name = some s) :
    ∃ w, (Value.entity e).attribute? name = some w ∧ s.Holds w :=
  lookup_of_forall₂ h hs

theorem attribute_of_holds {sh s : Shape} {v : Value} {name : String} (hv : sh.Holds v)
    (hs : sh.attributes.lookup name = some s) : ∃ w, v.attribute? name = some w ∧ s.Holds w := by
  cases sh with
  | text | flag | optional | sequence => simp [attributes] at hs
  | module =>
    obtain ⟨m, rfl⟩ := hv
    refine attribute_of_forall₂ ?_ hs
    simp [attributes, Entity.attributes]
  | property =>
    obtain ⟨p, hp, rfl⟩ := hv
    refine attribute_of_forall₂ ?_ hs
    simp [attributes, Entity.attributes, holds_entry hp]
  | reference =>
    obtain ⟨m, hm, rfl⟩ := hv
    obtain ⟨w, hw, hholds⟩ := lookup_of_forall₂ (attributes_of_placed hm) hs
    refine ⟨w, ?_, hholds⟩
    change (Entity.model m).attributes.lookup name = some w
    rw [← List.take_append_drop 6 (Entity.model m).attributes, List.lookup_append, hw]
    rfl
  | model =>
    obtain ⟨m, hm, hspelled, rfl⟩ := hv
    have hproperty : ∀ p ∈ m.properties, property.Holds (.entity (.property p)) :=
      fun p hp => ⟨p, hspelled p hp, rfl⟩
    have hproperties : List.Forall₂ (fun a b => a.1 = b.1 ∧ a.2.Holds b.2)
        [("properties", sequence property)] ((Entity.model m).attributes.drop 6) :=
      .cons ⟨rfl, holds_sequence hproperty⟩ .nil
    exact attribute_of_forall₂ (List.rel_append (attributes_of_placed hm) hproperties) hs
  | parameter =>
    obtain ⟨p, hp, rfl⟩ := hv
    refine attribute_of_forall₂ ?_ hs
    simp [attributes, Entity.attributes, holds_entry hp]
  | method =>
    obtain ⟨m, hm, hspelled, rfl⟩ := hv
    have hrequest : (optional reference).Holds (Value.ofOption Entity.ofModel m.requestType) :=
      holds_optional fun r hr => holds_reference (hm.requestType r hr)
    have hresponse : (optional reference).Holds (Value.ofOption Entity.ofModel m.responseType) :=
      holds_optional fun r hr => holds_reference (hm.responseType r hr)
    have hfiltered : ∀ f : Parameter → Bool,
        (sequence parameter).Holds (Entity.ofParameters (m.parameters.filter f)) :=
      fun f => holds_parameters fun p hp => hspelled p (List.mem_of_mem_filter hp)
    have hrequired : (sequence parameter).Holds (Entity.ofParameters m.requiredParameters) :=
      holds_parameters fun p hp => hspelled p (List.mem_of_mem_filter (List.mem_mergeSort.1 hp))
    refine attribute_of_forall₂ ?_ hs
    simp only [attributes, Entity.attributes, List.forall₂_cons, holds_text, holds_text?, hrequest,
      hresponse, holds_parameters hspelled, hrequired, Method.optionalParameters, hfiltered,
      Method.pathParameters, Method.queryParameters, and_self, List.Forall₂.nil]

/-! ### Values that can be written -/

/-- Values of the shape can be written, as texts and as literals. -/
def isPlain : Shape → Bool
  | text | flag => true
  | optional s => s.isPlain
  | _ => false

theorem text_of_plain {s : Shape} (hs : s.isPlain = true) {v : Value} (hv : s.Holds v) :
    ∃ t, v.toText = .ok t := by
  induction s with
  | text =>
    obtain ⟨t, rfl⟩ := hv
    exact ⟨t, rfl⟩
  | flag =>
    obtain ⟨b, rfl⟩ := hv
    exact ⟨_, rfl⟩
  | optional s ih =>
    obtain rfl | hv := hv
    · exact ⟨"", rfl⟩
    · exact ih hs hv
  | _ => simp [isPlain] at hs

theorem literal_of_plain {s : Shape} (hs : s.isPlain = true) {v : Value} (hv : s.Holds v)
    (l : Language) : ∃ t, l.literal v = .ok t := by
  induction s with
  | text =>
    obtain ⟨t, rfl⟩ := hv
    exact ⟨_, rfl⟩
  | flag =>
    obtain ⟨b, rfl⟩ := hv
    exact ⟨_, rfl⟩
  | optional s ih =>
    obtain rfl | hv := hv
    · exact ⟨_, rfl⟩
    · exact ih hs hv
  | _ => simp [isPlain] at hs

theorem filtered_of_plain {s : Shape} (hs : s.isPlain = true) {v : Value} (hv : s.Holds v)
    (l : Language) (w : Comment.Width) (fs : List Filter) :
    ∃ t, Filter.applyAll l w v fs = .ok t := by
  induction fs generalizing s v with
  | nil => exact text_of_plain hs hv
  | cons f fs ih =>
    obtain ⟨t, ht⟩ : ∃ t, f.apply l w v = .ok t := by
      obtain ⟨t, ht⟩ := text_of_plain hs hv
      cases f with
      | literal => exact literal_of_plain hs hv l
      | _ => exact ⟨_, by rw [Filter.apply, ht]; rfl⟩
    obtain ⟨t', ht'⟩ := ih (s := text) rfl (holds_text t)
    exact ⟨t', by simp only [Filter.applyAll, ht, ht']⟩

/-! ### Paths -/

/-- The shape of what attributes, read one after the other, lead to. -/
def walk : Shape → List String → Option Shape
  | s, [] => some s
  | s, a :: as => (s.attributes.lookup a).bind fun s => walk s as

theorem attributes_of_walk {sh s : Shape} {as : List String} (h : sh.walk as = some s) {v : Value}
    (hv : sh.Holds v) (path : String) : ∃ w, Scope.attributes v path as = .ok w ∧ s.Holds w := by
  induction as generalizing sh v path with
  | nil =>
    obtain rfl := Option.some.inj h
    exact ⟨v, rfl, hv⟩
  | cons a as ih =>
    obtain ⟨s', hs', hrest⟩ := Option.bind_eq_some_iff.1 h
    obtain ⟨w, hw, hholds⟩ := attribute_of_holds hv hs'
    simp only [Scope.attributes, hw]
    exact ih hrest hholds _

end Shape

theorem Scope.attributes_append {v w : Value} {path : String} {as : List String}
    (h : attributes v path as = .ok w) (bs : List String) :
    ∃ path', attributes v path (as ++ bs) = attributes w path' bs := by
  induction as generalizing v path with
  | nil =>
    obtain rfl := Except.ok.inj h
    exact ⟨path, rfl⟩
  | cons a as ih =>
    simp only [attributes, List.cons_append] at h ⊢
    cases ha : v.attribute? a with
    | none => simp [ha] at h
    | some u =>
      simp only [ha] at h ⊢
      exact ih h

/-- The shape of what a path leads to. -/
structure Fact where
  path : Path
  shape : Shape
  deriving DecidableEq, Repr

namespace Fact

def Holds (f : Fact) (s : Scope) : Prop := ∃ v, s.resolve f.path = .ok v ∧ f.shape.Holds v

/-- The shape of what a path leads to, if the path starts with that of the fact. -/
def shape? (f : Fact) (p : Path) : Option Shape :=
  if p.name = f.path.name then
    (p.attributes.dropPrefix? f.path.attributes).bind fun as => f.shape.walk as
  else none

theorem Holds.resolve {f : Fact} {s : Scope} (h : f.Holds s) {p : Path} {sh : Shape}
    (hp : f.shape? p = some sh) : ∃ v, s.resolve p = .ok v ∧ sh.Holds v := by
  obtain ⟨v, hv, hholds⟩ := h
  obtain ⟨name, attributes⟩ := p
  obtain ⟨⟨fname, fattributes⟩, shape⟩ := f
  simp only [shape?] at hp
  split at hp
  · next hname =>
    obtain ⟨as, has, hwalk⟩ := Option.bind_eq_some_iff.1 hp
    obtain ⟨_, rfl, hprefix⟩ := List.dropPrefix?_eq_some_iff.1 has
    obtain rfl := eq_of_beq hprefix
    subst hname
    simp only [Scope.resolve] at hv ⊢
    cases hl : s.lookup? name with
    | none => simp [hl] at hv
    | some u =>
      simp only [hl] at hv ⊢
      obtain ⟨path', happ⟩ := Scope.attributes_append hv as
      rw [happ]
      exact Shape.attributes_of_walk hwalk hholds path'
  · simp at hp

end Fact

/-- What is known in a scope. -/
abbrev Facts := List Fact

namespace Facts

def Hold (Γ : Facts) (s : Scope) : Prop := ∀ f ∈ Γ, f.Holds s

/-- The shape of what the path leads to, by the first fact that tells it. -/
def shape? (Γ : Facts) (p : Path) : Option Shape := Γ.findSome? (·.shape? p)

theorem Hold.resolve {Γ : Facts} {s : Scope} (h : Γ.Hold s) {p : Path} {sh : Shape}
    (hp : Γ.shape? p = some sh) : ∃ v, s.resolve p = .ok v ∧ sh.Holds v := by
  obtain ⟨f, hf, hshape⟩ := List.exists_of_findSome?_eq_some hp
  exact (h f hf).resolve hshape

/-- What is known where a condition holds that has the given shape: it is not missing. -/
def given (Γ : Facts) (condition : Path) : Shape → Facts
  | .optional s => ⟨condition, s⟩ :: Γ
  | _ => Γ

theorem Hold.given {Γ : Facts} {s : Scope} (h : Γ.Hold s) {condition : Path} {sh : Shape}
    {v : Value} (hr : s.resolve condition = .ok v) (hv : sh.Holds v) (ht : v.isTrue = true) :
    (Γ.given condition sh).Hold s := by
  cases sh with
  | optional sh =>
    refine List.forall_mem_cons.2 ⟨⟨v, hr, ?_⟩, h⟩
    obtain rfl | hv := hv
    · simp [Value.isTrue] at ht
    · exact hv
  | _ => exact h

/-- What is known in a loop over items of the shape. -/
def inLoop (Γ : Facts) (item : String) (s : Shape) : Facts :=
  ⟨⟨item, []⟩, s⟩ :: Γ.filter fun f => f.path.name ≠ item ∧ f.path.name ≠ "forloop"

theorem Hold.inLoop {Γ : Facts} {s : Scope} (h : Γ.Hold s) {item : String} (hi : item ≠ "forloop")
    {sh : Shape} {v : Value} (hv : sh.Holds v) (i count : Nat) :
    (Γ.inLoop item sh).Hold (Scope.loopFrame item v i count :: s) := by
  refine List.forall_mem_cons.2 ⟨⟨v, ?_, hv⟩, fun f hf => ?_⟩
  · simp [Scope.resolve, Scope.lookup?, Scope.loopFrame, List.lookup_cons,
      beq_eq_false_iff_ne.2 hi, Scope.attributes]
  · obtain ⟨hf, hne⟩ := List.mem_filter.1 hf
    obtain ⟨hne, hne'⟩ := of_decide_eq_true hne
    obtain ⟨w, hw, hholds⟩ := h f hf
    refine ⟨w, ?_, hholds⟩
    rw [← hw]
    simp [Scope.resolve, Scope.lookup?, Scope.loopFrame, List.lookup_cons,
      beq_eq_false_iff_ne.2 hne, beq_eq_false_iff_ne.2 hne']

end Facts
end CodeTemplate

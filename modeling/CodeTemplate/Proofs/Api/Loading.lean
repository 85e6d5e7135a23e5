import Mathlib.Data.Option.Basic
import CodeTemplate.Proofs.Api.Linking

/-! APIs put together from descriptions whose names are not empty: when that succeeds, and what it
gives. -/

namespace CodeTemplate

namespace Description

/-- The names of the declared models, in order. -/
def modelNames (d : Description) : List String := (d.models.getD []).map (·.className)

def modulePath (d : Description) : String :=
  Module.pathOf (d.module.bind (·.ownerDomain)) (d.module.bind (·.path))

/-- The module that all models are in. -/
def modelModule (l : Language) (d : Description) : CodeTemplate.Module :=
  .ofPath ("/".intercalate ([d.modulePath, l.modelsFolder].filter (· ≠ ""))) l.moduleSeparator

/-- What the models and types of the description are built from. -/
def builder (l : Language) (d : Description) : ApiBuilder := ⟨l, d.modelModule l, d.models.getD []⟩

/-- The method that the described one is, where `refers` tells which model a name refers to. -/
structure Method.Makes (l : Language) (names : List String)
    (refers : String → CodeTemplate.Model → Prop) (m : Method) (n : CodeTemplate.Method) :
    Prop where
  codeName : n.codeName = m.codeName
  path : n.path = m.path
  httpMethod : n.httpMethod = m.httpMethod.getD "GET"
  description : n.description = m.description
  requestType : Option.Rel refers m.requestType n.requestType
  responseType : Option.Rel refers m.responseType n.responseType
  parameters : List.Forall₂ (·.Makes l names ·) (m.parameters.getD []) n.parameters
  order : n.order = m.parameterOrder.getD []

theorem rel_mono {refers refers' : String → CodeTemplate.Model → Prop}
    (hr : ∀ name a, refers name a → refers' name a) {name : Option String}
    {m : Option CodeTemplate.Model} (h : Option.Rel refers name m) : Option.Rel refers' name m := by
  cases h with
  | some h => exact .some (hr _ _ h)
  | none => exact .none

theorem Method.Makes.mono {l : Language} {names : List String}
    {refers refers' : String → CodeTemplate.Model → Prop} {m : Method} {n : CodeTemplate.Method}
    (h : m.Makes l names refers n) (hr : ∀ name a, refers name a → refers' name a) :
    m.Makes l names refers' n where
  codeName := h.codeName
  path := h.path
  httpMethod := h.httpMethod
  description := h.description
  requestType := rel_mono hr h.requestType
  responseType := rel_mono hr h.responseType
  parameters := h.parameters
  order := h.order

/-- The order of a method's parameters names only parameters that it has. -/
def Method.Ordered (m : Method) : Prop :=
  ∀ name ∈ m.parameterOrder.getD [], ∃ p ∈ m.parameters.getD [], p.wireName = name

/-- What an API has of its description itself. -/
structure Heads (l : Language) (d : Description) (a : Api) : Prop where
  name : a.name = d.name
  className : a.className = d.className.getD (Text.capitalize d.name)
  version : a.version = d.version
  description : a.description = d.description
  module : a.module = .ofPath d.modulePath l.moduleSeparator

end Description

namespace ApiBuilder

open Description

variable {b : ApiBuilder}

theorem Gives.optionalModel (hn : b.names.Nodup) (hd : ∀ d ∈ b.models, d.Named) {place : String}
    {name : Option String} : Gives b (b.optionalModel place name) (Option.Rel (Links b) name) := by
  cases name with
  | none =>
    refine (Gives.pure none).congr fun m => ⟨?_, ?_⟩
    · rintro rfl
      exact .none
    · rintro ⟨⟩
      rfl
  | some name =>
    refine ((Gives.model hn hd).map some).congr fun m => ⟨?_, ?_⟩
    · rintro ⟨m, hm, rfl⟩
      exact .some hm
    · rintro ⟨hm⟩
      exact ⟨_, hm, rfl⟩

theorem method_checked_ok {m n : Method} : m.checked = .ok n ↔ m.codeName ≠ "" ∧ m = n := by
  simp only [Method.checked, bind_ok, nonEmpty_ok, pure, Except.pure, Except.ok.injEq,
    exists_const]

/-- The parameters keep their names. -/
theorem exists_parameter_iff {l : Language} {names : List String}
    {ps : List Description.Parameter} {qs : List Parameter}
    (h : List.Forall₂ (·.Makes l names ·) ps qs) (name : String) :
    (∃ q ∈ qs, q.wireName = name) ↔ ∃ p ∈ ps, p.wireName = name := by
  induction h with
  | nil => simp
  | cons hm _ ih => simp [ih, hm.2.1]

theorem find?_order {m : Description.Method} {ps : List Parameter}
    (hps : List.Forall₂ (·.Makes b.language b.names ·) (m.parameters.getD []) ps) :
    (m.parameterOrder.getD []).find? (fun name => !ps.any (·.wireName == name)) = none ↔
      m.Ordered := by
  simp [List.find?_eq_none, Method.Ordered, exists_parameter_iff hps]

theorem Gives.method (hn : b.names.Nodup) (hd : ∀ d ∈ b.models, d.Named) {m : Description.Method}
    (hm : m.Named) :
    Gives b (b.method m) fun n => m.Makes b.language b.names (Links b) n ∧ m.Ordered := by
  let made (ps : List Parameter) (request response : Option Model) : Method :=
    ⟨m.codeName, m.path, m.httpMethod.getD "GET", m.description, request, response, ps,
      m.parameterOrder.getD []⟩
  let linked (ps : List Parameter) (n : Method) : Prop :=
    m.Ordered ∧ ∃ request, Option.Rel (Links b) m.requestType request ∧
      ∃ response, Option.Rel (Links b) m.responseType response ∧
        entity (made ps request response).checked = .ok n
  refine ((Gives.lift _).bind (S := linked) fun ps hps => ?_).congr fun n => ?_
  · have horder := find?_order ((parameters_ok hm.parameters).1 hps)
    dsimp only
    split
    · next name hname =>
      refine (Gives.fails _).congr fun n => ⟨False.elim, fun h => ?_⟩
      simp [horder.2 h.1] at hname
    · next hnone =>
      refine ((Gives.optionalModel hn hd).bind fun request _ =>
        (Gives.optionalModel hn hd).bind fun response _ => Gives.lift _).congr fun n => ?_
      exact ⟨fun h => ⟨horder.1 hnone, h⟩, fun h => h.2⟩
  · simp only [linked, parameters_ok hm.parameters, entity_ok, method_checked_ok]
    constructor
    · rintro ⟨ps, hps, ho, request, hrequest, response, hresponse, -, rfl⟩
      exact ⟨⟨rfl, rfl, rfl, rfl, hrequest, hresponse, hps, rfl⟩, ho⟩
    · rintro ⟨h, ho⟩
      refine ⟨n.parameters, h.parameters, ho, n.requestType, h.requestType, n.responseType,
        h.responseType, hm.codeName, ?_⟩
      obtain ⟨codeName, path, httpMethod, description, requestType, responseType, parameters,
        order⟩ := n
      obtain ⟨rfl, rfl, rfl, rfl, -, -, -, rfl⟩ := h
      rfl

end ApiBuilder

/-! ### The whole API -/

theorem firstRepeated?_eq_none {seen names : List String} :
    firstRepeated? seen names = none ↔ names.Nodup ∧ ∀ name ∈ names, name ∉ seen := by
  induction names generalizing seen with
  | nil => simp [firstRepeated?]
  | cons name names ih =>
    simp only [firstRepeated?]
    split
    · next hm => simp [hm]
    · next hm =>
      rw [ih, List.nodup_cons, List.forall_mem_cons]
      constructor
      · rintro ⟨hn, hs⟩
        refine ⟨⟨fun h => hs name h List.mem_cons_self, hn⟩, hm, fun n hmem hseen => ?_⟩
        exact hs n hmem (List.mem_cons_of_mem name hseen)
      · rintro ⟨⟨hname, hn⟩, -, hs⟩
        refine ⟨hn, fun n hmem hseen => ?_⟩
        rcases List.mem_cons.1 hseen with rfl | hseen
        · exact hname hmem
        · exact hs n hmem hseen

namespace Api

open Description ApiBuilder

variable {l : Language} {d : Description}

theorem checked_ok {a a' : Api} : a.checked = .ok a' ↔ a.name ≠ "" ∧ a.className ≠ "" ∧ a = a' := by
  simp only [Api.checked, bind_ok, nonEmpty_ok, pure, Except.pure, Except.ok.injEq, exists_const]

/-- The building of the API, after the names of its models are checked. -/
def build (l : Language) (d : Description) : Build Api := do
  let models ← (d.models.getD []).mapM fun m =>
    (d.builder l).model [] (d.models.getD []) "models" m.className
  let methods ← (d.methods.getD []).mapM (d.builder l).method
  ApiBuilder.entity (Api.checked {
    name := d.name
    className := d.className.getD (Text.capitalize d.name)
    version := d.version
    description := d.description
    module := .ofPath d.modulePath l.moduleSeparator
    methods
    models })

theorem ofDescription_eq (l : Language) (d : Description) :
    ofDescription l d =
      match firstRepeated? [] d.modelNames with
      | some name => .error (.duplicateModel name)
      | none => (build l d).run' [] :=
  rfl

theorem gives_build (hd : d.Named) (hn : d.modelNames.Nodup) :
    Gives (d.builder l) (build l d) fun a => d.Heads l a ∧
      List.Forall₂ (fun x m => Links (d.builder l) x.className m) (d.models.getD []) a.models ∧
      List.Forall₂ (fun x m => x.Makes l d.modelNames (Links (d.builder l)) m ∧ x.Ordered)
        (d.methods.getD []) a.methods := by
  have hclass : d.className.getD (Text.capitalize d.name) ≠ "" := by
    cases hc : d.className with
    | none => exact Text.capitalize_ne hd.name
    | some name =>
      rintro rfl
      exact hd.className hc
  have hnames : (d.builder l).names.Nodup := hn
  have hmodels := Gives.mapM fun (x : Description.Model) (_ : x ∈ d.models.getD []) =>
    @Gives.model (d.builder l) hnames hd.models "models" x.className
  have hmethods := Gives.mapM fun (x : Description.Method) (hx : x ∈ d.methods.getD []) =>
    Gives.method (b := d.builder l) hnames hd.models (hd.methods x hx)
  refine (hmodels.bind fun models _ => hmethods.bind fun methods _ => Gives.lift _).congr
    fun a => ?_
  simp only [entity_ok, checked_ok]
  constructor
  · rintro ⟨models, hm, methods, hms, -, -, rfl⟩
    exact ⟨⟨rfl, rfl, rfl, rfl, rfl⟩, hm, hms⟩
  · rintro ⟨hh, hm, hms⟩
    refine ⟨a.models, hm, a.methods, hms, hd.name, hclass, ?_⟩
    obtain ⟨name, className, version, description, module, methods, models⟩ := a
    obtain ⟨rfl, rfl, rfl, rfl, rfl⟩ := hh
    rfl

/-- An API is made of a description where no two models have one name, each model can be linked, and
each method can be made and names only parameters that it has. -/
theorem ofDescription_ok (hd : d.Named) {a : Api} :
    ofDescription l d = .ok a ↔
      d.modelNames.Nodup ∧ d.Heads l a ∧
      List.Forall₂ (fun x m => Links (d.builder l) x.className m) (d.models.getD []) a.models ∧
      List.Forall₂ (fun x m => x.Makes l d.modelNames (Links (d.builder l)) m ∧ x.Ordered)
        (d.methods.getD []) a.methods := by
  rw [ofDescription_eq]
  by_cases hn : d.modelNames.Nodup
  · have hnone : firstRepeated? [] d.modelNames = none :=
      firstRepeated?_eq_none.2 ⟨hn, by simp⟩
    simp only [hnone, (gives_build hd hn).run'_ok, hn, true_and]
  · cases hf : firstRepeated? [] d.modelNames with
    | none => exact absurd (firstRepeated?_eq_none.1 hf).1 hn
    | some name => simp [hn]

end Api
end CodeTemplate

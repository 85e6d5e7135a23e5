import Mathlib.Data.List.Chain
import CodeTemplate.Language.Table
import CodeTemplate.Proofs.Api.Loading

/-! Which descriptions give an API: those whose names, references and types fit together. The
models of such an API are those of its description, and whatever refers to one by name is linked
with it. -/

namespace CodeTemplate

namespace Description

/-- The model of the first name is an array of the second. -/
def ArrayLink (d : Description) (name item : String) : Prop :=
  ∃ m ∈ d.models.getD [], m.className = name ∧ m.arrayOf = some item

/-- The names, references and types of the description fit together. -/
structure Consistent (l : Language) (d : Description) : Prop where
  distinct : d.modelNames.Nodup
  declared : ∀ m ∈ d.models.getD [], ∀ item, m.arrayOf = some item → item ∈ d.modelNames
  acyclic : ∀ walk : List String, walk.IsChain d.ArrayLink → walk.Nodup
  exclusive : ∀ m ∈ d.models.getD [], m.arrayOf ≠ none → m.properties.getD [] = []
  properties : ∀ m ∈ d.models.getD [], ∀ p ∈ m.properties.getD [],
    ∃ t, p.type.HasType l d.modelNames t
  parameters : ∀ m ∈ d.methods.getD [], ∀ p ∈ m.parameters.getD [],
    ∃ t, p.type.HasType l d.modelNames t
  ordered : ∀ m ∈ d.methods.getD [], m.Ordered
  requestType : ∀ m ∈ d.methods.getD [], ∀ name, m.requestType = some name → name ∈ d.modelNames
  responseType : ∀ m ∈ d.methods.getD [], ∀ name, m.responseType = some name → name ∈ d.modelNames

/-- The model that the described one is, where `refers` tells which model a name refers to. -/
structure Model.Makes (l : Language) (names : List String) (module : CodeTemplate.Module)
    (refers : String → CodeTemplate.Model → Prop) (x : Model) (m : CodeTemplate.Model) : Prop where
  className : m.className = x.className
  description : m.description = x.description
  module : m.module = some module
  arrayOf : Option.Rel refers x.arrayOf m.arrayOf
  properties : List.Forall₂ (·.Makes l names ·) (x.properties.getD []) m.properties

theorem Model.Makes.mono {l : Language} {names : List String} {module : CodeTemplate.Module}
    {refers refers' : String → CodeTemplate.Model → Prop} {x : Model} {m : CodeTemplate.Model}
    (h : x.Makes l names module refers m) (hr : ∀ name a, refers name a → refers' name a) :
    x.Makes l names module refers' m :=
  { h with arrayOf := rel_mono hr h.arrayOf }

end Description

/-- The model of that name is one of the API's. -/
def Api.Has (a : Api) (name : String) (m : Model) : Prop := m ∈ a.models ∧ m.className = name

/-- The API has the models and methods of the description, in order; what a name refers to is among
the models. -/
structure Description.Describes (l : Language) (d : Description) (a : Api) : Prop extends
    d.Heads l a where
  names : a.models.map (·.className) = d.modelNames
  models : List.Forall₂ (·.Makes l d.modelNames (d.modelModule l) a.Has ·) (d.models.getD [])
    a.models
  methods : List.Forall₂ (·.Makes l d.modelNames a.Has ·) (d.methods.getD []) a.methods

namespace Api

open Description ApiBuilder

variable {l : Language} {d : Description}

/-! ### Consistent descriptions can be linked -/

theorem exists_forall₂ {α β : Type} {R : α → β → Prop} {as : List α} (h : ∀ a ∈ as, ∃ b, R a b) :
    ∃ bs, List.Forall₂ R as bs := by
  induction as with
  | nil => exact ⟨[], .nil⟩
  | cons a as ih =>
    obtain ⟨⟨b, hb⟩, has⟩ := List.forall_mem_cons.1 h
    obtain ⟨bs, hbs⟩ := ih has
    exact ⟨b :: bs, .cons hb hbs⟩

theorem exists_property {names : List String} {p : Description.Property}
    (h : ∃ t, p.type.HasType l names t) : ∃ q, p.Makes l names q := by
  obtain ⟨t, ht⟩ := h
  exact ⟨⟨p.wireName, p.codeName.getD p.wireName, t, p.description⟩, ht, rfl, rfl, rfl⟩

theorem exists_parameter {names : List String} {p : Description.Parameter}
    (h : ∃ t, p.type.HasType l names t) : ∃ q, p.Makes l names q := by
  obtain ⟨t, ht⟩ := h
  exact ⟨⟨p.wireName, p.codeName.getD p.wireName, t, p.description, p.required.getD false,
    p.place.getD .query⟩, ht, rfl, rfl, rfl, rfl, rfl⟩

/-- The induction is on the names that the walk to the model has not passed. -/
theorem exists_links_after (h : d.Consistent l) {walk : List String} {name : String}
    (hw : (walk ++ [name]).IsChain d.ArrayLink) (hs : walk ++ [name] ⊆ d.modelNames) :
    ∃ m, Links (d.builder l) name m := by
  induction hk : d.modelNames.length - walk.length using Nat.strongRecOn
    generalizing walk name with
  | ind k ih =>
  have hlen : (walk ++ [name]).length ≤ d.modelNames.length :=
    (h.acyclic _ hw).length_le_of_subset hs
  obtain ⟨x, hx, rfl⟩ := List.mem_map.1 (hs (List.mem_append_right _ (List.mem_singleton_self _)))
  cases ha : x.arrayOf with
  | none =>
    obtain ⟨properties, hp⟩ := exists_forall₂ fun p hp => exists_property (h.properties x hx p hp)
    exact ⟨_, .plain hx ha hp⟩
  | some item =>
    have hlink : d.ArrayLink x.className item := ⟨x, hx, rfl, ha⟩
    have hitem : item ∈ d.modelNames := h.declared x hx item ha
    have hw' : (walk ++ [x.className] ++ [item]).IsChain d.ArrayLink := by
      rw [List.isChain_append]
      exact ⟨hw, .singleton item, by simpa using hlink⟩
    have hs' : walk ++ [x.className] ++ [item] ⊆ d.modelNames :=
      List.append_subset.2 ⟨hs, by simpa using hitem⟩
    have hless : d.modelNames.length - (walk ++ [x.className]).length < k := by
      simp only [List.length_append, List.length_singleton] at hlen ⊢
      omega
    obtain ⟨m, hm⟩ := ih _ hless hw' hs' rfl
    have hp : x.properties.getD [] = [] := h.exclusive x hx (by simp [ha])
    exact ⟨_, .array hx ha hp hm⟩

theorem exists_links (h : d.Consistent l) {name : String} (hn : name ∈ d.modelNames) :
    ∃ m, Links (d.builder l) name m :=
  have hwalk : ([] ++ [name]).IsChain d.ArrayLink := .singleton name
  exists_links_after h hwalk (by simpa using hn)

theorem exists_rel {α β : Type} {R : α → β → Prop} {o : Option α}
    (h : ∀ a, o = some a → ∃ b, R a b) : ∃ r, Option.Rel R o r := by
  cases o with
  | none => exact ⟨none, .none⟩
  | some a =>
    obtain ⟨b, hb⟩ := h a rfl
    exact ⟨some b, .some hb⟩

theorem exists_method (h : d.Consistent l) {m : Description.Method}
    (hm : m ∈ d.methods.getD []) :
    ∃ n, m.Makes l d.modelNames (Links (d.builder l)) n ∧ m.Ordered := by
  obtain ⟨parameters, hp⟩ := exists_forall₂ fun p hp => exists_parameter (h.parameters m hm p hp)
  obtain ⟨request, hrequest⟩ :=
    exists_rel fun name hn => exists_links h (h.requestType m hm name hn)
  obtain ⟨response, hresponse⟩ :=
    exists_rel fun name hn => exists_links h (h.responseType m hm name hn)
  exact ⟨⟨m.codeName, m.path, m.httpMethod.getD "GET", m.description, request, response, parameters,
    m.parameterOrder.getD []⟩, ⟨rfl, rfl, rfl, rfl, hrequest, hresponse, hp, rfl⟩, h.ordered m hm⟩

theorem exists_ofDescription (hd : d.Named) (h : d.Consistent l) :
    ∃ a, ofDescription l d = .ok a := by
  obtain ⟨models, hm⟩ := exists_forall₂ fun x (hx : x ∈ d.models.getD []) =>
    exists_links h (List.mem_map_of_mem hx)
  obtain ⟨methods, hms⟩ := exists_forall₂ fun x (hx : x ∈ d.methods.getD []) => exists_method h hx
  exact ⟨⟨d.name, d.className.getD (Text.capitalize d.name), d.version, d.description,
    .ofPath d.modulePath l.moduleSeparator, methods, models⟩,
    (ofDescription_ok hd).2 ⟨h.distinct, ⟨rfl, rfl, rfl, rfl, rfl⟩, hm, hms⟩⟩

/-! ### What can be linked is consistent -/

theorem exists_right {α β : Type} {R : α → β → Prop} {as : List α} {bs : List β}
    (h : List.Forall₂ R as bs) {a : α} (ha : a ∈ as) : ∃ b ∈ bs, R a b := by
  induction h with
  | nil => simp at ha
  | @cons a' b as bs hr _ ih =>
    rcases List.mem_cons.1 ha with rfl | ha
    · exact ⟨b, List.mem_cons_self, hr⟩
    · obtain ⟨b', hb', hr'⟩ := ih ha
      exact ⟨b', List.mem_cons_of_mem b hb', hr'⟩

theorem makes_of_links (hn : d.modelNames.Nodup) {x : Description.Model}
    (hx : x ∈ d.models.getD []) {m : Model} (h : Links (d.builder l) x.className m) :
    x.Makes l d.modelNames (d.modelModule l) (Links (d.builder l)) m ∧
      (x.arrayOf ≠ none → x.properties.getD [] = []) := by
  generalize hname : x.className = name at h
  cases h with
  | plain hx' ha hp =>
    obtain rfl := eq_of_className (b := d.builder l) hn hx hx' hname
    exact ⟨⟨rfl, rfl, rfl, ha ▸ .none, hp⟩, fun hne => absurd ha hne⟩
  | array hx' ha hp hl =>
    obtain rfl := eq_of_className (b := d.builder l) hn hx hx' hname
    exact ⟨⟨rfl, rfl, rfl, ha ▸ .some hl, by simp [hp]⟩, fun _ => hp⟩

theorem mem_names_of_links {b : ApiBuilder} {name : String} {m : Model} (h : Links b name m) :
    name ∈ b.names := by
  cases h with
  | plain hx => exact List.mem_map_of_mem hx
  | array hx => exact List.mem_map_of_mem hx

/-- Along a walk the models get smaller. -/
theorem smaller_of_walk (hn : d.modelNames.Nodup) {walk : List String} {name : String} {m : Model}
    (hm : Links (d.builder l) name m) (hw : (name :: walk).IsChain d.ArrayLink) :
    ∀ other ∈ walk, ∃ m', Links (d.builder l) other m' ∧ sizeOf m' < sizeOf m := by
  induction walk generalizing name m with
  | nil => simp
  | cons item walk ih =>
    obtain ⟨⟨x, hx, rfl, ha⟩, hrest⟩ := List.isChain_cons_cons.1 hw
    obtain ⟨a, hl, hsize⟩ : ∃ a, Links (d.builder l) item a ∧ sizeOf a < sizeOf m := by
      obtain ⟨className, description, module, arrayOf, properties⟩ := m
      have hrel := (makes_of_links hn hx hm).1.arrayOf
      rw [ha] at hrel
      obtain ⟨hl⟩ := hrel
      refine ⟨_, hl, ?_⟩
      simp only [Model.mk.sizeOf_spec, Option.some.sizeOf_spec]
      omega
    refine List.forall_mem_cons.2 ⟨⟨a, hl, hsize⟩, fun other ho => ?_⟩
    obtain ⟨m', hl', hsize'⟩ := ih hl hrest other ho
    exact ⟨m', hl', Nat.lt_trans hsize' hsize⟩

theorem nodup_of_walk (hn : d.modelNames.Nodup)
    (hl : ∀ x ∈ d.models.getD [], ∃ m, Links (d.builder l) x.className m) {walk : List String}
    (hw : walk.IsChain d.ArrayLink) : walk.Nodup := by
  induction walk with
  | nil => exact .nil
  | cons name walk ih =>
    refine List.nodup_cons.2 ⟨fun hm => ?_, ih hw.tail⟩
    cases walk with
    | nil => simp at hm
    | cons item walk =>
      obtain ⟨⟨x, hx, rfl, -⟩, -⟩ := List.isChain_cons_cons.1 hw
      obtain ⟨m, hlink⟩ := hl x hx
      obtain ⟨m', hlink', hsize⟩ := smaller_of_walk hn hlink hw _ hm
      rw [Links.unique (b := d.builder l) hn hlink hlink'] at hsize
      exact Nat.lt_irrefl _ hsize

theorem consistent_of_ofDescription (hd : d.Named) {a : Api} (h : ofDescription l d = .ok a) :
    d.Consistent l := by
  obtain ⟨hn, -, hmodels, hmethods⟩ := (ofDescription_ok hd).1 h
  have hlinks : ∀ x ∈ d.models.getD [], ∃ m, Links (d.builder l) x.className m := fun x hx => by
    obtain ⟨m, -, hm⟩ := exists_right hmodels hx
    exact ⟨m, hm⟩
  have hrefers : ∀ {o : Option String} {r : Option Model},
      Option.Rel (Links (d.builder l)) o r → ∀ name, o = some name → name ∈ d.modelNames := by
    rintro o r hr name rfl
    obtain ⟨hm⟩ := hr
    exact mem_names_of_links hm
  refine ⟨hn, fun x hx => ?_, fun walk => nodup_of_walk hn hlinks, fun x hx => ?_,
    fun x hx p hp => ?_, fun x hx p hp => ?_, fun x hx => ?_, fun x hx => ?_, fun x hx => ?_⟩
  · obtain ⟨m, hm⟩ := hlinks x hx
    exact hrefers (makes_of_links hn hx hm).1.arrayOf
  · obtain ⟨m, hm⟩ := hlinks x hx
    exact (makes_of_links hn hx hm).2
  · obtain ⟨m, hm⟩ := hlinks x hx
    obtain ⟨q, -, hq⟩ := exists_right (makes_of_links hn hx hm).1.properties hp
    exact ⟨_, hq.1⟩
  · obtain ⟨m, -, hm, -⟩ := exists_right hmethods hx
    obtain ⟨q, -, hq⟩ := exists_right hm.parameters hp
    exact ⟨_, hq.1⟩
  · obtain ⟨m, -, -, ho⟩ := exists_right hmethods hx
    exact ho
  · obtain ⟨m, -, hm, -⟩ := exists_right hmethods hx
    exact hrefers hm.requestType
  · obtain ⟨m, -, hm, -⟩ := exists_right hmethods hx
    exact hrefers hm.responseType

/-! ### Names refer to models of the API -/

theorem names_of_links {b : ApiBuilder} {xs : List Description.Model} {ms : List Model}
    (h : List.Forall₂ (fun x m => Links b x.className m) xs ms) :
    ms.map (·.className) = xs.map (·.className) := by
  induction h with
  | nil => rfl
  | cons hm _ ih => simp [hm.className_eq, ih]

theorem has_of_links {a : Api} (hn : d.modelNames.Nodup)
    (hmodels : List.Forall₂ (fun x m => Links (d.builder l) x.className m) (d.models.getD [])
      a.models) {name : String} {m : Model} (h : Links (d.builder l) name m) : a.Has name m := by
  obtain ⟨x, hx, rfl⟩ := List.mem_map.1 (mem_names_of_links h)
  obtain ⟨m', hm', hl⟩ := exists_right hmodels hx
  exact ⟨Links.unique (b := d.builder l) hn h hl ▸ hm', h.className_eq⟩

theorem describes_of_ofDescription (hd : d.Named) {a : Api} (h : ofDescription l d = .ok a) :
    d.Describes l a := by
  obtain ⟨hn, hh, hmodels, hmethods⟩ := (ofDescription_ok hd).1 h
  have hhas : ∀ name m, Links (d.builder l) name m → a.Has name m :=
    fun name m => has_of_links hn hmodels
  refine { hh with names := names_of_links hmodels, models := ?_, methods := ?_ }
  · exact (List.forall₂_and_left _ _).2 ⟨fun x hx => hx, hmodels⟩ |>.imp fun x m ⟨hx, hm⟩ =>
      (makes_of_links hn hx hm).1.mono hhas
  · exact hmethods.imp fun x m hm => hm.1.mono hhas

/-- Data that passes the schema is the description of an API exactly if it is consistent; the API is
then the described one, in which each reference by name leads to the model of that name. -/
theorem ofData_consistent {raw : Data} {d : Description} (h : Description.ofData raw = .ok d)
    (l : Language) :
    ((∃ a, ofData l raw = .ok a) ↔ d.Consistent l) ∧
      (¬ d.Consistent l → ∃ f, ofData l raw = .error f) ∧
      ∀ a, ofData l raw = .ok a → d.Describes l a := by
  have hload : ofData l raw = ofDescription l d := by simp [ofData, h]
  have hd := named_of_ofData h
  have hiff : (∃ a, ofDescription l d = .ok a) ↔ d.Consistent l :=
    ⟨fun ⟨a, ha⟩ => consistent_of_ofDescription hd ha, exists_ofDescription hd⟩
  rw [hload]
  refine ⟨hiff, fun hc => ?_, fun a => describes_of_ofDescription hd⟩
  cases hr : ofDescription l d with
  | ok a => exact absurd (hiff.1 ⟨a, hr⟩) hc
  | error f => exact ⟨f, rfl⟩

/-- Books refer to books by the type of a property; a list of books is declared before them. -/
theorem ofData_consistent_books :
    let raw : Data := .object [
      ("name", .string "library"),
      ("models", .array [
        .object [("className", .string "Books"), ("arrayOf", .string "Book")],
        .object [("className", .string "Book"), ("properties", .array [
          .object [("wireName", .string "sequel"), ("$ref", .string "Book")]])]]),
      ("methods", .array [
        .object [("codeName", .string "list"), ("path", .string "books"),
          ("responseType", .string "Books")]])]
    let sequel : Description.Property :=
      ⟨"sequel", none, none, ⟨none, none, none, some "Book", none, none⟩⟩
    let d : Description := ⟨"library", none, none, none, none,
      some [⟨"Books", none, some "Book", none⟩, ⟨"Book", none, none, some [sequel]⟩],
      some [⟨"list", "books", none, none, none, some "Books", none, none⟩]⟩
    Description.ofData raw = .ok d ∧ d.Consistent .java ∧
      ∃ a, ofData .java raw = .ok a ∧ d.Describes .java a := by
  intro raw sequel d
  have hd : Description.ofData raw = .ok d := by rfl
  obtain ⟨hiff, -, hdescribes⟩ := ofData_consistent hd .java
  have ha : ∃ a, ofData .java raw = .ok a := by
    have hok : (ofData .java raw).toOption.isSome = true := by decide +kernel
    cases hr : ofData .java raw with
    | ok a => exact ⟨a, rfl⟩
    | error f => simp [hr, Except.toOption] at hok
  refine ⟨hd, hiff.1 ha, ?_⟩
  obtain ⟨a, ha⟩ := ha
  exact ⟨a, ha, hdescribes a ha⟩

/-- All the names fit together, and the type has a name of its own, but it is refused: the table of
the types inherits something of no length under the name. -/
theorem ofData_toString :
    let raw : Data := .object [
      ("name", .string "library"),
      ("models", .array [
        .object [("className", .string "Book"), ("properties", .array [
          .object [("wireName", .string "title"), ("type", .string "toString")]])]])]
    let title : Description.Property :=
      ⟨"title", none, none, ⟨none, some "toString", none, none, none, none⟩⟩
    let d : Description := ⟨"library", none, none, none, none,
      some [⟨"Book", none, none, some [title]⟩], none⟩
    Description.ofData raw = .ok d ∧ Language.java.types.lookup "toString" = none ∧
      Language.camelCase "toString" = "ToString" ∧
      ofData .java raw = .error (.entity (.emptyName "Property" "codeType")) := by
  intro raw title d
  have hfails : (match ofData .java raw with
      | .error f => f == .entity (.emptyName "Property" "codeType")
      | .ok _ => false) = true := by decide +kernel
  refine ⟨rfl, by decide, by decide +kernel, ?_⟩
  cases hr : ofData .java raw with
  | ok a => simp [hr] at hfails
  | error f => simpa [hr] using hfails

end Api
end CodeTemplate

import CodeTemplate.Api.OfDescription
import CodeTemplate.Language.Table
import CodeTemplate.Outcome
import CodeTemplate.Proofs.Api.Reading

/-! What the types of a description stand for, and what properties and parameters are made of them.
Of the models only the names matter to a type. -/

namespace CodeTemplate

/-- Going through a list succeeds where each step does. -/
theorem mapM_ok {ε α β : Type} {f : α → Except ε β} {R : α → β → Prop} {as : List α} {bs : List β}
    (h : ∀ a ∈ as, ∀ b, f a = .ok b ↔ R a b) :
    as.mapM f = .ok bs ↔ List.Forall₂ R as bs := by
  induction as generalizing bs with
  | nil => simp [pure, Except.pure, eq_comm]
  | cons a as ih =>
    obtain ⟨ha, has⟩ := List.forall_mem_cons.1 h
    simp only [List.mapM_cons, bind_ok, ha, ih has, List.forall₂_cons_left_iff]
    constructor
    · rintro ⟨b, hb, bs, hbs, h⟩
      exact ⟨b, bs, hb, hbs, (Except.ok.inj h).symm⟩
    · rintro ⟨b, bs, hb, hbs, rfl⟩
      exact ⟨b, hb, bs, hbs, rfl⟩

namespace PlainEntry

theorem isOwn_of_find? {table : List (String × String)} {name : String} {e : PlainEntry}
    (h : find? table name = some e) (hname : Inherited.all.lookup name = none) : e.IsOwn := by
  rw [find?, hname] at h
  split at h
  · next text _ => exact ⟨text, (Option.some.inj h).symm⟩
  · simp at h

end PlainEntry

/-- No inherited member has a slash in its name. -/
theorem Inherited.lookup_slash (before after : String) :
    all.lookup (before ++ "/" ++ after) = none := by
  have hslash : ∀ m ∈ all, '/' ∉ m.1.toList := by decide
  cases h : all.lookup (before ++ "/" ++ after) with
  | none => rfl
  | some member =>
    obtain ⟨init, rest, hall, -⟩ := List.lookup_eq_some_iff.1 h
    refine absurd ?_ (hslash (before ++ "/" ++ after, member) (by simp [hall]))
    simp

theorem Language.codeType_isOwn {l : Language} {type : String}
    (h : Inherited.all.lookup type = none) (format : Option String) :
    (l.codeType type format).IsOwn := by
  rw [codeType]
  split
  · next t ht =>
    rcases Option.or_eq_some_iff.1 ht with hexact | ⟨-, hbare⟩
    · obtain ⟨f, -, hf⟩ := Option.bind_eq_some_iff.1 hexact
      exact PlainEntry.isOwn_of_find? hf (Inherited.lookup_slash type f)
    · exact PlainEntry.isOwn_of_find? hbare h
  · exact ⟨_, rfl⟩

namespace Description

/-- The type stands for this one in the words of the language, where models of the given names are
declared. -/
inductive Schema.Denotes (l : Language) (names : List String) : Schema → PlainEntry → Prop
  | written {s : Schema} {t : String} : s.codeType = some t → Denotes l names s (.own t)
  | model {s : Schema} {name : String} :
      s.codeType = none → s.ref = some name → name ∈ names → Denotes l names s (.own name)
  | array {s items : Schema} {t : PlainEntry} :
      s.codeType = none → s.ref = none → s.type = some "array" → s.items = some items →
      Denotes l names items t → Denotes l names s (l.arrayOf t)
  | map {s element : Schema} {t : PlainEntry} :
      s.codeType = none → s.ref = none → s.type = some "object" → s.additional = some element →
      Denotes l names element t → Denotes l names s (l.mapOf t)
  | plain {s : Schema} {type : String} :
      s.codeType = none → s.ref = none → s.type = some type → type ≠ "array" →
      (type = "object" → s.additional = none) → Denotes l names s (l.codeType type s.format)

theorem Schema.Denotes.mono {l : Language} {names names' : List String} {s : Schema}
    {t : PlainEntry} (h : s.Denotes l names t) (hn : names ⊆ names') : s.Denotes l names' t := by
  induction h with
  | written h => exact .written h
  | model hc hr hm => exact .model hc hr (hn hm)
  | array hc hr ht hi _ ih => exact .array hc hr ht hi ih
  | map hc hr ht ha _ ih => exact .map hc hr ht ha ih
  | plain hc hr ht hne ha => exact .plain hc hr ht hne ha

/-- The type is not the name of an inherited member, if it is given. -/
def Schema.Regular (s : Schema) : Prop := ∀ type ∈ s.type, Inherited.all.lookup type = none

/-- Regular types stand for texts in the languages that are always there. -/
theorem Schema.Denotes.isOwn {l : Language} (hl : l ∈ Language.builtin) {names : List String}
    {s : Schema} {t : PlainEntry} (h : s.Denotes l names t) (hs : s.Regular) : t.IsOwn := by
  have haround : ∀ element, (l.arrayOf element).IsOwn ∧ (l.mapOf element).IsOwn := by
    intro element
    simp only [Language.builtin, List.mem_cons, List.not_mem_nil, or_false] at hl
    rcases hl with rfl | rfl | rfl | rfl <;> exact ⟨⟨_, rfl⟩, ⟨_, rfl⟩⟩
  cases h with
  | written | model => exact ⟨_, rfl⟩
  | array => exact (haround _).1
  | map => exact (haround _).2
  | plain _ _ ht => exact Language.codeType_isOwn (hs _ ht) s.format

/-- The type stands for a type that has a name in the language. -/
def Schema.HasType (l : Language) (names : List String) (s : Schema) (t : PlainEntry) : Prop :=
  t.isEmpty = false ∧ s.Denotes l names t

/-- The property of an API that the described one is. -/
def Property.Makes (l : Language) (names : List String) (p : Property)
    (q : CodeTemplate.Property) : Prop :=
  p.type.HasType l names q.codeType ∧ q.wireName = p.wireName ∧
    q.codeName = p.codeName.getD p.wireName ∧ q.description = p.description

/-- The parameter that the described one is: by default it is optional, and part of the query. -/
def Parameter.Makes (l : Language) (names : List String) (p : Parameter)
    (q : CodeTemplate.Parameter) : Prop :=
  p.type.HasType l names q.codeType ∧ q.wireName = p.wireName ∧
    q.codeName = p.codeName.getD p.wireName ∧ q.description = p.description ∧
    q.required = p.required.getD false ∧ q.place = p.place.getD .query

end Description

theorem nonEmptyEntry_ok {entity field : String} {value : PlainEntry} {u : Unit} :
    nonEmptyEntry entity field value = .ok u ↔ value.isEmpty = false := by
  by_cases h : value.isEmpty = true <;> simp [nonEmptyEntry, h]

theorem nonEmpty_ok {entity field value : String} {u : Unit} :
    nonEmpty entity field value = .ok u ↔ value ≠ "" := by
  simp [nonEmpty, nonEmptyEntry_ok, PlainEntry.isEmpty]

namespace ApiBuilder

open Description

variable {b : ApiBuilder}

/-- The names of the models that types can refer to. -/
def names (b : ApiBuilder) : List String := b.models.map (·.className)

theorem entity_ok {α : Type} {x : Except EntityFault α} {a : α} :
    entity x = .ok a ↔ x = .ok a := by
  cases x <;> simp [entity]

theorem codeType_ok {place : String} {s : Schema} {t : PlainEntry} :
    b.codeType place s = .ok t ↔ s.Denotes b.language b.names t := by
  fun_induction codeType b place s generalizing t with
  | case1 place codeType =>
    constructor
    · rintro ⟨⟩
      exact .written rfl
    · intro h
      cases h <;> simp_all
  | case2 place _ _ ref _ _ hm =>
    have hmem : ref ∈ b.names := by simpa [names] using hm
    constructor
    · rintro ⟨⟩
      exact .model rfl rfl hmem
    · intro h
      cases h <;> simp_all
  | case3 place _ _ ref _ _ hm =>
    have hmem : ref ∉ b.names := by simpa [names] using hm
    refine ⟨by simp, fun h => ?_⟩
    cases h <;> simp_all
  | case4 =>
    refine ⟨by simp, fun h => ?_⟩
    cases h <;> simp_all
  | case5 =>
    refine ⟨by simp, fun h => ?_⟩
    cases h <;> simp_all
  | case6 place format additional items ih =>
    rw [map_ok]
    constructor
    · rintro ⟨t, ht, rfl⟩
      exact .array rfl rfl rfl rfl (ih.1 ht)
    · intro h
      cases h with
      | array _ _ _ hi ht =>
        obtain rfl := Option.some.inj hi
        exact ⟨_, ih.2 ht, rfl⟩
      | _ => simp_all
  | case7 place format items element _ ih =>
    rw [map_ok]
    constructor
    · rintro ⟨t, ht, rfl⟩
      exact .map rfl rfl rfl rfl (ih.1 ht)
    · intro h
      cases h with
      | map _ _ _ ha ht =>
        obtain rfl := Option.some.inj ha
        exact ⟨_, ih.2 ht, rfl⟩
      | _ => simp_all
  | case8 place type format items hne element hobject =>
    constructor
    · rintro ⟨⟩
      exact .plain rfl rfl rfl hne fun h => absurd h hobject
    · intro h
      cases h <;> simp_all
  | case9 place type format items hne =>
    constructor
    · rintro ⟨⟩
      exact .plain rfl rfl rfl hne fun _ => rfl
    · intro h
      cases h <;> simp_all

/-- A type stands for one type at most. -/
theorem denotes_unique {s : Schema} {t t' : PlainEntry} (h : s.Denotes b.language b.names t)
    (h' : s.Denotes b.language b.names t') : t = t' := by
  have hcode : b.codeType "" s = .ok t := codeType_ok.2 h
  have hcode' : b.codeType "" s = .ok t' := codeType_ok.2 h'
  exact Except.ok.inj (hcode.symm.trans hcode')

theorem codeName_ne {p : Description.Property} (h : p.Named) :
    p.codeName.getD p.wireName ≠ "" := by
  cases hc : p.codeName with
  | none => exact h.wireName
  | some name =>
    rintro rfl
    exact h.codeName hc

theorem property_checked_ok {p q : Property} :
    p.checked = .ok q ↔ p.wireName ≠ "" ∧ p.codeName ≠ "" ∧ p.codeType.isEmpty = false ∧ p = q := by
  simp only [Property.checked, bind_ok, nonEmpty_ok, nonEmptyEntry_ok, pure, Except.pure,
    Except.ok.injEq, exists_const]

theorem parameter_checked_ok {p q : Parameter} :
    p.checked = .ok q ↔ p.wireName ≠ "" ∧ p.codeName ≠ "" ∧ p.codeType.isEmpty = false ∧ p = q := by
  simp only [Parameter.checked, bind_ok, nonEmpty_ok, nonEmptyEntry_ok, pure, Except.pure,
    Except.ok.injEq, exists_const]

theorem property_ok {className : String} {p : Description.Property} {q : Property}
    (hp : p.Named) : b.property className p = .ok q ↔ p.Makes b.language b.names q := by
  simp only [property, bind_ok, codeType_ok, entity_ok, property_checked_ok]
  constructor
  · rintro ⟨t, ht, -, -, hne, rfl⟩
    exact ⟨⟨hne, ht⟩, rfl, rfl, rfl⟩
  · obtain ⟨wireName, codeName, codeType, description⟩ := q
    rintro ⟨⟨hne, ht⟩, rfl, rfl, rfl⟩
    exact ⟨codeType, ht, hp.wireName, codeName_ne hp, hne, rfl⟩

theorem parameter_ok {method : String} {p : Description.Parameter} {q : Parameter}
    (hp : p.toProperty.Named) : b.parameter method p = .ok q ↔ p.Makes b.language b.names q := by
  simp only [parameter, bind_ok, codeType_ok, entity_ok, parameter_checked_ok]
  constructor
  · rintro ⟨t, ht, -, -, hne, rfl⟩
    exact ⟨⟨hne, ht⟩, rfl, rfl, rfl, rfl, rfl⟩
  · obtain ⟨wireName, codeName, codeType, description, required, place⟩ := q
    rintro ⟨⟨hne, ht⟩, rfl, rfl, rfl, rfl, rfl⟩
    exact ⟨codeType, ht, hp.wireName, codeName_ne hp, hne, rfl⟩

theorem properties_ok {className : String} {ps : List Description.Property} {qs : List Property}
    (hp : ∀ p ∈ ps, p.Named) :
    b.properties className ps = .ok qs ↔
      List.Forall₂ (·.Makes b.language b.names ·) ps qs :=
  mapM_ok fun p hm _ => property_ok (hp p hm)

theorem parameters_ok {method : String} {ps : List Description.Parameter} {qs : List Parameter}
    (hp : ∀ p ∈ ps, p.toProperty.Named) :
    b.parameters method ps = .ok qs ↔
      List.Forall₂ (·.Makes b.language b.names ·) ps qs :=
  mapM_ok fun p hm _ => parameter_ok (hp p hm)

/-- A described property is one property at most. -/
theorem makes_rightUnique :
    Relator.RightUnique (Description.Property.Makes b.language b.names) := by
  intro p q q' h h'
  obtain ⟨wireName, codeName, codeType, description⟩ := q
  obtain ⟨⟨-, ht⟩, rfl, rfl, rfl⟩ := h
  obtain ⟨wireName', codeName', codeType', description'⟩ := q'
  obtain ⟨⟨-, ht'⟩, rfl, rfl, rfl⟩ := h'
  have he : codeType = codeType' := denotes_unique ht ht'
  rw [he]

end ApiBuilder
end CodeTemplate

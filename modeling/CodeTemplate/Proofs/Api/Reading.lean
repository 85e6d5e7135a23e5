import CodeTemplate.Api.Description
import CodeTemplate.Proofs.Data.Reading

/-! Descriptions that are read without a fault: all their names are non-empty, and what is read of a
piece of data does not depend on where it is. -/

namespace CodeTemplate

namespace Description

open Reading Reader

/-! ### The path does not matter -/

namespace Schema

theorem uniform_assemble {items additional : List String → Reading (Option Schema)}
    {ms : List (String × Data)}
    (hi : ∀ p q o, (items p).Gives o → (items q).Gives o)
    (ha : ∀ p q o, (additional p).Gives o → (additional q).Gives o) {p q : List String} {s : Schema}
    (h : (assemble p ms (items p) (additional p)).Gives s) :
    (assemble q ms (items q) (additional q)).Gives s := by
  have ht : ∀ name, Uniform (member name (optional nonEmptyText)) :=
    fun name => uniform_member (uniform_optional uniform_nonEmptyText) name
  have hu : Uniform fun p ms => assemble p ms (items p) (additional p) := by
    refine .seq (.seq (.seq (.seq (.seq (.map (ht _) _) (ht _)) (ht _)) (ht _)) ?_) ?_
    · exact fun p q _ o h => hi p q o h
    · exact fun p q _ o h => ha p q o h
  exact hu p q ms s h

theorem readMember_cons {name k : String} {d : Data} {ms : List (String × Data)}
    {path : List String} {o : Option Schema} :
    (readMember name path ((k, d) :: ms)).Gives o ↔
      k = name ∧ (d = .missing ∧ o = none ∨
        d ≠ .missing ∧ ∃ s, (read (path ++ [name]) d).Gives s ∧ o = some s) ∨
      k ≠ name ∧ (readMember name path ms).Gives o := by
  by_cases hk : k = name
  · cases d <;> simp [readMember, hk, eq_comm]
  · cases d <;> simp [readMember, hk]

mutual

theorem uniform_read (d : Data) : ∀ p q s, (read p d).Gives s → (read q d).Gives s := by
  intro p q s h
  cases d with
  | object ms =>
    simp only [read] at h ⊢
    exact uniform_assemble (uniform_readMember ms "items")
      (uniform_readMember ms "additionalProperties") h
  | _ => simp [read] at h

/-- The induction is on the data, since a type holds the types of its elements. -/
theorem uniform_readMember (ms : List (String × Data)) (name : String) :
    ∀ p q o, (readMember name p ms).Gives o → (readMember name q ms).Gives o := by
  intro p q o h
  match ms with
  | [] => exact h
  | (k, d) :: ms =>
    rw [readMember_cons] at h ⊢
    rcases h with ⟨hk, h | ⟨hd, s, hs, ho⟩⟩ | ⟨hk, h⟩
    · exact .inl ⟨hk, .inl h⟩
    · exact .inl ⟨hk, .inr ⟨hd, s, uniform_read d _ _ s hs, ho⟩⟩
    · exact .inr ⟨hk, uniform_readMember ms name p q o h⟩

end

theorem uniform_ofMembers : Uniform ofMembers := fun _ _ ms _ h =>
  uniform_assemble (uniform_readMember ms "items") (uniform_readMember ms "additionalProperties") h

end Schema

theorem uniform_optionalText (name : String) : Uniform (member name (optional nonEmptyText)) :=
  uniform_member (uniform_optional uniform_nonEmptyText) name

theorem uniform_description (name : String) : Uniform (member name (nullable text)) :=
  uniform_member (uniform_nullable uniform_text) name

theorem Property.uniform_ofMembers : Uniform Property.ofMembers :=
  .seq (.seq (.seq (.map (uniform_member uniform_nonEmptyText _) _) (uniform_optionalText _))
    (uniform_description _)) Schema.uniform_ofMembers

theorem Model.uniform_ofMembers : Uniform Model.ofMembers :=
  .seq (.seq (.seq (.map (uniform_member uniform_nonEmptyText _) _) (uniform_description _))
    (uniform_optionalText _))
    (uniform_member (uniform_optional (uniform_list (uniform_object Property.uniform_ofMembers))) _)

/-! ### Names are not empty -/

/-- What is true of each item that is read is true of all of them. -/
theorem forall_of_gives_items {α : Type} {r : Reader α} {P : α → Prop}
    (hr : ∀ path d a, (r path d).Gives a → P a) {path : List String} {i : Nat} {ds : List Data}
    {as : List α} (h : (items r path i ds).Gives as) : ∀ a ∈ as, P a := by
  induction ds generalizing i as with
  | nil =>
    obtain rfl := gives_pure.1 h
    simp
  | cons d ds ih =>
    simp only [items, gives_seq, gives_map] at h
    obtain ⟨_, bs, ⟨b, hb, rfl⟩, hbs, rfl⟩ := h
    exact List.forall_mem_cons.2 ⟨hr _ _ _ hb, ih hbs⟩

theorem forall_of_gives_objects {α : Type} {r : List String → List (String × Data) → Reading α}
    {P : α → Prop} (hr : ∀ path ms a, (r path ms).Gives a → P a) {path : List String} {d : Data}
    {o : Option (List α)} (h : (optional (list (object r)) path d).Gives o) :
    ∀ a ∈ o.getD [], P a := by
  cases o with
  | none => simp
  | some as =>
    obtain ⟨ds, -, hds⟩ := gives_list.1 (gives_of_optional h)
    refine forall_of_gives_items (fun path d a ha => ?_) hds
    obtain ⟨ms, -, hms⟩ := gives_object.1 ha
    exact hr path ms a hms

theorem ne_of_gives_optionalText {path : List String} {d : Data} {o : Option String}
    (h : (optional nonEmptyText path d).Gives o) : o ≠ some "" := by
  rintro rfl
  exact (gives_nonEmptyText.1 (gives_of_optional h)).2 rfl

structure Property.Named (p : Property) : Prop where
  wireName : p.wireName ≠ ""
  codeName : p.codeName ≠ some ""

structure Model.Named (m : Model) : Prop where
  className : m.className ≠ ""
  properties : ∀ p ∈ m.properties.getD [], p.Named

structure Method.Named (m : Method) : Prop where
  codeName : m.codeName ≠ ""
  parameters : ∀ p ∈ m.parameters.getD [], p.toProperty.Named

/-- None of the names that a description gives is empty. -/
structure Named (d : Description) : Prop where
  name : d.name ≠ ""
  className : d.className ≠ some ""
  models : ∀ m ∈ d.models.getD [], m.Named
  methods : ∀ m ∈ d.methods.getD [], m.Named

variable {path : List String} {ms : List (String × Data)}

theorem Property.named_of_gives {p : Property} (h : (ofMembers path ms).Gives p) : p.Named := by
  simp only [ofMembers, gives_seq, gives_map, gives_member] at h
  obtain ⟨_, _, ⟨_, _, ⟨_, _, ⟨wireName, hw, rfl⟩, hc, rfl⟩, _, rfl⟩, _, rfl⟩ := h
  exact ⟨(gives_nonEmptyText.1 hw).2, ne_of_gives_optionalText hc⟩

theorem Parameter.named_of_gives {p : Parameter} (h : (ofMembers path ms).Gives p) :
    p.toProperty.Named := by
  simp only [ofMembers, gives_seq, gives_map, gives_member] at h
  obtain ⟨_, _, ⟨_, _, ⟨q, hq, rfl⟩, _, rfl⟩, _, rfl⟩ := h
  exact Property.named_of_gives hq

theorem Model.named_of_gives {m : Model} (h : (ofMembers path ms).Gives m) : m.Named := by
  simp only [ofMembers, gives_seq, gives_map, gives_member] at h
  obtain ⟨_, _, ⟨_, _, ⟨_, _, ⟨className, hc, rfl⟩, _, rfl⟩, _, rfl⟩, hp, rfl⟩ := h
  exact ⟨(gives_nonEmptyText.1 hc).2,
    forall_of_gives_objects (fun _ _ _ h => Property.named_of_gives h) hp⟩

theorem Method.named_of_gives {m : Method} (h : (ofMembers path ms).Gives m) : m.Named := by
  simp only [ofMembers, gives_seq, gives_map, gives_member] at h
  obtain ⟨_, _, ⟨_, _, ⟨_, _, ⟨_, _, ⟨_, _, ⟨_, _, ⟨_, _, ⟨codeName, hc, rfl⟩, _, rfl⟩, _, rfl⟩,
    _, rfl⟩, _, rfl⟩, _, rfl⟩, hp, rfl⟩, _, rfl⟩ := h
  exact ⟨(gives_nonEmptyText.1 hc).2,
    forall_of_gives_objects (fun _ _ _ h => Parameter.named_of_gives h) hp⟩

theorem ofData_eq_ok_iff {raw : Data} {d : Description} :
    ofData raw = .ok d ↔ ∃ ms, raw = .object ms ∧ (ofMembers [] ms).Gives d := by
  rw [ofData, result_eq_ok_iff, gives_object]

theorem named_of_ofData {raw : Data} {d : Description} (h : ofData raw = .ok d) : d.Named := by
  obtain ⟨ms, -, h⟩ := ofData_eq_ok_iff.1 h
  simp only [ofMembers, gives_seq, gives_map, gives_member] at h
  obtain ⟨_, _, ⟨_, _, ⟨_, _, ⟨_, _, ⟨_, _, ⟨_, _, ⟨name, hn, rfl⟩, hc, rfl⟩, _, rfl⟩, _, rfl⟩,
    _, rfl⟩, hms, rfl⟩, hmethods, rfl⟩ := h
  exact ⟨(gives_nonEmptyText.1 hn).2, ne_of_gives_optionalText hc,
    forall_of_gives_objects (fun _ _ _ h => Model.named_of_gives h) hms,
    forall_of_gives_objects (fun _ _ _ h => Method.named_of_gives h) hmethods⟩

end Description
end CodeTemplate

import Mathlib.Data.List.Forall2
import CodeTemplate.Data.Reading
import CodeTemplate.Proofs.Number.Integer

/-! Readings without a fault. What they give does not depend on where the data is, and a reader is
known by the data that each of its values stands for. A reading without a value has a fault. -/

namespace CodeTemplate

namespace Data

/-- Data that is there. -/
def given? : Data → Option Data
  | missing => none
  | d => some d

theorem given?_of_ne {d : Data} (h : d ≠ missing) : d.given? = some d := by
  cases d with
  | missing => exact absurd rfl h
  | _ => rfl

/-- What an object says under a name. -/
def field? : Data → String → Option Data
  | object ms, name => (ms.lookup name).bind given?
  | _, _ => none

end Data

namespace Reading

variable {α β : Type}

/-- The value is read, without any fault. -/
def Gives (r : Reading α) (a : α) : Prop := r.value = some a ∧ r.issues = []

theorem result_eq_ok_iff {r : Reading α} {a : α} : r.result = .ok a ↔ r.Gives a := by
  obtain ⟨value, issues⟩ := r
  cases value <;> cases issues <;> simp [result, Gives]

theorem isOk_result_iff {r : Reading α} : r.result.isOk = true ↔ ∃ a, r.Gives a := by
  simp only [← result_eq_ok_iff]
  cases r.result <;> simp [Except.isOk, Except.toBool]

@[simp] theorem gives_pure {a b : α} : (pure a : Reading α).Gives b ↔ a = b := by
  simp [Gives, pure]

@[simp] theorem gives_seq {f : Reading (α → β)} {x : Reading α} {b : β} :
    (f <*> x).Gives b ↔ ∃ g a, f.Gives g ∧ x.Gives a ∧ g a = b := by
  obtain ⟨fv, fi⟩ := f
  obtain ⟨xv, xi⟩ := x
  cases fv <;> cases xv <;> simp [Gives, Seq.seq, and_assoc, and_comm]

@[simp] theorem gives_map {f : α → β} {x : Reading α} {b : β} :
    (f <$> x).Gives b ↔ ∃ a, x.Gives a ∧ f a = b := by
  change (pure f <*> x).Gives b ↔ _
  simp

@[simp] theorem not_gives_wrong {path : List String} {expected : String} {d : Data} {a : α} :
    ¬ (wrong path expected d).Gives a := by
  simp [Gives, wrong, fault]

theorem gives_check {r : Reading α} {ok : Bool} {path : List String} {f : DataFault} {a : α} :
    (r.check ok path f).Gives a ↔ r.Gives a ∧ ok = true := by
  cases ok <;> simp [Gives, check]

/-- What is read without a fault does not depend on the path that leads there. -/
def Uniform {δ : Type} (r : List String → δ → Reading α) : Prop :=
  ∀ p q d a, (r p d).Gives a → (r q d).Gives a

theorem Uniform.iff {δ : Type} {r : List String → δ → Reading α} (h : Uniform r)
    (p q : List String) (d : δ) (a : α) : (r p d).Gives a ↔ (r q d).Gives a :=
  ⟨h p q d a, h q p d a⟩

theorem Uniform.map {δ : Type} {r : List String → δ → Reading α} (h : Uniform r) (f : α → β) :
    Uniform fun p d => f <$> r p d := by
  intro p q d b hb
  obtain ⟨a, ha, hf⟩ := gives_map.1 hb
  exact gives_map.2 ⟨a, h p q d a ha, hf⟩

theorem Uniform.seq {δ : Type} {f : List String → δ → Reading (α → β)}
    {x : List String → δ → Reading α} (hf : Uniform f) (hx : Uniform x) :
    Uniform fun p d => f p d <*> x p d := by
  intro p q d b hb
  obtain ⟨g, a, hg, ha, hga⟩ := gives_seq.1 hb
  exact gives_seq.2 ⟨g, a, hf p q d g hg, hx p q d a ha, hga⟩

/-- A reading without a value tells why. -/
def Explained (r : Reading α) : Prop := r.value = none → r.issues ≠ []

theorem explained_pure (a : α) : (pure a : Reading α).Explained := by
  simp [Explained, pure]

theorem explained_fault (path : List String) (f : DataFault) :
    (fault path f : Reading α).Explained := by
  simp [Explained, fault]

theorem explained_wrong (path : List String) (expected : String) (d : Data) :
    (wrong path expected d : Reading α).Explained :=
  explained_fault path _

theorem Explained.check {r : Reading α} (hr : r.Explained) (ok : Bool) (path : List String)
    (f : DataFault) : (r.check ok path f).Explained := by
  cases ok with
  | true => exact hr
  | false => simp [Explained, Reading.check]

theorem Explained.seq {f : Reading (α → β)} {x : Reading α} (hf : f.Explained)
    (hx : x.Explained) : (f <*> x).Explained := by
  obtain ⟨fv, fi⟩ := f
  obtain ⟨xv, xi⟩ := x
  cases fv with
  | none =>
    have hfi : fi ≠ [] := hf rfl
    exact fun _ h => hfi (List.append_eq_nil_iff.1 h).1
  | some g =>
    cases xv with
    | none =>
      have hxi : xi ≠ [] := hx rfl
      exact fun _ h => hxi (List.append_eq_nil_iff.1 h).2
    | some a => exact fun h => absurd h (Option.some_ne_none _)

theorem Explained.map {x : Reading α} (hx : x.Explained) (f : α → β) : (f <$> x).Explained :=
  (explained_pure f).seq hx

/-- A result that is an error tells of at least one fault. -/
theorem Explained.ne_nil {r : Reading α} (hr : r.Explained) {issues : List Issue}
    (h : r.result = .error issues) : issues ≠ [] := by
  obtain ⟨value, faults⟩ := r
  cases value with
  | none =>
    obtain rfl : faults = issues := Except.error.inj h
    exact hr rfl
  | some a =>
    cases faults with
    | nil => cases h
    | cons i faults =>
      obtain rfl : i :: faults = issues := Except.error.inj h
      exact List.cons_ne_nil i faults

end Reading

namespace Reader

open Reading

variable {α : Type} {path : List String}

@[simp] theorem gives_nonEmptyText {d : Data} {s : String} :
    (nonEmptyText path d).Gives s ↔ d = .string s ∧ s ≠ "" := by
  cases d with
  | string t =>
    simp only [nonEmptyText, gives_check, gives_pure, bne_iff_ne, Data.string.injEq]
    constructor
    · rintro ⟨rfl, h⟩
      exact ⟨rfl, h⟩
    · rintro ⟨rfl, h⟩
      exact ⟨rfl, h⟩
  | _ => simp [nonEmptyText]

/-- An optional value is read where there is something to read. -/
theorem gives_optional {r : Reader α} {d : Data} {o : Option α} :
    (optional r path d).Gives o ↔
      d = .missing ∧ o = none ∨ d ≠ .missing ∧ ∃ a, (r path d).Gives a ∧ o = some a := by
  cases d <;> simp [optional, eq_comm]

theorem gives_of_optional {r : Reader α} {d : Data} {a : α}
    (h : (optional r path d).Gives (some a)) : (r path d).Gives a := by
  rcases gives_optional.1 h with ⟨-, h⟩ | ⟨-, b, hb, h⟩
  · simp at h
  · rwa [Option.some.inj h]

theorem gives_list {r : Reader α} {d : Data} {as : List α} :
    (list r path d).Gives as ↔ ∃ ds, d = .array ds ∧ (items r path 0 ds).Gives as := by
  cases d <;> simp [list]

/-- Each item of a list is read by itself. -/
theorem gives_items {r : Reader α} (hr : Uniform r) {i : Nat} {ds : List Data} {as : List α} :
    (items r path i ds).Gives as ↔ List.Forall₂ (fun d a => (r [] d).Gives a) ds as := by
  induction ds generalizing i as with
  | nil => simp [items, eq_comm]
  | cons d ds ih =>
    simp only [items, gives_seq, gives_map, List.forall₂_cons_left_iff]
    constructor
    · rintro ⟨_, bs, ⟨a, ha, rfl⟩, hbs, rfl⟩
      exact ⟨a, bs, hr _ _ d a ha, ih.1 hbs, rfl⟩
    · rintro ⟨a, bs, ha, hbs, rfl⟩
      exact ⟨_, bs, ⟨a, hr _ _ d a ha, rfl⟩, ih.2 hbs, rfl⟩

theorem gives_object {r : List String → List (String × Data) → Reading α} {d : Data} {a : α} :
    (object r path d).Gives a ↔ ∃ ms, d = .object ms ∧ (r path ms).Gives a := by
  cases d <;> simp [object]

/-- A member of an object is read where it is. -/
theorem gives_member {name : String} {r : Reader α} {ms : List (String × Data)} {a : α} :
    (member name r path ms).Gives a ↔
      (r (path ++ [name]) ((ms.lookup name).getD .missing)).Gives a :=
  Iff.rfl

/-- The second reader is used where the first one finds a fault. -/
theorem gives_either {r₁ r₂ : Reader α} {d : Data} {a : α} :
    (either r₁ r₂ path d).Gives a ↔
      (r₁ path d).Gives a ∨ (¬ ∃ b, (r₁ path d).Gives b) ∧ (r₂ path d).Gives a := by
  have hok₁ : (r₁ path d).Gives a → (r₁ path d).result.isOk = true :=
    fun h => isOk_result_iff.2 ⟨a, h⟩
  have hok₂ : (r₂ path d).Gives a → (r₂ path d).result.isOk = true :=
    fun h => isOk_result_iff.2 ⟨a, h⟩
  have hfault : ¬ (fault path .noAlternative : Reading α).Gives a := by simp [Gives, fault]
  rw [← isOk_result_iff]
  simp only [either]
  split_ifs <;> tauto

/-! ### The data that the values stand for -/

/-- The reader gives the values with `P`, each for the data that it stands for. -/
structure Reads (r : Reader α) (data : α → Data) (P : α → Prop) : Prop where
  gives : ∀ path d a, (r path d).Gives a ↔ d = data a ∧ P a
  explained : ∀ path d, (r path d).Explained

theorem reads_text : Reads text .string fun _ => True where
  gives path d s := by
    cases d <;> simp [text]
  explained path d := by
    cases d with
    | string s => exact explained_pure s
    | _ => exact explained_wrong path _ _

theorem reads_nonEmptyText : Reads nonEmptyText .string (· ≠ "") where
  gives _ _ _ := gives_nonEmptyText
  explained path d := by
    cases d with
    | string s => exact (explained_pure s).check _ _ _
    | _ => exact explained_wrong path _ _

theorem reads_flag : Reads flag .bool fun _ => True where
  gives path d b := by
    cases d <;> simp [flag]
  explained path d := by
    cases d with
    | bool b => exact explained_pure b
    | _ => exact explained_wrong path _ _

theorem reads_count : Reads count .number Number.IsPositiveInteger where
  gives path d n := by
    cases d with
    | number x =>
      have hcount : (count path (.number x)).Gives n ↔ x = n ∧ x.IsPositiveInteger := by
        cases x with
        | nan => simp [count, Number.isPositiveInteger_iff, Number.toInt?]
        | _ => simp [count, gives_check, Number.isPositiveInteger_iff, and_assoc]
      rw [hcount, Data.number.injEq]
      exact and_congr_right fun h => h ▸ Iff.rfl
    | _ => simp [count]
  explained path d := by
    cases d with
    | number x =>
      cases x with
      | nan => exact explained_wrong path _ _
      | _ => exact ((explained_pure _).check _ _ _).check _ _ _
    | _ => exact explained_wrong path _ _

/-! ### The path does not matter -/

theorem Reads.uniform {r : Reader α} {data : α → Data} {P : α → Prop} (h : Reads r data P) :
    Uniform r :=
  fun p q d a ha => (h.gives q d a).2 ((h.gives p d a).1 ha)

theorem uniform_text : Uniform text := reads_text.uniform

theorem uniform_nonEmptyText : Uniform nonEmptyText := reads_nonEmptyText.uniform

theorem uniform_optional {r : Reader α} (hr : Uniform r) : Uniform (optional r) := by
  intro p q d o h
  rw [gives_optional] at h ⊢
  simpa only [hr.iff q p d] using h

theorem uniform_nullable {r : Reader α} (hr : Uniform r) : Uniform (nullable r) := by
  intro p q d o h
  cases d with
  | null => exact h
  | _ => exact uniform_optional hr p q _ o h

theorem uniform_list {r : Reader α} (hr : Uniform r) : Uniform (list r) := by
  intro p q d as h
  obtain ⟨ds, rfl, h⟩ := gives_list.1 h
  exact gives_list.2 ⟨ds, rfl, (gives_items hr).2 ((gives_items hr).1 h)⟩

theorem uniform_object {r : List String → List (String × Data) → Reading α} (hr : Uniform r) :
    Uniform (object r) := by
  intro p q d a h
  obtain ⟨ms, rfl, h⟩ := gives_object.1 h
  exact gives_object.2 ⟨ms, rfl, hr p q ms a h⟩

theorem uniform_member {r : Reader α} (hr : Uniform r) (name : String) :
    Uniform (member name r) :=
  fun p q _ a h => hr (p ++ [name]) (q ++ [name]) _ a h

/-! ### Readers put together -/

variable {β : Type} {r r₁ r₂ : Reader α} {data : α → Data} {P P₁ P₂ : α → Prop}

theorem Reads.gives_items (h : Reads r data P) {i : Nat} {ds : List Data} {as : List α} :
    (items r path i ds).Gives as ↔ ds = as.map data ∧ ∀ a ∈ as, P a := by
  rw [Reader.gives_items h.uniform]
  simp only [h.gives]
  induction as generalizing ds with
  | nil => simp
  | cons a as ih =>
    simp only [List.forall₂_cons_right_iff, ih, List.map_cons, List.forall_mem_cons]
    constructor
    · rintro ⟨d, ds, ⟨rfl, ha⟩, ⟨rfl, has⟩, rfl⟩
      exact ⟨rfl, ha, has⟩
    · rintro ⟨rfl, ha, has⟩
      exact ⟨_, _, ⟨rfl, ha⟩, ⟨rfl, has⟩, rfl⟩

theorem Reads.explained_items (h : Reads r data P) (i : Nat) (ds : List Data) :
    (items r path i ds).Explained := by
  induction ds generalizing i with
  | nil => exact explained_pure []
  | cons d ds ih => exact ((h.explained _ d).map _).seq (ih (i + 1))

theorem Reads.nonEmptyList (h : Reads r data P) :
    Reads (nonEmptyList r) (fun as => .array (as.map data)) fun as =>
      as ≠ [] ∧ ∀ a ∈ as, P a where
  gives path d as := by
    cases d with
    | array ds =>
      simp only [Reader.nonEmptyList, gives_seq, gives_map, gives_check, gives_pure, h.gives_items,
        Data.array.injEq]
      constructor
      · rintro ⟨_, bs, ⟨_, ⟨-, hds⟩, rfl⟩, ⟨rfl, hbs⟩, rfl⟩
        exact ⟨rfl, by simpa using hds, hbs⟩
      · rintro ⟨rfl, hne, has⟩
        exact ⟨_, as, ⟨(), ⟨trivial, by simpa using hne⟩, rfl⟩, ⟨rfl, has⟩, rfl⟩
    | _ => simp [Reader.nonEmptyList]
  explained path d := by
    cases d with
    | array ds => exact (((explained_pure ()).check _ _ _).map _).seq (h.explained_items 0 ds)
    | _ => exact explained_wrong path _ _

theorem Reads.map (h : Reads r data P) {f : α → β} {data' : β → Data}
    (hf : ∀ a, data' (f a) = data a) :
    Reads (fun path d => f <$> r path d) data' fun b => ∃ a, f a = b ∧ P a where
  gives path d b := by
    simp only [gives_map, h.gives]
    constructor
    · rintro ⟨a, ⟨rfl, ha⟩, rfl⟩
      exact ⟨(hf a).symm, a, rfl, ha⟩
    · rintro ⟨rfl, a, rfl, ha⟩
      exact ⟨a, ⟨hf a, ha⟩, rfl⟩
  explained path d := (h.explained path d).map f

/-- If both readers read a value, it is the same one, since the data tells the values apart. -/
theorem Reads.either (h₁ : Reads r₁ data P₁) (h₂ : Reads r₂ data P₂)
    (hdata : Function.Injective data) :
    Reads (either r₁ r₂) data fun a => P₁ a ∨ P₂ a where
  gives path d a := by
    rw [gives_either, h₁.gives, h₂.gives]
    constructor
    · rintro (⟨hd, h⟩ | ⟨-, hd, h⟩)
      · exact ⟨hd, .inl h⟩
      · exact ⟨hd, .inr h⟩
    · rintro ⟨hd, h | h⟩
      · exact .inl ⟨hd, h⟩
      · by_cases hfirst : P₁ a
        · exact .inl ⟨hd, hfirst⟩
        · refine .inr ⟨?_, hd, h⟩
          rintro ⟨b, hb⟩
          obtain ⟨hdb, hPb⟩ := (h₁.gives path d b).1 hb
          obtain rfl := hdata (hdb.symm.trans hd)
          exact hfirst hPb
  explained path d := by
    simp only [Reader.either]
    split_ifs
    · exact h₁.explained path d
    · exact h₂.explained path d
    · exact h₁.explained path d
    · exact h₂.explained path d
    · exact explained_fault path _

theorem Reads.gives_optional (h : Reads r data P) {d : Data} {o : Option α} :
    (optional r path d).Gives o ↔ o.map data = d.given? ∧ ∀ a ∈ o, P a := by
  rw [Reader.gives_optional]
  by_cases hd : d = .missing
  · subst hd
    cases o <;> simp [Data.given?]
  · rw [Data.given?_of_ne hd]
    cases o <;> simp [hd, h.gives, eq_comm]

theorem Reads.explained_optional (h : Reads r data P) (path : List String) (d : Data) :
    (optional r path d).Explained := by
  cases d with
  | missing => exact explained_pure none
  | _ => exact (h.explained path _).map some

/-- A member that may be left out is read off where it is. -/
theorem Reads.gives_member (h : Reads r data P) {name : String} {ms : List (String × Data)}
    {o : Option α} : (member name (optional r) path ms).Gives o ↔
      o.map data = (Data.object ms).field? name ∧ ∀ a ∈ o, P a := by
  have hfield : (Data.object ms).field? name = ((ms.lookup name).getD .missing).given? := by
    cases hl : ms.lookup name <;> simp [Data.field?, hl, Data.given?]
  rw [Reader.gives_member, hfield, h.gives_optional]

theorem Reads.explained_member (h : Reads r data P) (name : String) (ms : List (String × Data)) :
    (member name (optional r) path ms).Explained :=
  h.explained_optional _ _

end Reader
end CodeTemplate

import Mathlib.Data.List.Perm.Basic
import CodeTemplate.Proofs.Api.Consistency

/-! Descriptions that declare the same models in another order. Which model a name gets depends only
on which descriptions there are, so that the APIs differ in the order of their models alone. -/

namespace CodeTemplate

namespace Description

open ApiBuilder Reading Reader

variable {l : Language} {d : Description} {ws : List Model}

/-- The description with other models. -/
def withModels (d : Description) (ws : List Model) : Description := { d with models := some ws }

theorem Schema.HasType.mono {names names' : List String} {s : Schema} {t : PlainEntry}
    (h : s.HasType l names t) (hn : names ⊆ names') : s.HasType l names' t :=
  ⟨h.1, h.2.mono hn⟩

theorem Method.Makes.of_subset {names names' : List String}
    {refers : String → CodeTemplate.Model → Prop} {m : Method} {n : CodeTemplate.Method}
    (h : m.Makes l names refers n) (hn : names ⊆ names') : m.Makes l names' refers n :=
  { h with parameters := h.parameters.imp fun _ _ hp => ⟨hp.1.mono hn, hp.2⟩ }

theorem Named.withModels (hd : d.Named) (hp : (d.models.getD []).Perm ws) :
    (d.withModels ws).Named :=
  { hd with models := fun m hm => hd.models m (hp.mem_iff.2 hm) }

theorem links_withModels (hp : (d.models.getD []).Perm ws) {name : String}
    {m : CodeTemplate.Model} :
    Links ((d.withModels ws).builder l) name m ↔ Links (d.builder l) name m :=
  ⟨@Links.of_subset ((d.withModels ws).builder l) (d.builder l) rfl rfl hp.symm.subset _ _,
    @Links.of_subset (d.builder l) ((d.withModels ws).builder l) rfl rfl hp.subset _ _⟩

/-- The declared models are read one by one. -/
theorem gives_models {ms : List (String × Data)} {xs : List Data}
    (hx : ms.lookup "models" = some (.array xs)) (h : (ofMembers [] ms).Gives d) :
    List.Forall₂ (fun x w => (object Model.ofMembers [] x).Gives w) xs (d.models.getD []) := by
  simp only [ofMembers, gives_seq, gives_map, gives_member] at h
  obtain ⟨_, _, ⟨_, models, ⟨_, _, ⟨_, _, ⟨_, _, ⟨_, _, ⟨_, -, rfl⟩, -, rfl⟩, -, rfl⟩, -, rfl⟩, -,
    rfl⟩, hmodels, rfl⟩, -, rfl⟩ := h
  rw [hx] at hmodels
  rcases gives_optional.1 hmodels with ⟨hd, -⟩ | ⟨-, vs, hvs, rfl⟩
  · simp at hd
  · obtain ⟨ds, hds, hvs⟩ := gives_list.1 hvs
    obtain rfl := Data.array.inj hds
    exact (gives_items (uniform_object Model.uniform_ofMembers)).1 hvs

/-- What is read of the other members does not depend on the models. -/
theorem gives_withModels {ms ms' : List (String × Data)} {ys : List Data}
    (hy : ms'.lookup "models" = some (.array ys))
    (hm : ∀ name, name ≠ "models" → ms'.lookup name = ms.lookup name)
    (hws : List.Forall₂ (fun x w => (object Model.ofMembers [] x).Gives w) ys ws)
    (h : (ofMembers [] ms).Gives d) : (ofMembers [] ms').Gives (d.withModels ws) := by
  simp only [ofMembers, gives_seq, gives_map, gives_member] at h ⊢
  obtain ⟨_, methods, ⟨_, models, ⟨_, module, ⟨_, description, ⟨_, version, ⟨_, className,
    ⟨name, hname, rfl⟩, hclass, rfl⟩, hversion, rfl⟩, hdescription, rfl⟩, hmodule, rfl⟩, -, rfl⟩,
    hmethods, rfl⟩ := h
  rw [hy, hm "name" (by decide), hm "className" (by decide), hm "version" (by decide),
    hm "description" (by decide), hm "module" (by decide), hm "methods" (by decide)]
  refine ⟨_, methods, ⟨_, some ws, ⟨_, module, ⟨_, description, ⟨_, version, ⟨_, className,
    ⟨name, hname, rfl⟩, hclass, rfl⟩, hversion, rfl⟩, hdescription, rfl⟩, hmodule, rfl⟩, ?_, rfl⟩,
    hmethods, rfl⟩
  have hu := uniform_object Model.uniform_ofMembers
  exact gives_optional.2 (.inr ⟨by simp, ws, gives_list.2 ⟨ys, rfl, (gives_items hu).2 hws⟩, rfl⟩)

end Description

namespace Api

open Description ApiBuilder

variable {l : Language} {d : Description}

/-- Where the models of a description come in another order, so do those of its API. -/
theorem ofDescription_withModels (hd : d.Named) {ws : List Description.Model}
    (hp : (d.models.getD []).Perm ws) {a : Api} (h : ofDescription l d = .ok a) :
    ∃ models, ofDescription l (d.withModels ws) = .ok { a with models } := by
  obtain ⟨hn, hh, hmodels, hmethods⟩ := (ofDescription_ok hd).1 h
  have hnames : d.modelNames.Perm (d.withModels ws).modelNames := hp.map _
  obtain ⟨models, hlinks, -⟩ := List.perm_comp_forall₂ hp.symm hmodels
  refine ⟨models, (ofDescription_ok (hd.withModels hp)).2 ⟨hnames.nodup_iff.1 hn, ?_, ?_, ?_⟩⟩
  · exact ⟨hh.name, hh.className, hh.version, hh.description, hh.module⟩
  · exact hlinks.imp fun x m hm => (links_withModels hp).2 hm
  · refine hmethods.imp fun x m hm => ⟨?_, hm.2⟩
    exact (hm.1.of_subset hnames.subset).mono fun name m => (links_withModels hp).2

theorem forall₂_trans {α β γ : Type} {R : α → β → Prop} {S : β → γ → Prop} {as : List α}
    {bs : List β} {cs : List γ} (h : List.Forall₂ R as bs) (h' : List.Forall₂ S bs cs) :
    List.Forall₂ (fun a c => ∃ b, R a b ∧ S b c) as cs := by
  induction h generalizing cs with
  | nil => cases h'; exact .nil
  | cons hr _ ih =>
    cases h' with
    | cons hs h' => exact .cons ⟨_, hr, hs⟩ (ih h')

theorem eq_map_of_rightUnique {α β : Type} [Nonempty β] {R : α → β → Prop}
    (hr : Relator.RightUnique R) {as : List α} {bs : List β} (h : List.Forall₂ R as bs) :
    bs = as.map fun a => Classical.epsilon (R a) := by
  induction h with
  | nil => rfl
  | @cons a b _ _ hab _ ih =>
    have hb : b = Classical.epsilon (R a) := hr hab (Classical.epsilon_spec ⟨b, hab⟩)
    rw [List.map_cons, ← hb, ← ih]

theorem find?_perm {ms ns : List Model} (hn : (ms.map (·.className)).Nodup) (hp : ms.Perm ns)
    (name : String) : ms.find? (·.className == name) = ns.find? (·.className == name) := by
  cases hf : ms.find? (·.className == name) with
  | none =>
    rw [List.find?_eq_none] at hf
    exact (List.find?_eq_none.2 fun m hm => hf m (hp.mem_iff.2 hm)).symm
  | some m =>
    have hm := List.mem_of_find?_eq_some hf
    have hname := List.find?_some hf
    obtain ⟨m', hf'⟩ : ∃ m', ns.find? (·.className == name) = some m' := by
      rw [← Option.isSome_iff_exists, List.find?_isSome]
      exact ⟨m, hp.mem_iff.1 hm, hname⟩
    have hm' := hp.mem_iff.2 (List.mem_of_find?_eq_some hf')
    have hname' := List.find?_some hf'
    rw [hf', List.inj_on_of_nodup_map hn hm hm' ((eq_of_beq hname).trans (eq_of_beq hname').symm)]

/-- The model of the API that is made of a piece of data. -/
def MadeOf (l : Language) (d : Description) (x : Data) (m : Model) : Prop :=
  ∃ y, (Reader.object Description.Model.ofMembers [] x).Gives y ∧ Links (d.builder l) y.className m

theorem madeOf_rightUnique (hn : d.modelNames.Nodup) : Relator.RightUnique (MadeOf l d) := by
  rintro x m m' ⟨y, hy, hm⟩ ⟨y', hy', hm'⟩
  obtain rfl : y = y' := Option.some.inj (hy.1.symm.trans hy'.1)
  exact Links.unique (b := d.builder l) hn hm hm'

theorem ofData_eq_ok {ms : List (String × Data)} {a : Api} (h : ofData l (.object ms) = .ok a) :
    ∃ d, (Description.ofMembers [] ms).Gives d ∧ d.Named ∧ ofDescription l d = .ok a := by
  cases hd : Description.ofData (.object ms) with
  | error f => simp [ofData, hd] at h
  | ok d =>
    obtain ⟨ms', hms, hg⟩ := Description.ofData_eq_ok_iff.1 hd
    obtain rfl := Data.object.inj hms
    exact ⟨d, hg, named_of_ofData hd, by simpa [ofData, hd] using h⟩

theorem ofData_of_gives {ms : List (String × Data)} (h : (Description.ofMembers [] ms).Gives d) :
    ofData l (.object ms) = ofDescription l d := by
  have hd : Description.ofData (.object ms) = .ok d := ofData_eq_ok_iff.2 ⟨ms, rfl, h⟩
  simp [ofData, hd]

theorem models_madeOf {ms : List (String × Data)} {xs : List Data}
    (hx : ms.lookup "models" = some (.array xs)) (hg : (Description.ofMembers [] ms).Gives d)
    (hd : d.Named) {a : Api} (h : ofDescription l d = .ok a) :
    List.Forall₂ (MadeOf l d) xs a.models :=
  forall₂_trans (gives_models hx hg) ((ofDescription_ok hd).1 h).2.2.1

variable {ms ms' : List (String × Data)} {xs ys : List Data}

theorem exists_ofData_perm (hx : ms.lookup "models" = some (.array xs))
    (hy : ms'.lookup "models" = some (.array ys))
    (hm : ∀ name, name ≠ "models" → ms'.lookup name = ms.lookup name) (hp : xs.Perm ys) {a : Api}
    (h : ofData l (.object ms) = .ok a) :
    ∃ entity : Data → Model, a.models = xs.map entity ∧
      ofData l (.object ms') = .ok { a with models := ys.map entity } ∧
      (a.models.map (·.className)).Nodup := by
  obtain ⟨d, hg, hd, ha⟩ := ofData_eq_ok h
  have hn : d.modelNames.Nodup := ((ofDescription_ok hd).1 ha).1
  obtain ⟨ws, hws, hperm⟩ := List.perm_comp_forall₂ hp.symm (gives_models hx hg)
  have hg' := gives_withModels hy hm hws hg
  obtain ⟨models, ha'⟩ := ofDescription_withModels hd hperm.symm ha
  have : Nonempty Model := ⟨⟨"", none, none, none, []⟩⟩
  have hmade := models_madeOf hx hg hd ha
  have hmade' : List.Forall₂ (MadeOf l d) ys models :=
    (models_madeOf hy hg' (hd.withModels hperm.symm) ha').imp fun x m ⟨y, hy, hl⟩ =>
      ⟨y, hy, (links_withModels hperm.symm).1 hl⟩
  have hr := madeOf_rightUnique (l := l) hn
  refine ⟨_, eq_map_of_rightUnique hr hmade, ?_, ?_⟩
  · rw [ofData_of_gives hg', ha', eq_map_of_rightUnique hr hmade']
  · rw [names_of_links ((ofDescription_ok hd).1 ha).2.2.1]
    exact hn

/-- A description with its models in another order gives an API exactly if the description does. The
models of the one API are then those of the other in that order, by the same names, and all else is
the same. -/
theorem ofData_perm (l : Language) (hx : ms.lookup "models" = some (.array xs))
    (hy : ms'.lookup "models" = some (.array ys))
    (hm : ∀ name, name ≠ "models" → ms'.lookup name = ms.lookup name) (hp : xs.Perm ys) :
    ((∃ a, ofData l (.object ms) = .ok a) ↔ ∃ a, ofData l (.object ms') = .ok a) ∧
      ∀ a a', ofData l (.object ms) = .ok a → ofData l (.object ms') = .ok a' →
        a'.methods = a.methods ∧ a' = { a with models := a'.models } ∧
        (∀ name, a'.models.find? (·.className == name) = a.models.find? (·.className == name)) ∧
        ∃ entity : Data → Model, a.models = xs.map entity ∧ a'.models = ys.map entity ∧
          a.topLevelModels = (xs.filter fun x => (entity x).arrayOf.isNone).map entity ∧
          a'.topLevelModels = (ys.filter fun x => (entity x).arrayOf.isNone).map entity := by
  have hm' : ∀ name, name ≠ "models" → ms.lookup name = ms'.lookup name :=
    fun name hname => (hm name hname).symm
  refine ⟨⟨?_, ?_⟩, fun a a' ha ha' => ?_⟩
  · rintro ⟨a, ha⟩
    obtain ⟨_, -, ha', -⟩ := exists_ofData_perm hx hy hm hp ha
    exact ⟨_, ha'⟩
  · rintro ⟨a, ha⟩
    obtain ⟨_, -, ha', -⟩ := exists_ofData_perm hy hx hm' hp.symm ha
    exact ⟨_, ha'⟩
  · obtain ⟨entity, hmodels, hok, hn⟩ := exists_ofData_perm hx hy hm hp ha
    obtain rfl := Except.ok.inj (ha'.symm.trans hok)
    refine ⟨rfl, rfl, fun name => (find?_perm hn ?_ name).symm, entity, hmodels, rfl, ?_, ?_⟩
    · exact hmodels ▸ hp.map entity
    · rw [topLevelModels, hmodels, List.filter_map]
      rfl
    · rw [topLevelModels, List.filter_map]
      rfl

/-- A list of books can be declared before the books or after them. -/
theorem ofData_perm_books :
    let book : Data := .object [("className", .string "Book"), ("properties", .array [
      .object [("wireName", .string "sequel"), ("$ref", .string "Book")]])]
    let books : Data := .object [("className", .string "Books"), ("arrayOf", .string "Book")]
    let raw (models : List Data) : Data :=
      .object [("name", .string "library"), ("models", .array models)]
    [books, book].Perm [book, books] ∧
      ∃ a a', ofData .java (raw [books, book]) = .ok a ∧ ofData .java (raw [book, books]) = .ok a' ∧
        a'.methods = a.methods ∧
        ∀ name, a'.models.find? (·.className == name) = a.models.find? (·.className == name) := by
  intro book books raw
  have hp : [books, book].Perm [book, books] := .swap book books []
  let members (models : List Data) : List (String × Data) :=
    [("name", .string "library"), ("models", .array models)]
  have hmembers : ∀ models, (members models).lookup "models" = some (.array models) :=
    fun _ => rfl
  obtain ⟨hiff, hsame⟩ := ofData_perm .java (hmembers [books, book]) (hmembers [book, books])
    (fun name hne => by simp [members, List.lookup_cons, beq_eq_false_iff_ne.2 hne]) hp
  have ha : ∃ a, ofData .java (raw [books, book]) = .ok a := by
    have hok : (ofData .java (raw [books, book])).toOption.isSome = true := by decide +kernel
    cases hr : ofData .java (raw [books, book]) with
    | ok a => exact ⟨a, rfl⟩
    | error f => simp [hr, Except.toOption] at hok
  obtain ⟨a', ha'⟩ := hiff.1 ha
  obtain ⟨a, ha⟩ := ha
  obtain ⟨hmethods, -, hfind, -⟩ := hsame a a' ha ha'
  exact ⟨hp, a, a', ha, ha', hmethods, hfind⟩

end Api
end CodeTemplate

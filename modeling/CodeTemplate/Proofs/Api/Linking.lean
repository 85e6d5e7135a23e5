import Mathlib.Data.List.Nodup
import CodeTemplate.Proofs.Api.Denotation

/-! Models put together from their descriptions. A model is linked with the one that it is an array
of; which model a name gets depends on the descriptions alone, not on their order, nor on where the
building starts. -/

namespace CodeTemplate
namespace ApiBuilder

variable {b : ApiBuilder}

/-- The model of a name, linked with the models that it is an array of, directly or not. -/
inductive Links (b : ApiBuilder) : String → Model → Prop
  | plain {d : Description.Model} {properties : List Property} :
      d ∈ b.models → d.arrayOf = none →
      List.Forall₂ (·.Makes b.language b.names ·) (d.properties.getD []) properties →
      Links b d.className ⟨d.className, d.description, some b.modelModule, none, properties⟩
  | array {d : Description.Model} {item : String} {m : Model} :
      d ∈ b.models → d.arrayOf = some item → d.properties.getD [] = [] → Links b item m →
      Links b d.className ⟨d.className, d.description, some b.modelModule, some m, []⟩

theorem Links.className_eq {name : String} {m : Model} (h : Links b name m) :
    m.className = name := by
  cases h <;> rfl

theorem eq_of_className (hn : b.names.Nodup) {d d' : Description.Model} (hd : d ∈ b.models)
    (hd' : d' ∈ b.models) (h : d.className = d'.className) : d = d' :=
  List.inj_on_of_nodup_map hn hd hd' h

theorem Links.unique (hn : b.names.Nodup) {name : String} {m m' : Model} (h : Links b name m)
    (h' : Links b name m') : m = m' := by
  induction h generalizing m' with
  | @plain d properties hd ha hp =>
    generalize hname : d.className = name at h'
    cases h' with
    | plain hd' _ hp' =>
      obtain rfl := eq_of_className hn hd hd' hname
      have he : properties = _ := makes_rightUnique.forall₂ hp hp'
      rw [he]
    | array hd' ha' =>
      obtain rfl := eq_of_className hn hd hd' hname
      simp [ha] at ha'
  | @array d item a hd ha hp _ ih =>
    generalize hname : d.className = name at h'
    cases h' with
    | plain hd' ha' =>
      obtain rfl := eq_of_className hn hd hd' hname
      simp [ha] at ha'
    | array hd' ha' _ hl' =>
      obtain rfl := eq_of_className hn hd hd' hname
      obtain rfl := Option.some.inj (ha.symm.trans ha')
      rw [ih hl']

/-- Only which descriptions there are matters to the model of a name. -/
theorem Links.of_subset {b' : ApiBuilder} (hl : b.language = b'.language)
    (hm : b.modelModule = b'.modelModule) (hs : b.models ⊆ b'.models) {name : String} {m : Model}
    (h : Links b name m) : Links b' name m := by
  have hnames : b.names ⊆ b'.names := List.map_subset _ hs
  induction h with
  | plain hd ha hp =>
    rw [hm]
    refine .plain (hs hd) ha (hp.imp ?_)
    rintro p q ⟨⟨hne, ht⟩, hq⟩
    exact ⟨⟨hne, (hl ▸ ht).mono hnames⟩, hq⟩
  | array hd ha hp _ ih =>
    rw [hm]
    exact .array (hs hd) ha hp ih

/-! ### Building over a table -/

namespace Build

variable {α β : Type} {t t' : Built}

theorem run_bind_ok {x : Build α} {f : α → Build β} {b : β} :
    (x >>= f).run t = .ok (b, t') ↔ ∃ a s, x.run t = .ok (a, s) ∧ (f a).run s = .ok (b, t') := by
  simp only [StateT.run_bind, bind_ok, Prod.exists]

theorem run_lift_ok {x : Except DescriptionFault α} {a : α} :
    (liftM x : Build α).run t = .ok (a, t') ↔ x = .ok a ∧ t' = t := by
  cases x <;> simp [liftM, monadLift, MonadLift.monadLift, StateT.lift, StateT.run, bind,
    Except.bind, pure, Except.pure, eq_comm]

theorem run_pure_ok {a c : α} : (pure a : Build α).run t = .ok (c, t') ↔ c = a ∧ t' = t := by
  rw [StateT.run_pure]
  simp [pure, Except.pure, eq_comm]

theorem run_map_ok {x : Build α} {f : α → β} {b : β} :
    (f <$> x).run t = .ok (b, t') ↔ ∃ a, x.run t = .ok (a, t') ∧ b = f a := by
  rw [map_eq_pure_bind, run_bind_ok]
  constructor
  · rintro ⟨a, s, hx, hp⟩
    obtain ⟨rfl, rfl⟩ := run_pure_ok.1 hp
    exact ⟨a, hx, rfl⟩
  · rintro ⟨a, hx, rfl⟩
    exact ⟨a, t', hx, run_pure_ok.2 ⟨rfl, rfl⟩⟩

theorem run_modify_ok {f : Built → Built} {u : Unit} :
    (modify f : Build Unit).run t = .ok (u, t') ↔ t' = f t := by
  simp [modify, modifyGet, MonadStateOf.modifyGet, StateT.modifyGet, StateT.run, pure, Except.pure,
    eq_comm]

theorem run_throw_ne (f : DescriptionFault) (a : α) :
    (throw f : Build α).run t ≠ .ok (a, t') := by
  simp [throw, throwThe, MonadExceptOf.throw, StateT.lift, StateT.run, bind, Except.bind]

end Build

open Build

/-- Each model in the table is the linked one of its name. -/
def Linked (b : ApiBuilder) (t : Built) : Prop := ∀ name m, t.lookup name = some m → Links b name m

theorem linked_nil : Linked b [] := by
  intro name m h
  simp at h

theorem Linked.cons {t : Built} (h : Linked b t) {name : String} {m : Model}
    (hm : Links b name m) : Linked b ((name, m) :: t) := by
  intro other m' hl
  rw [List.lookup_cons] at hl
  split at hl
  · next hname =>
    obtain rfl := Option.some.inj hl
    obtain rfl := eq_of_beq hname
    exact hm
  · exact h other m' hl

theorem model_checked_ok {m m' : Model} :
    m.checked = .ok m' ↔
      m.className ≠ "" ∧ (m.arrayOf.isSome = true → m.properties = []) ∧ m = m' := by
  simp only [Model.checked, bind_ok, nonEmpty_ok, exists_const, and_congr_right_iff]
  intro _
  cases m.arrayOf <;> cases m.properties <;> simp [pure, Except.pure]

theorem assemble_ok {name : String} {d : Description.Model} {arrayOf : Option Model} {m : Model} :
    b.assemble name d arrayOf = .ok m ↔
      ∃ properties, b.properties name (d.properties.getD []) = .ok properties ∧ name ≠ "" ∧
        (arrayOf.isSome = true → properties = []) ∧
        ⟨name, d.description, some b.modelModule, arrayOf, properties⟩ = m := by
  simp only [assemble, bind_ok, entity_ok, model_checked_ok]

/-- What a model is an array of, built after the models that are arrays of it. -/
def item (b : ApiBuilder) (chain : List String) (others : List Description.Model) (name : String) :
    Option String → Build (Option Model)
  | none => pure none
  | some item =>
    some <$> b.model (chain ++ [name]) (without name others) (name ++ ".arrayOf") item

variable {chain : List String} {others : List Description.Model} {place name : String}
  {m : Model} {t t' : Built}

theorem run_model_kept {m' : Model} (h : t.lookup name = some m') :
    (b.model chain others place name).run t = .ok (m, t') ↔ m = m' ∧ t' = t := by
  rw [model]
  simp only [StateT.run_bind, StateT.run_get, pure_bind, h]
  exact run_pure_ok

theorem run_model_unknown (h : t.lookup name = none)
    (hf : others.find? (·.className == name) = none) :
    (b.model chain others place name).run t ≠ .ok (m, t') := by
  rw [model]
  simp only [StateT.run_bind, StateT.run_get, pure_bind, h]
  split
  · split <;> exact run_throw_ne _ _
  · next d hd => simp [hf] at hd

theorem run_model_built {d : Description.Model} (h : t.lookup name = none)
    (hf : others.find? (·.className == name) = some d) :
    (b.model chain others place name).run t = .ok (m, t') ↔
      ∃ arrayOf s, (b.item chain others name d.arrayOf).run t = .ok (arrayOf, s) ∧
        b.assemble name d arrayOf = .ok m ∧ t' = (name, m) :: s := by
  have hrun : (b.model chain others place name).run t =
      (do
        let arrayOf ← b.item chain others name d.arrayOf
        let m ← liftM (b.assemble name d arrayOf)
        modify ((name, m) :: ·)
        return m : Build Model).run t := by
    rw [model]
    simp only [StateT.run_bind, StateT.run_get, pure_bind, h]
    split
    · next hnone => simp [hf] at hnone
    · next d' hd' =>
      obtain rfl := Option.some.inj (hf.symm.trans hd')
      cases d.arrayOf with
      | none => rfl
      | some item => rfl
  rw [hrun]
  simp only [run_bind_ok, run_lift_ok, run_modify_ok, run_pure_ok]
  constructor
  · rintro ⟨arrayOf, s, ha, _, _, ⟨hm, rfl⟩, _, _, rfl, rfl, rfl⟩
    exact ⟨arrayOf, _, ha, hm, rfl⟩
  · rintro ⟨arrayOf, s, ha, hm, rfl⟩
    exact ⟨arrayOf, s, ha, m, s, ⟨hm, rfl⟩, (), _, rfl, rfl, rfl⟩

/-! ### What is built is linked -/

/-- The induction is on the descriptions that are left. -/
theorem links_of_model (hd : ∀ d ∈ b.models, d.Named) (ho : others ⊆ b.models) (ht : Linked b t)
    (h : (b.model chain others place name).run t = .ok (m, t')) :
    Links b name m ∧ Linked b t' := by
  induction hlen : others.length using Nat.strongRecOn
    generalizing chain others place name m t t' with
  | ind n ih =>
  cases hl : t.lookup name with
  | some m' =>
    obtain ⟨rfl, rfl⟩ := (run_model_kept hl).1 h
    exact ⟨ht name m hl, ht⟩
  | none =>
    cases hf : others.find? (·.className == name) with
    | none => exact absurd h (run_model_unknown hl hf)
    | some d =>
      have hmem : d ∈ b.models := ho (List.mem_of_find?_eq_some hf)
      have hname := List.find?_some hf
      obtain rfl : d.className = name := eq_of_beq hname
      have hless : without d.className others ⊆ b.models :=
        fun x hx => ho (List.mem_of_mem_filter hx)
      obtain ⟨arrayOf, s, ha, hm, rfl⟩ := (run_model_built hl hf).1 h
      obtain ⟨properties, hp, -, harray, rfl⟩ := assemble_ok.1 hm
      rw [properties_ok (hd d hmem).properties] at hp
      cases hitem : d.arrayOf with
      | none =>
        rw [hitem] at ha
        obtain ⟨rfl, rfl⟩ := run_pure_ok.1 ha
        have hlinks : Links b d.className _ := .plain hmem hitem hp
        exact ⟨hlinks, ht.cons hlinks⟩
      | some item =>
        rw [hitem] at ha
        obtain ⟨a, hbuilt, rfl⟩ := run_map_ok.1 ha
        obtain rfl := harray rfl
        subst hlen
        obtain ⟨hl', ht'⟩ := ih _ (length_without_lt hf) hless ht hbuilt rfl
        have hlinks : Links b d.className _ :=
          .array hmem hitem (List.forall₂_nil_right_iff.1 hp) hl'
        exact ⟨hlinks, ht'.cons hlinks⟩

/-! ### What is linked is built -/

theorem find?_className (hn : b.names.Nodup) (ho : others ⊆ b.models) {d : Description.Model}
    (hd : d ∈ others) : others.find? (·.className == d.className) = some d := by
  obtain ⟨d', hd'⟩ : ∃ d', others.find? (·.className == d.className) = some d' := by
    rw [← Option.isSome_iff_exists, List.find?_isSome]
    exact ⟨d, hd, beq_self_eq_true _⟩
  have hname := List.find?_some hd'
  have hmem : d' ∈ b.models := ho (List.mem_of_find?_eq_some hd')
  rw [hd', eq_of_className hn hmem (ho hd) (eq_of_beq hname)]

/-- The models in the chain are larger than the one that is built next. -/
def Above (b : ApiBuilder) (chain : List String) (m : Model) : Prop :=
  ∀ name ∈ chain, ∃ larger, Links b name larger ∧ sizeOf m < sizeOf larger

theorem Above.not_mem (hn : b.names.Nodup) (h : Above b chain m) (hm : Links b name m) :
    name ∉ chain := by
  intro hmem
  obtain ⟨larger, hl, hlt⟩ := h name hmem
  rw [hm.unique hn hl] at hlt
  exact Nat.lt_irrefl _ hlt

/-- The induction is on the linked model; since models only get smaller, none in the chain comes
again. -/
theorem model_of_links (hn : b.names.Nodup) (hd : ∀ d ∈ b.models, d.Named) (h : Links b name m)
    (ho : ∀ d, d ∈ others ↔ d ∈ b.models ∧ d.className ∉ chain) (hc : Above b chain m)
    (ht : Linked b t) :
    ∃ t', (b.model chain others place name).run t = .ok (m, t') := by
  induction h generalizing chain others place t with
  | @plain d properties hmem ha hp =>
    have hl : Links b d.className _ := .plain hmem ha hp
    cases hk : t.lookup d.className with
    | some m' =>
      have hm' := ht _ _ hk
      exact ⟨t, (run_model_kept hk).2 ⟨hl.unique hn hm', rfl⟩⟩
    | none =>
      have hf := find?_className hn (fun x hx => ((ho x).1 hx).1)
        ((ho d).2 ⟨hmem, hc.not_mem hn hl⟩)
      have hp : b.properties d.className (d.properties.getD []) = .ok properties :=
        (properties_ok (hd d hmem).properties).2 hp
      refine ⟨_, (run_model_built hk hf).2 ⟨none, t, ?_, assemble_ok.2 ?_, rfl⟩⟩
      · rw [ha]
        exact run_pure_ok.2 ⟨rfl, rfl⟩
      · exact ⟨properties, hp, (hd d hmem).className, by simp, rfl⟩
  | @array d item a hmem ha hp hl ih =>
    have hlarge : Links b d.className _ := .array hmem ha hp hl
    cases hk : t.lookup d.className with
    | some m' =>
      have hm' := ht _ _ hk
      exact ⟨t, (run_model_kept hk).2 ⟨hlarge.unique hn hm', rfl⟩⟩
    | none =>
      have hf := find?_className hn (fun x hx => ((ho x).1 hx).1)
        ((ho d).2 ⟨hmem, hc.not_mem hn hlarge⟩)
      have hsize : sizeOf a < sizeOf
          (⟨d.className, d.description, some b.modelModule, some a, []⟩ : Model) := by
        simp only [Model.mk.sizeOf_spec, Option.some.sizeOf_spec]
        omega
      have hother : ∀ x, x ∈ without d.className others ↔
          x ∈ b.models ∧ x.className ∉ chain ++ [d.className] := by
        intro x
        simp [without, ho, and_assoc]
      have habove : Above b (chain ++ [d.className]) a := by
        intro c hcm
        rcases List.mem_append.1 hcm with hcm | hcm
        · obtain ⟨larger, hl, hlt⟩ := hc c hcm
          exact ⟨larger, hl, Nat.lt_trans hsize hlt⟩
        · obtain rfl := List.mem_singleton.1 hcm
          exact ⟨_, hlarge, hsize⟩
      obtain ⟨s, hs⟩ : ∃ s, (b.model (chain ++ [d.className]) (without d.className others)
          (d.className ++ ".arrayOf") item).run t = .ok (a, s) := ih hother habove ht
      refine ⟨_, (run_model_built hk hf).2 ⟨some a, s, ?_, assemble_ok.2 ?_, rfl⟩⟩
      · rw [ha]
        exact run_map_ok.2 ⟨a, hs, rfl⟩
      · rw [hp]
        exact ⟨[], rfl, (hd d hmem).className, fun _ => rfl, rfl⟩

/-! ### What a part of the building gives -/

/-- Over a table of linked models, the part of the building has the results in `R` and no others,
and it leaves such a table. -/
structure Gives {α : Type} (b : ApiBuilder) (x : Build α) (R : α → Prop) : Prop where
  sound : ∀ t a t', Linked b t → x.run t = .ok (a, t') → R a ∧ Linked b t'
  complete : ∀ t a, Linked b t → R a → ∃ t', x.run t = .ok (a, t')

namespace Gives

variable {α β : Type}

theorem pure (a : α) : Gives b (Pure.pure a) (· = a) where
  sound t c t' ht h := by
    obtain ⟨rfl, rfl⟩ := run_pure_ok.1 h
    exact ⟨rfl, ht⟩
  complete t c ht hc := ⟨t, run_pure_ok.2 ⟨hc, rfl⟩⟩

theorem lift (x : Except DescriptionFault α) : Gives b (liftM x) (x = .ok ·) where
  sound t a t' ht h := by
    obtain ⟨hx, rfl⟩ := run_lift_ok.1 h
    exact ⟨hx, ht⟩
  complete t a ht ha := ⟨t, run_lift_ok.2 ⟨ha, rfl⟩⟩

theorem fails (f : DescriptionFault) : Gives b (throw f : Build α) fun _ => False where
  sound _ a _ _ h := absurd h (run_throw_ne f a)
  complete _ _ _ h := h.elim

theorem bind {x : Build α} {f : α → Build β} {R : α → Prop} {S : α → β → Prop} (hx : Gives b x R)
    (hf : ∀ a, R a → Gives b (f a) (S a)) : Gives b (x >>= f) fun c => ∃ a, R a ∧ S a c where
  sound t c t' ht h := by
    obtain ⟨a, s, ha, hc⟩ := run_bind_ok.1 h
    obtain ⟨hR, hs⟩ := hx.sound t a s ht ha
    obtain ⟨hS, ht'⟩ := (hf a hR).sound s c t' hs hc
    exact ⟨⟨a, hR, hS⟩, ht'⟩
  complete t c ht := by
    rintro ⟨a, hR, hS⟩
    obtain ⟨s, ha⟩ := hx.complete t a ht hR
    have hs := (hx.sound t a s ht ha).2
    obtain ⟨t', hc⟩ := (hf a hR).complete s c hs hS
    exact ⟨t', run_bind_ok.2 ⟨a, s, ha, hc⟩⟩

theorem congr {x : Build α} {R S : α → Prop} (h : Gives b x R) (hRS : ∀ a, R a ↔ S a) :
    Gives b x S where
  sound t a t' ht ha := (h.sound t a t' ht ha).imp_left (hRS a).1
  complete t a ht ha := h.complete t a ht ((hRS a).2 ha)

theorem map {x : Build α} {R : α → Prop} (h : Gives b x R) (f : α → β) :
    Gives b (f <$> x) fun c => ∃ a, R a ∧ c = f a := by
  rw [map_eq_pure_bind]
  exact h.bind fun a _ => pure (f a)

theorem mapM {f : α → Build β} {R : α → β → Prop} {as : List α}
    (h : ∀ a ∈ as, Gives b (f a) (R a)) : Gives b (as.mapM f) (List.Forall₂ R as) := by
  induction as with
  | nil => exact (pure []).congr fun bs => by simp
  | cons a as ih =>
    obtain ⟨ha, has⟩ := List.forall_mem_cons.1 h
    rw [List.mapM_cons]
    refine (ha.bind fun c _ => (ih has).bind fun cs _ => pure (c :: cs)).congr fun bs => ?_
    rw [List.forall₂_cons_left_iff]
    constructor
    · rintro ⟨c, hc, cs, hcs, rfl⟩
      exact ⟨c, cs, hc, hcs, rfl⟩
    · rintro ⟨c, cs, hc, hcs, rfl⟩
      exact ⟨c, hc, cs, hcs, rfl⟩

/-- What is built from scratch. -/
theorem run'_ok {x : Build α} {R : α → Prop} (h : Gives b x R) {a : α} :
    x.run' [] = .ok a ↔ R a := by
  have hrun : x.run' [] = .ok a ↔ ∃ t', x.run [] = .ok (a, t') := by
    change Except.map Prod.fst (x.run []) = .ok a ↔ _
    simp [map_ok]
  rw [hrun]
  constructor
  · rintro ⟨t', ha⟩
    exact (h.sound [] a t' linked_nil ha).1
  · exact h.complete [] a linked_nil

/-- Building the model of a name gives the linked one, whatever the order of the descriptions and
whatever was built before. -/
theorem model (hn : b.names.Nodup) (hd : ∀ d ∈ b.models, d.Named) {place name : String} :
    Gives b (b.model [] b.models place name) (Links b name) where
  sound t m t' ht h := links_of_model hd (List.Subset.refl _) ht h
  complete t m ht hm :=
    model_of_links hn hd hm (by simp) (fun _ hc => absurd hc List.not_mem_nil) ht

end Gives

end ApiBuilder
end CodeTemplate

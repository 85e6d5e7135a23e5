import Mathlib.Data.List.Forall2
import Mathlib.Tactic.Common
import CodeTemplate.Outcome
import CodeTemplate.Proofs.Value.Resolution
import CodeTemplate.Value.OfData

/-! Plain data that is loaded and read back. An object loads unless something in it stands for no
value, and a path then leads to the value of what it leads to in the object. -/

namespace CodeTemplate

namespace Data

/-- No value stands for the data. -/
inductive Refused : Data → ValueFault → Prop
  | missing : Refused .missing (.unsupported "undefined")
  | foreign (type : ForeignType) : Refused (.foreign type) (.unsupported type.name)
  | number {n : Number} (h : n.isFinite = false) : Refused (.number n) (.invalidNumber n)

/-- The first is the second, or an item or a member in it at some depth. -/
inductive Within (e : Data) : Data → Prop
  | refl : Within e e
  | item {items : List Data} {d : Data} (hd : d ∈ items) (h : Within e d) : Within e (.array items)
  | member {members : List (String × Data)} {name : String} {d : Data} (hd : (name, d) ∈ members)
      (h : Within e d) : Within e (.object members)

/-- The member of an object, unless it has the name of the prototype. Nothing else has any. -/
def member? : Data → String → Option Data
  | object members, name => if name = "__proto__" then none else members.lookup name
  | _, _ => none

/-- Members that are taken one after the other lead to the second. -/
inductive Reaches : Data → List String → Data → Prop
  | nil (d : Data) : Reaches d [] d
  | cons {d e f : Data} {name : String} {names : List String} (hd : d.member? name = some e)
      (he : Reaches e names f) : Reaches d (name :: names) f

/-- Where a walk along the names ends before its end: at the first name that what has been reached
has no member of. The path of the fault is the walk up to there, and the name itself where the walk
has not begun. -/
inductive Stops (d : Data) (names : List String) : Unresolved → Prop
  | first {name : String} {after : List String} (hnames : names = name :: after)
      (h : d.member? name = none) : Stops d names ⟨name, name⟩
  | later {before after : List String} {name : String} {e : Data} (hne : before ≠ [])
      (hnames : names = before ++ name :: after) (he : d.Reaches before e)
      (h : e.member? name = none) : Stops d names ⟨name, ".".intercalate before⟩

/-- The value of the data: scalars are what they are, and the items of an array and the members of
an object stay as many and in their order, each with its own value. Only a member with the name of
the prototype has a value and is not bound to it. -/
inductive Loads : Data → Value → Prop
  | null : Loads .null .null
  | bool (b : Bool) : Loads (.bool b) (.bool b)
  | number {n : Number} (h : n.isFinite = true) : Loads (.number n) (.number n)
  | string (s : String) : Loads (.string s) (.string s)
  | array {items : List Data} {values : List Value} (h : List.Forall₂ Loads items values) :
      Loads (.array items) (.sequence values)
  | object {members : List (String × Data)} {values : List Value} {bindings : Frame}
      (h : List.Forall₂ Loads (members.map Prod.snd) values)
      (hbindings : bindings =
        ((members.map Prod.fst).zip values).filter fun b => b.1 ≠ "__proto__") :
      Loads (.object members) (.record bindings)

end Data

/-! ### What loads, and to which value -/

open Data

mutual

theorem Value.ofData_eq_ok_iff (d : Data) (v : Value) : Value.ofData d = .ok v ↔ d.Loads v := by
  cases d with
  | missing | foreign =>
    constructor
    · intro h
      simp [Value.ofData] at h
    · rintro ⟨⟩
  | null =>
    constructor
    · intro h
      obtain rfl := Except.ok.inj h
      exact .null
    · rintro ⟨⟩
      rfl
  | bool b =>
    constructor
    · intro h
      obtain rfl := Except.ok.inj h
      exact .bool b
    · rintro ⟨⟩
      rfl
  | number n =>
    rw [Value.ofData]
    constructor
    · intro h
      split at h
      · next hn =>
        obtain rfl := Except.ok.inj h
        exact .number hn
      · simp at h
    · intro h
      cases h with
      | number hn => simp [hn]
  | string s =>
    constructor
    · intro h
      obtain rfl := Except.ok.inj h
      exact .string s
    · rintro ⟨⟩
      rfl
  | array items =>
    rw [Value.ofData, map_ok]
    constructor
    · rintro ⟨values, hvalues, rfl⟩
      exact .array ((Value.ofItems_eq_ok_iff items values).1 hvalues)
    · intro h
      cases h with
      | array hvalues => exact ⟨_, (Value.ofItems_eq_ok_iff items _).2 hvalues, rfl⟩
  | object members =>
    rw [Value.ofData, map_ok]
    constructor
    · rintro ⟨bindings, h, rfl⟩
      obtain ⟨values, hvalues, hbindings⟩ := (Value.ofMembers_eq_ok_iff members bindings).1 h
      exact .object hvalues hbindings
    · intro h
      cases h with
      | object hvalues hbindings =>
        exact ⟨_, (Value.ofMembers_eq_ok_iff members _).2 ⟨_, hvalues, hbindings⟩, rfl⟩

theorem Value.ofItems_eq_ok_iff (items : List Data) (values : List Value) :
    Value.ofItems items = .ok values ↔ List.Forall₂ Loads items values := by
  cases items with
  | nil => simp [Value.ofItems, eq_comm]
  | cons d items =>
    simp only [Value.ofItems, bind_ok, List.forall₂_cons_left_iff]
    constructor
    · rintro ⟨v, hv, vs, hvs, h⟩
      obtain rfl := Except.ok.inj h
      exact ⟨v, vs, (Value.ofData_eq_ok_iff d v).1 hv, (Value.ofItems_eq_ok_iff items vs).1 hvs,
        rfl⟩
    · rintro ⟨v, vs, hv, hvs, rfl⟩
      exact ⟨v, (Value.ofData_eq_ok_iff d v).2 hv, vs, (Value.ofItems_eq_ok_iff items vs).2 hvs,
        rfl⟩

theorem Value.ofMembers_eq_ok_iff (members : List (String × Data)) (bindings : Frame) :
    Value.ofMembers members = .ok bindings ↔
      ∃ values, List.Forall₂ Loads (members.map Prod.snd) values ∧
        bindings = ((members.map Prod.fst).zip values).filter fun b => b.1 ≠ "__proto__" := by
  cases members with
  | nil => simp [Value.ofMembers, eq_comm]
  | cons m members =>
    obtain ⟨name, d⟩ := m
    have bound : ∀ (v : Value) (frame : Frame),
        frame.bind name v = [(name, v)].filter (fun b => b.1 ≠ "__proto__") ++ frame := by
      intro v frame
      by_cases hname : name = "__proto__" <;> simp [Frame.bind, hname]
    simp only [Value.ofMembers, bind_ok, List.map_cons, List.forall₂_cons_left_iff]
    constructor
    · rintro ⟨v, hv, frame, hframe, h⟩
      obtain rfl := Except.ok.inj h
      obtain ⟨vs, hvs, rfl⟩ := (Value.ofMembers_eq_ok_iff members frame).1 hframe
      exact ⟨v :: vs, ⟨v, vs, (Value.ofData_eq_ok_iff d v).1 hv, hvs, rfl⟩, by
        rw [bound, ← List.filter_append]
        rfl⟩
    · rintro ⟨_, ⟨v, vs, hv, hvs, rfl⟩, rfl⟩
      refine ⟨v, (Value.ofData_eq_ok_iff d v).2 hv, _,
        (Value.ofMembers_eq_ok_iff members _).2 ⟨vs, hvs, rfl⟩, congrArg Except.ok ?_⟩
      rw [bound, ← List.filter_append]
      rfl

end

/-! ### What does not load -/

mutual

/-- Loading fails at something that stands for no value. -/
theorem Value.exists_refused {f : ValueFault} (d : Data) (h : Value.ofData d = .error f) :
    ∃ e : Data, e.Within d ∧ e.Refused f := by
  cases d with
  | missing =>
    obtain rfl := Except.error.inj h
    exact ⟨_, .refl, .missing⟩
  | foreign type =>
    obtain rfl := Except.error.inj h
    exact ⟨_, .refl, .foreign type⟩
  | null => simp [Value.ofData] at h
  | bool b => simp [Value.ofData] at h
  | number n =>
    rw [Value.ofData] at h
    split at h
    · simp at h
    · next hn =>
      obtain rfl := Except.error.inj h
      exact ⟨_, .refl, .number (by simpa using hn)⟩
  | string s => simp [Value.ofData] at h
  | array items =>
    rw [Value.ofData] at h
    cases hitems : Value.ofItems items with
    | ok values => simp [hitems, Except.map] at h
    | error g =>
      obtain rfl : g = f := by simpa [hitems, Except.map] using h
      obtain ⟨d, hd, e, he, hf⟩ := Value.exists_refused_item items hitems
      exact ⟨e, .item hd he, hf⟩
  | object members =>
    rw [Value.ofData] at h
    cases hmembers : Value.ofMembers members with
    | ok bindings => simp [hmembers, Except.map] at h
    | error g =>
      obtain rfl : g = f := by simpa [hmembers, Except.map] using h
      obtain ⟨name, d, hd, e, he, hf⟩ := Value.exists_refused_member members hmembers
      exact ⟨e, .member hd he, hf⟩

theorem Value.exists_refused_item {f : ValueFault} (items : List Data)
    (h : Value.ofItems items = .error f) :
    ∃ d ∈ items, ∃ e : Data, e.Within d ∧ e.Refused f := by
  cases items with
  | nil => simp [Value.ofItems] at h
  | cons d items =>
    rw [Value.ofItems] at h
    cases hd : Value.ofData d with
    | error g =>
      obtain rfl : g = f := by simpa [hd, bind, Except.bind] using h
      exact ⟨d, List.mem_cons_self, Value.exists_refused d hd⟩
    | ok v =>
      cases hitems : Value.ofItems items with
      | ok values => simp [hd, hitems, bind, Except.bind, pure, Except.pure] at h
      | error g =>
        obtain rfl : g = f := by simpa [hd, hitems, bind, Except.bind] using h
        obtain ⟨e, he, hf⟩ := Value.exists_refused_item items hitems
        exact ⟨e, List.mem_cons_of_mem d he, hf⟩

theorem Value.exists_refused_member {f : ValueFault} (members : List (String × Data))
    (h : Value.ofMembers members = .error f) :
    ∃ name d, (name, d) ∈ members ∧ ∃ e : Data, e.Within d ∧ e.Refused f := by
  cases members with
  | nil => simp [Value.ofMembers] at h
  | cons m members =>
    obtain ⟨name, d⟩ := m
    rw [Value.ofMembers] at h
    cases hd : Value.ofData d with
    | error g =>
      obtain rfl : g = f := by simpa [hd, bind, Except.bind] using h
      exact ⟨name, d, List.mem_cons_self, Value.exists_refused d hd⟩
    | ok v =>
      cases hmembers : Value.ofMembers members with
      | ok bindings => simp [hd, hmembers, bind, Except.bind, pure, Except.pure] at h
      | error g =>
        obtain rfl : g = f := by simpa [hd, hmembers, bind, Except.bind] using h
        obtain ⟨other, e, he, hf⟩ := Value.exists_refused_member members hmembers
        exact ⟨other, e, List.mem_cons_of_mem _ he, hf⟩

end

/-- What has something in it that stands for no value does not load. The induction is on how deep
it is. -/
theorem Data.not_loads_of_refused {d e : Data} {f : ValueFault} (h : e.Within d)
    (he : e.Refused f) (v : Value) : ¬ d.Loads v := by
  induction h generalizing v with
  | refl =>
    intro hv
    cases he with
    | missing | foreign => cases hv
    | number hn =>
      cases hv with
      | number hfinite => simp [hn] at hfinite
  | item hd _ ih =>
    intro hv
    cases hv with
    | array hitems =>
      obtain ⟨i, hi, rfl⟩ := List.getElem_of_mem hd
      exact ih _ (hitems.get hi (hitems.length_eq ▸ hi))
  | member hd _ ih =>
    intro hv
    cases hv with
    | object hmembers =>
      obtain ⟨i, hi, hmember⟩ := List.getElem_of_mem (List.mem_map_of_mem (f := Prod.snd) hd)
      have hloads := hmembers.get hi (hmembers.length_eq ▸ hi)
      rw [List.get_eq_getElem, hmember] at hloads
      exact ih _ hloads

/-! ### Reading back -/

namespace Data

variable {d e : Data} {v : Value} {name : String} {names : List String}

/-- A name other than that of the prototype is bound to the value of the member of that name. -/
theorem lookup_loaded {members : List (String × Data)} {values : List Value}
    (h : List.Forall₂ Loads (members.map Prod.snd) values) (name : String) :
    Option.Rel Loads (if name = "__proto__" then none else members.lookup name)
      ((((members.map Prod.fst).zip values).filter fun b => b.1 ≠ "__proto__").lookup name) := by
  induction members generalizing values with
  | nil => simp
  | cons m members ih =>
    obtain ⟨k, d⟩ := m
    obtain ⟨v, vs, hd, hvs, rfl⟩ := List.forall₂_cons_left_iff.1 h
    specialize ih hvs
    by_cases hk : name = k
    · subst hk
      by_cases hname : name = "__proto__"
      · simpa [hname] using ih
      · simpa [hname] using hd
    · by_cases hproto : k = "__proto__"
      · simpa [hproto, List.lookup_cons, beq_eq_false_iff_ne.2 (hproto ▸ hk)] using ih
      · simpa [hproto, List.lookup_cons, beq_eq_false_iff_ne.2 hk] using ih

/-- The value of an object has the attributes that the object has as members, and the value of
anything else has none. -/
theorem Loads.attribute (h : d.Loads v) (name : String) :
    Option.Rel Loads (d.member? name) (v.attribute? name) := by
  cases h with
  | object hvalues hbindings =>
    rw [hbindings]
    exact lookup_loaded hvalues name
  | _ => exact .none

theorem Loads.exists_has (h : d.Loads v) (he : d.member? name = some e) :
    ∃ w, v.Has name w ∧ e.Loads w := by
  have hrel := h.attribute name
  rw [he] at hrel
  cases hattribute : v.attribute? name with
  | none =>
    rw [hattribute] at hrel
    cases hrel
  | some w =>
    rw [hattribute] at hrel
    cases hrel with
    | some hw => exact ⟨w, Value.attribute?_eq_some_iff.1 hattribute, hw⟩

theorem Loads.not_has (h : d.Loads v) (he : d.member? name = none) : ∀ w, ¬ v.Has name w := by
  have hrel := h.attribute name
  rw [he] at hrel
  apply Value.attribute?_eq_none_iff.1
  cases hattribute : v.attribute? name with
  | none => rfl
  | some w =>
    rw [hattribute] at hrel
    cases hrel

/-- The induction is on the walk: the value of its first member is where the rest starts from. -/
theorem Reaches.exists_reads (he : d.Reaches names e) (h : d.Loads v) :
    ∃ w, v.Reads names w ∧ e.Loads w := by
  induction he generalizing v with
  | nil d => exact ⟨v, .nil v, h⟩
  | cons hd _ ih =>
    obtain ⟨u, hu, hload⟩ := h.exists_has hd
    obtain ⟨w, hw, hreached⟩ := ih hload
    exact ⟨w, .cons hu hw, hreached⟩

/-- A walk comes to its end or stops before it. -/
theorem reaches_or_stops (d : Data) (names : List String) :
    (∃ e, d.Reaches names e) ∨ ∃ f, d.Stops names f := by
  have hwalk : (∃ e, d.Reaches names e) ∨ ∃ before name after e, names = before ++ name :: after ∧
      d.Reaches before e ∧ e.member? name = none := by
    induction names generalizing d with
    | nil => exact .inl ⟨d, .nil d⟩
    | cons name names ih =>
      cases hd : d.member? name with
      | none => exact .inr ⟨[], name, names, d, rfl, .nil d, hd⟩
      | some e =>
        rcases ih e with ⟨f, hf⟩ | ⟨before, last, after, f, rfl, hf, hlast⟩
        · exact .inl ⟨f, .cons hd hf⟩
        · exact .inr ⟨name :: before, last, after, f, rfl, .cons hd hf, hlast⟩
  rcases hwalk with he | ⟨before, name, after, e, hnames, he, hname⟩
  · exact .inl he
  · cases before with
    | nil =>
      cases he
      exact .inr ⟨_, .first hnames hname⟩
    | cons first before => exact .inr ⟨_, .later (List.cons_ne_nil first before) hnames he hname⟩

end Data

namespace Frame

variable {d e : Data} {frame : Frame} {p : Path} {f : Unresolved}

theorem binds_single {name : String} {v : Value} (h : (Value.record frame).Has name v) :
    Scope.Binds [frame] name v := by
  cases h with
  | record hname => exact ⟨[], frame, [], rfl, by simp, hname⟩

/-- A path leads to the value of what it leads to in the data. -/
theorem resolve_of_reaches (h : d.Loads (.record frame)) (he : d.Reaches p.segments e) :
    ∃ v, e.Loads v ∧ Scope.resolve [frame] p = .ok v := by
  cases he with
  | cons hd hrest =>
    obtain ⟨u, hu, hload⟩ := h.exists_has hd
    obtain ⟨v, hv, hreached⟩ := hrest.exists_reads hload
    exact ⟨v, hreached, Scope.resolve_of_resolves (.value (binds_single hu) hv)⟩

/-- A path stands for nothing where the walk along it in the data stops. -/
theorem resolve_of_stops (h : d.Loads (.record frame)) (hf : d.Stops p.segments f) :
    Scope.resolve [frame] p = .error f := by
  apply Scope.resolve_of_resolves
  cases hf with
  | first hnames hname =>
    obtain ⟨rfl, -⟩ := List.cons.inj hnames
    apply Scope.Resolves.unbound
    intro g hg
    obtain rfl := List.mem_singleton.1 hg
    apply Scope.lookup_eq_none_iff.1
    exact Value.attribute?_eq_none_iff.2 (h.not_has hname)
  | later hne hnames he hname =>
    cases he with
    | nil => exact absurd rfl hne
    | cons hd hrest =>
      obtain ⟨rfl, hattributes⟩ := List.cons.inj hnames
      obtain ⟨u, hu, hload⟩ := h.exists_has hd
      obtain ⟨w, hw, hreached⟩ := hrest.exists_reads hload
      exact .unread (binds_single hu) hattributes hw (hreached.not_has hname)

/-- An object loads unless something in it stands for no value, and nothing else does. -/
theorem ofData_eq_ok_iff : Frame.ofData d = .ok frame ↔ d.Loads (.record frame) := by
  cases d with
  | object members =>
    have hobject : Value.ofData (.object members) = (Frame.ofData (.object members)).map .record :=
      rfl
    rw [← Value.ofData_eq_ok_iff, hobject, map_ok]
    simp
  | _ =>
    constructor
    · intro h
      simp [Frame.ofData] at h
    · rintro ⟨⟩

theorem eq_or_exists_of_ofData_error {f : ValueFault} (h : Frame.ofData d = .error f) :
    ((∀ members, d ≠ .object members) ∧ f = .noBindings) ∨
      ∃ e : Data, e.Within d ∧ e.Refused f := by
  cases d with
  | object members =>
    obtain ⟨name, m, hm, e, he, hf⟩ := Value.exists_refused_member members h
    exact .inr ⟨e, .member hm he, hf⟩
  | _ =>
    obtain rfl := Except.error.inj h
    exact .inl ⟨by simp, rfl⟩

/-- Whether plain data loads, and how what is loaded is read back: the value of what a path leads to
in the data is what the path stands for, and a path that leads nowhere there stands for nothing. -/
theorem ofData_reads_back (d : Data) :
    ((∃ f, Frame.ofData d = .error f) ↔
      (∀ members, d ≠ .object members) ∨ ∃ e : Data, e.Within d ∧ ∃ f, e.Refused f) ∧
    ∀ frame, Frame.ofData d = .ok frame → d.Loads (.record frame) ∧ ∀ p : Path,
      (∀ e, d.Reaches p.segments e →
        ∃ v, Value.ofData e = .ok v ∧ Scope.resolve [frame] p = .ok v) ∧
      (∀ v, Scope.resolve [frame] p = .ok v → ∃ e, d.Reaches p.segments e ∧ e.Loads v) ∧
      ∀ f, Scope.resolve [frame] p = .error f ↔ d.Stops p.segments f := by
  constructor
  · constructor
    · rintro ⟨f, h⟩
      rcases eq_or_exists_of_ofData_error h with ⟨hd, -⟩ | ⟨e, he, hf⟩
      · exact .inl hd
      · exact .inr ⟨e, he, f, hf⟩
    · intro h
      cases hload : Frame.ofData d with
      | error f => exact ⟨f, rfl⟩
      | ok frame =>
        have hloads : d.Loads (.record frame) := ofData_eq_ok_iff.1 hload
        rcases h with hd | ⟨e, he, f, hf⟩
        · cases hloads with
          | object => exact absurd rfl (hd _)
        · exact absurd hloads (not_loads_of_refused he hf _)
  · intro frame hload
    have hloads : d.Loads (.record frame) := ofData_eq_ok_iff.1 hload
    refine ⟨hloads, fun p => ⟨fun e he => ?_, fun v hv => ?_, fun f => ⟨fun hf => ?_, ?_⟩⟩⟩
    · obtain ⟨v, hv, hresolve⟩ := resolve_of_reaches hloads he
      exact ⟨v, (Value.ofData_eq_ok_iff e v).2 hv, hresolve⟩
    · rcases reaches_or_stops d p.segments with ⟨e, he⟩ | ⟨f, hf⟩
      · obtain ⟨w, hw, hresolve⟩ := resolve_of_reaches hloads he
        obtain rfl := Except.ok.inj (hresolve.symm.trans hv)
        exact ⟨e, he, hw⟩
      · simp [resolve_of_stops hloads hf] at hv
    · rcases reaches_or_stops d p.segments with ⟨e, he⟩ | ⟨g, hg⟩
      · obtain ⟨w, -, hresolve⟩ := resolve_of_reaches hloads he
        simp [hresolve] at hf
      · obtain rfl := Except.error.inj ((resolve_of_stops hloads hg).symm.trans hf)
        exact hg
    · exact resolve_of_stops hloads

/-- A member that is null is there, and has no members of its own. -/
theorem ofData_reads_back_null :
    let d : Data := .object [("book", .object [("title", .null),
      ("tags", .array [.string "a", .array [], .bool true])])]
    let frame : Frame := [("book", .record [("title", .null),
      ("tags", .sequence [.string "a", .sequence [], .bool true])])]
    Frame.ofData d = .ok frame ∧ Scope.resolve [frame] ⟨"book", ["title"]⟩ = .ok .null ∧
      Scope.resolve [frame] ⟨"book", ["title", "length"]⟩ = .error ⟨"length", "book.title"⟩ := by
  intro d frame
  have hload : Frame.ofData d = .ok frame := rfl
  obtain ⟨-, hread⟩ := (ofData_reads_back d).2 frame hload
  have htitle : d.Reaches ["book", "title"] .null := .cons rfl (.cons rfl (.nil .null))
  obtain ⟨v, hv, hresolve⟩ := (hread ⟨"book", ["title"]⟩).1 .null htitle
  obtain rfl := Except.ok.inj hv
  refine ⟨hload, hresolve, ((hread ⟨"book", ["title", "length"]⟩).2.2 _).2 ?_⟩
  exact .later (List.cons_ne_nil "book" ["title"]) rfl htitle rfl

end Frame

end CodeTemplate

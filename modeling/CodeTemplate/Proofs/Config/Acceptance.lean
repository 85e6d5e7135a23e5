import CodeTemplate.Config
import CodeTemplate.Proofs.Data.Reading

/-! Which data is a configuration: the data of which each member has a value that it may have, and
no other. The configuration then has these values. Data that is refused has at least one issue. -/

namespace CodeTemplate

/-- The data that says where templates are looked for. -/
def SearchPath.data : SearchPath → Data
  | one dir => .string dir
  | many dirs => .array (dirs.map .string)

theorem SearchPath.data_injective : Function.Injective SearchPath.data := by
  intro p q h
  cases p with
  | one dir =>
    cases q with
    | one dir' => rw [Data.string.inj h]
    | many dirs => cases h
  | many dirs =>
    cases q with
    | one dir => cases h
    | many dirs' =>
      have hstring : Function.Injective Data.string := fun _ _ => Data.string.inj
      rw [List.map_injective_iff.2 hstring (Data.array.inj h)]

/-- One directory with a name, or some of them. -/
def SearchPath.Named (p : SearchPath) : Prop :=
  (∃ dir, one dir = p ∧ dir ≠ "") ∨ ∃ dirs, many dirs = p ∧ dirs ≠ [] ∧ ∀ dir ∈ dirs, dir ≠ ""

theorem SearchPath.exists_named_iff {x : Data} :
    (∃ p : SearchPath, x = p.data ∧ p.Named) ↔ (∃ s, x = .string s ∧ s ≠ "") ∨
      ∃ dirs : List String, x = .array (dirs.map .string) ∧ dirs ≠ [] ∧ ∀ dir ∈ dirs, dir ≠ "" := by
  constructor
  · rintro ⟨p, rfl, ⟨dir, rfl, hdir⟩ | ⟨dirs, rfl, hdirs⟩⟩
    · exact .inl ⟨dir, rfl, hdir⟩
    · exact .inr ⟨dirs, rfl, hdirs⟩
  · rintro (⟨dir, rfl, hdir⟩ | ⟨dirs, rfl, hdirs⟩)
    · exact ⟨one dir, rfl, .inl ⟨dir, rfl, hdir⟩⟩
    · exact ⟨many dirs, rfl, .inr ⟨dirs, rfl, hdirs⟩⟩

theorem SearchPath.Named.dirs_ne_nil {p : SearchPath} (h : p.Named) : p.dirs ≠ [] := by
  obtain ⟨dir, rfl, -⟩ | ⟨dirs, rfl, hne, -⟩ := h
  · exact List.cons_ne_nil dir []
  · exact hne

/-- What may be left out stands for some value exactly if what is there does. -/
theorem exists_forall_map_eq_iff {α β : Type} {data : α → β} {P : α → Prop} {x : Option β} :
    (∃ o : Option α, o.map data = x ∧ ∀ a ∈ o, P a) ↔ ∀ b ∈ x, ∃ a, b = data a ∧ P a := by
  cases x with
  | none => exact ⟨fun _ => by simp, fun _ => ⟨none, by simp⟩⟩
  | some b =>
    constructor
    · rintro ⟨o, ho, hP⟩ b' hb
      obtain ⟨a, rfl, rfl⟩ := Option.map_eq_some_iff.1 ho
      exact ⟨a, (Option.some.inj hb).symm, hP a rfl⟩
    · intro h
      obtain ⟨a, rfl, ha⟩ := h b rfl
      exact ⟨some a, by simpa using ha⟩

theorem exists_map_eq_iff {α β : Type} {data : α → β} {x : Option β} :
    (∃ o : Option α, o.map data = x) ↔ ∀ b ∈ x, ∃ a, b = data a := by
  simpa using @exists_forall_map_eq_iff α β data (fun _ => True) x

namespace ConfigFile

open Reading Reader

/-- The data is nothing at all, or an object with the members of a configuration only. -/
def Shaped (d : Data) : Prop :=
  d = .missing ∨ d = .null ∨ ∃ ms, d = .object ms ∧ ∀ m ∈ ms, m.1 ∈
    ["language", "searchPath", "copyright", "copyrightFile", "lineWidth", "maxDepth", "debug"]

/-- The data is that of a configuration: each member that is there has a value that it may have, and
the copyright text is not given in two ways. -/
structure Acceptable (d : Data) : Prop where
  shaped : Shaped d
  language : ∀ x ∈ d.field? "language", ∃ s, x = .string s ∧ s ≠ ""
  searchPath : ∀ x ∈ d.field? "searchPath", (∃ s, x = .string s ∧ s ≠ "") ∨
    ∃ dirs : List String, x = .array (dirs.map .string) ∧ dirs ≠ [] ∧ ∀ dir ∈ dirs, dir ≠ ""
  copyright : ∀ x ∈ d.field? "copyright", ∃ s, x = .string s
  copyrightFile : ∀ x ∈ d.field? "copyrightFile", ∃ s, x = .string s ∧ s ≠ ""
  lineWidth : ∀ x ∈ d.field? "lineWidth", ∃ n, x = .number n ∧ n.IsPositiveInteger
  maxDepth : ∀ x ∈ d.field? "maxDepth", ∃ n, x = .number n ∧ n.IsPositiveInteger
  debug : ∀ x ∈ d.field? "debug", ∃ b, x = .bool b
  exclusive : d.field? "copyright" = none ∨ d.field? "copyrightFile" = none

/-- The configuration has what the data says. -/
structure Says (c : ConfigFile) (d : Data) : Prop where
  language : c.language.map .string = d.field? "language"
  searchPath : c.searchPath.map SearchPath.data = d.field? "searchPath"
  copyright : c.copyright.map .string = d.field? "copyright"
  copyrightFile : c.copyrightFile.map .string = d.field? "copyrightFile"
  lineWidth : c.lineWidth.map .number = d.field? "lineWidth"
  maxDepth : c.maxDepth.map .number = d.field? "maxDepth"
  debug : c.debug.map .bool = d.field? "debug"

/-- What the values of a configuration can be, each by itself. -/
structure Sized (c : ConfigFile) : Prop where
  language : ∀ s ∈ c.language, s ≠ ""
  searchPath : ∀ p ∈ c.searchPath, p.Named
  copyrightFile : ∀ s ∈ c.copyrightFile, s ≠ ""
  lineWidth : ∀ n ∈ c.lineWidth, n.IsPositiveInteger
  maxDepth : ∀ n ∈ c.maxDepth, n.IsPositiveInteger

/-- What they can be together: the copyright text is given at most once. -/
structure Valid (c : ConfigFile) : Prop extends Sized c where
  exclusive : c.copyright = none ∨ c.copyrightFile = none

/-! ### What is read -/

theorem reads_searchPath : Reads searchPathReader SearchPath.data SearchPath.Named := by
  have hone : ∀ dir, (SearchPath.one dir).data = .string dir := fun _ => rfl
  have hmany : ∀ dirs, (SearchPath.many dirs).data = .array (dirs.map .string) := fun _ => rfl
  exact (reads_nonEmptyText.map hone).either (reads_nonEmptyText.nonEmptyList.map hmany)
    SearchPath.data_injective

variable {path : List String} {ms : List (String × Data)} {c : ConfigFile} {d : Data}

theorem gives_oneCopyright {r : Reading ConfigFile} : (oneCopyright path r).Gives c ↔
    r.Gives c ∧ (c.copyright = none ∨ c.copyrightFile = none) := by
  rw [oneCopyright]
  split
  -- where there is no configuration nothing is checked, and nothing given
  · next hr => simp [Gives, hr]
  · next c' hr =>
    rw [gives_check]
    refine and_congr_right fun hc => ?_
    obtain rfl : c' = c := Option.some.inj (hr.symm.trans hc.1)
    simp

theorem gives_known {r : Reading ConfigFile} :
    (known path ms r).Gives c ↔ r.Gives c ∧ ∀ m ∈ ms, m.1 ∈ memberNames := by
  rw [known, gives_check]
  simp [List.filter_eq_nil_iff]

theorem gives_members : (members path ms).Gives c ↔ c.Says (.object ms) ∧ c.Sized := by
  simp only [members, gives_seq, gives_map, reads_nonEmptyText.gives_member,
    reads_searchPath.gives_member, reads_text.gives_member, reads_count.gives_member,
    reads_flag.gives_member]
  -- the members are read from the left, so the first of them is the innermost
  constructor
  · rintro ⟨_, _, ⟨_, _, ⟨_, _, ⟨_, _, ⟨_, _, ⟨_, _, ⟨_, ⟨hlanguage, hl⟩, rfl⟩, ⟨hsearch, hs⟩,
      rfl⟩, ⟨hcopyright, -⟩, rfl⟩, ⟨hfile, hf⟩, rfl⟩, ⟨hwidth, hw⟩, rfl⟩, ⟨hdepth, hm⟩, rfl⟩,
      ⟨hdebug, -⟩, rfl⟩
    exact ⟨⟨hlanguage, hsearch, hcopyright, hfile, hwidth, hdepth, hdebug⟩, hl, hs, hf, hw, hm⟩
  · rintro ⟨h, hsized⟩
    exact ⟨_, _, ⟨_, _, ⟨_, _, ⟨_, _, ⟨_, _, ⟨_, _, ⟨_, ⟨h.language, hsized.language⟩, rfl⟩,
      ⟨h.searchPath, hsized.searchPath⟩, rfl⟩, ⟨h.copyright, by simp⟩, rfl⟩,
      ⟨h.copyrightFile, hsized.copyrightFile⟩, rfl⟩, ⟨h.lineWidth, hsized.lineWidth⟩, rfl⟩,
      ⟨h.maxDepth, hsized.maxDepth⟩, rfl⟩, ⟨h.debug, by simp⟩, rfl⟩

theorem explained_members (path : List String) (ms : List (String × Data)) :
    (members path ms).Explained :=
  .seq (.seq (.seq (.seq (.seq (.seq (.map (reads_nonEmptyText.explained_member _ _) _)
    (reads_searchPath.explained_member _ _)) (reads_text.explained_member _ _))
    (reads_nonEmptyText.explained_member _ _)) (reads_count.explained_member _ _))
    (reads_count.explained_member _ _)) (reads_flag.explained_member _ _)

theorem explained_reader (path : List String) (d : Data) : (reader path d).Explained := by
  cases d with
  | object ms =>
    have hknown : (known path ms (members path ms)).Explained :=
      (explained_members path ms).check _ _ _
    change (oneCopyright path (known path ms (members path ms))).Explained
    rw [oneCopyright]
    split
    · exact hknown
    · exact hknown.check _ _ _
  | _ => exact explained_wrong path _ _

theorem gives_reader : (reader path (.object ms)).Gives c ↔
    (∀ m ∈ ms, m.1 ∈ memberNames) ∧ c.Says (.object ms) ∧ c.Valid := by
  change (oneCopyright path (known path ms (members path ms))).Gives c ↔ _
  rw [gives_oneCopyright, gives_known, gives_members]
  constructor
  · rintro ⟨⟨⟨hsaid, hsized⟩, hknown⟩, hone⟩
    exact ⟨hknown, hsaid, hsized, hone⟩
  · rintro ⟨hknown, hsaid, hsized, hone⟩
    exact ⟨⟨⟨hsaid, hsized⟩, hknown⟩, hone⟩

/-! ### What is accepted -/

theorem Says.congr {d' : Data} (h : c.Says d) (hd : ∀ name, d.field? name = d'.field? name) :
    c.Says d' where
  language := h.language.trans (hd _)
  searchPath := h.searchPath.trans (hd _)
  copyright := h.copyright.trans (hd _)
  copyrightFile := h.copyrightFile.trans (hd _)
  lineWidth := h.lineWidth.trans (hd _)
  maxDepth := h.maxDepth.trans (hd _)
  debug := h.debug.trans (hd _)

theorem ofData_object_eq_ok_iff : ofData (.object ms) = .ok c ↔
    (∀ m ∈ ms, m.1 ∈ memberNames) ∧ c.Says (.object ms) ∧ c.Valid := by
  have hreader : (reader [] (.object ms)).Gives c ↔ _ := gives_reader
  rw [← hreader, ← result_eq_ok_iff]
  simp only [ofData]
  split <;> simp_all

/-- Nothing at all says the same as an object without members. -/
theorem ofData_nothing (h : d = .missing ∨ d = .null) :
    ofData d = ofData (.object []) ∧ ∀ name, d.field? name = (Data.object []).field? name := by
  rcases h with rfl | rfl <;> exact ⟨rfl, fun _ => rfl⟩

theorem ofData_eq_ok_iff : ofData d = .ok c ↔ Shaped d ∧ c.Says d ∧ c.Valid := by
  by_cases hd : d = .missing ∨ d = .null
  · obtain ⟨heq, hfield⟩ := ofData_nothing hd
    have hshaped : Shaped d := hd.elim .inl fun h => .inr (.inl h)
    rw [heq, ofData_object_eq_ok_iff]
    constructor
    · rintro ⟨-, hsaid, hvalid⟩
      exact ⟨hshaped, hsaid.congr fun name => (hfield name).symm, hvalid⟩
    · rintro ⟨-, hsaid, hvalid⟩
      exact ⟨by simp, hsaid.congr hfield, hvalid⟩
  · cases d with
    | missing => exact absurd (.inl rfl) hd
    | null => exact absurd (.inr rfl) hd
    | object ms =>
      rw [ofData_object_eq_ok_iff]
      simp [Shaped, memberNames]
    | _ => simp [Shaped, ofData, reader, object, Reading.wrong, Reading.fault, Reading.result]

/-- What is not accepted has an issue. -/
theorem exists_issue {f : ConfigFault} (h : ofData d = .error f) :
    ∃ issues, issues ≠ [] ∧ f = .invalid issues := by
  simp only [ofData] at h
  split at h
  · cases h
  · next issues hr => exact ⟨issues, (explained_reader _ _).ne_nil hr, (Except.error.inj h).symm⟩

theorem acceptable_iff : Acceptable d ↔ Shaped d ∧ ∃ c : ConfigFile, c.Says d ∧ c.Valid := by
  constructor
  · intro h
    obtain ⟨language, hlanguage, hl⟩ := exists_forall_map_eq_iff.2 h.language
    obtain ⟨searchPath, hsearch, hs⟩ := exists_forall_map_eq_iff.2 fun x hx =>
      SearchPath.exists_named_iff.2 (h.searchPath x hx)
    obtain ⟨copyright, hcopyright⟩ := exists_map_eq_iff.2 h.copyright
    obtain ⟨copyrightFile, hfile, hf⟩ := exists_forall_map_eq_iff.2 h.copyrightFile
    obtain ⟨lineWidth, hwidth, hw⟩ := exists_forall_map_eq_iff.2 h.lineWidth
    obtain ⟨maxDepth, hdepth, hm⟩ := exists_forall_map_eq_iff.2 h.maxDepth
    obtain ⟨debug, hdebug⟩ := exists_map_eq_iff.2 h.debug
    have hone := h.exclusive
    rw [← hcopyright, ← hfile, Option.map_eq_none_iff, Option.map_eq_none_iff] at hone
    exact ⟨h.shaped, ⟨language, searchPath, copyright, copyrightFile, lineWidth, maxDepth, debug⟩,
      ⟨hlanguage, hsearch, hcopyright, hfile, hwidth, hdepth, hdebug⟩, ⟨hl, hs, hf, hw, hm⟩, hone⟩
  · rintro ⟨hshaped, c, hsaid, hvalid⟩
    exact {
      shaped := hshaped
      language := exists_forall_map_eq_iff.1 ⟨_, hsaid.language, hvalid.language⟩
      searchPath := fun x hx => SearchPath.exists_named_iff.1
        (exists_forall_map_eq_iff.1 ⟨_, hsaid.searchPath, hvalid.searchPath⟩ x hx)
      copyright := exists_map_eq_iff.1 ⟨_, hsaid.copyright⟩
      copyrightFile := exists_forall_map_eq_iff.1 ⟨_, hsaid.copyrightFile, hvalid.copyrightFile⟩
      lineWidth := exists_forall_map_eq_iff.1 ⟨_, hsaid.lineWidth, hvalid.lineWidth⟩
      maxDepth := exists_forall_map_eq_iff.1 ⟨_, hsaid.maxDepth, hvalid.maxDepth⟩
      debug := exists_map_eq_iff.1 ⟨_, hsaid.debug⟩
      exclusive := by
        rw [← hsaid.copyright, ← hsaid.copyrightFile, Option.map_eq_none_iff,
          Option.map_eq_none_iff]
        exact hvalid.exclusive }

theorem exists_ofData_eq_ok_iff : (∃ c, ofData d = .ok c) ↔ Acceptable d := by
  rw [acceptable_iff]
  constructor
  · rintro ⟨c, hc⟩
    obtain ⟨hshaped, hsaid, hvalid⟩ := ofData_eq_ok_iff.1 hc
    exact ⟨hshaped, c, hsaid, hvalid⟩
  · rintro ⟨hshaped, c, hsaid, hvalid⟩
    exact ⟨c, ofData_eq_ok_iff.2 ⟨hshaped, hsaid, hvalid⟩⟩

end ConfigFile
end CodeTemplate

import CodeTemplate.Files.Tree
import CodeTemplate.Proofs.Files.Path
import CodeTemplate.Proofs.Generator.Table
import CodeTemplate.Proofs.Markup.Name

/-! The templates below a directory: the files whose names end with the extension, by the names on
the way to them. In a file system these ways are told apart by the names that they give. -/

namespace CodeTemplate

theorem Text.mem_listed {α : Type} {items : List (String × α)} {x : String × α} :
    x ∈ Text.listed items ↔ x ∈ items := by
  obtain ⟨name, a⟩ := x
  simp [Text.listed]

namespace FileTree

/-- The names in a directory differ, and each can be part of a path. -/
inductive Proper : FileTree → Prop
  | file (text : String) : Proper (file text)
  | directory {es : List (String × FileTree)} (nodup : (es.map (·.1)).Nodup)
    (name : ∀ e ∈ es, IsPart e.1) (below : ∀ e ∈ es, Proper e.2) : Proper (directory es)

theorem proper_empty : empty.Proper := .directory (by simp) (by simp) (by simp)

theorem Proper.directory_entries {t : FileTree} (ht : t.Proper) :
    (FileTree.directory t.entries).Proper := by
  cases ht with
  | file s => exact proper_empty
  | directory nodup name below => exact .directory nodup name below

/-- A tree stays proper when something is put at the end of a way in it. -/
theorem Proper.put {t : FileTree} (ht : t.Proper) (text : Option String) {way : List String}
    (hway : ∀ name ∈ way, IsPart name) : (put text way t).Proper := by
  induction way generalizing t with
  | nil =>
    cases text with
    | some s => exact .file s
    | none => exact ht.directory_entries
  | cons first rest ih =>
    obtain ⟨hfirst, hrest⟩ := List.forall_mem_cons.1 hway
    cases ht.directory_entries with
    | directory nodup name below =>
      have hbelow : ((t.entries.lookup first).getD empty).Proper := by
        cases hu : t.entries.lookup first with
        | none => exact proper_empty
        | some u => exact below (first, u) (mem_of_lookup hu)
      refine .directory (nodup_setKey nodup _ _) ?_ ?_
      · intro e he
        rcases mem_setKey he with rfl | he
        · exact hfirst
        · exact name e he
      · intro e he
        rcases mem_setKey he with rfl | he
        · exact ih hbelow hrest
        · exact below e he

/-- Files make a proper tree, whatever their names. -/
theorem proper_ofFiles {base : AbsolutePath} (hbase : ∀ part ∈ base.parts, IsPart part)
    (files : List (String × Option String)) : (ofFiles base files).Proper := by
  have hfold : ∀ t : FileTree, t.Proper → (files.foldl (fun t x =>
      FileTree.put x.2 (base.join x.1).parts t) t).Proper := by
    induction files with
    | nil => exact fun t ht => ht
    | cons x files ih =>
      intro t ht
      exact ih _ (ht.put x.2 (AbsolutePath.forall_isPart_join hbase x.1))
  exact hfold _ (proper_empty.put none hbase)

/-- A template below a directory has the name that leads to it, and the text of its file. -/
def Holds (t : FileTree) (name text : String) : Prop :=
  ∃ way, t.follow? way = some (file text) ∧ name = "/".intercalate way ∧
    Text.endsWith name TemplateName.extension = true

theorem endsWith_iff {name ending : String} :
    Text.endsWith name ending = true ↔ ending.toList <:+ name.toList := by
  rw [Text.endsWith, List.isSuffixOf_iff_suffix]

/-- An ending without a slash is behind the last slash. -/
theorem suffix_behind_iff {ending cs ds : List Char} (h : '/' ∉ ending) :
    ending <:+ cs ++ '/' :: ds ↔ ending <:+ ds := by
  constructor
  · intro hs
    rcases List.suffix_or_suffix_of_suffix hs (List.suffix_append cs ('/' :: ds)) with hs | hs
    · rcases List.suffix_cons_iff.1 hs with rfl | hs
      · exact absurd List.mem_cons_self h
      · exact hs
    · exact absurd (hs.subset List.mem_cons_self) h
  · intro hs
    exact hs.trans ((List.suffix_cons '/' ds).trans (List.suffix_append cs ('/' :: ds)))

theorem endsWith_below {first name : String} :
    Text.endsWith (first ++ "/" ++ name) TemplateName.extension = true ↔
      Text.endsWith name TemplateName.extension = true := by
  have hname : (first ++ "/" ++ name).toList = first.toList ++ '/' :: name.toList := by simp
  rw [endsWith_iff, hname, suffix_behind_iff (by decide), endsWith_iff]

theorem not_holds_file {s name text : String} : ¬ (file s).Holds name text := by
  rintro ⟨way, hway, rfl, hends⟩
  cases way with
  | nil => exact absurd hends (by decide)
  | cons first rest => simp [follow?, entries] at hway

/-- A template of a directory is one of its entries, or it is below one of them. -/
theorem holds_directory {es : List (String × FileTree)} {name text : String} :
    (directory es).Holds name text ↔ ∃ first t, es.lookup first = some t ∧
      (t = file text ∧ name = first ∧ Text.endsWith first TemplateName.extension = true ∨
        ∃ rest, t.Holds rest text ∧ name = first ++ "/" ++ rest) := by
  constructor
  · rintro ⟨way, hway, rfl, hends⟩
    cases way with
    | nil => simp [follow?] at hway
    | cons first rest =>
      rw [follow?, entries] at hway
      cases hu : es.lookup first with
      | none => simp [hu] at hway
      | some t =>
        simp only [hu] at hway
        refine ⟨first, t, hu, ?_⟩
        cases rest with
        | nil =>
          rw [follow?, Option.some.injEq] at hway
          exact .inl ⟨hway, by simp, by simpa using hends⟩
        | cons second more =>
          rw [String.intercalate_cons_cons, endsWith_below] at hends
          exact .inr ⟨_, ⟨_, hway, rfl, hends⟩, String.intercalate_cons_cons⟩
  · rintro ⟨first, t, hu, h⟩
    rcases h with ⟨rfl, rfl, hends⟩ | ⟨rest, ⟨way, hway, rfl, hends⟩, rfl⟩
    · exact ⟨[name], by simp [follow?, entries, hu], by simp, hends⟩
    · cases way with
      | nil => exact absurd hends (by decide)
      | cons second more =>
        refine ⟨first :: second :: more, ?_, String.intercalate_cons_cons.symm,
          endsWith_below.2 hends⟩
        rw [follow?, entries, hu]
        exact hway

/-- The templates that an entry of a directory is or holds. -/
def found (name : String) : FileTree → List (String × String)
  | file text => if Text.endsWith name TemplateName.extension then [(name, text)] else []
  | directory es => (templates (directory es)).map fun (n, text) => (name ++ "/" ++ n, text)

theorem entryTemplates_eq (es : List (String × FileTree)) :
    entryTemplates es = es.map fun e => (e.1, found e.1 e.2) := by
  induction es with
  | nil => rfl
  | cons e es ih =>
    obtain ⟨name, t⟩ := e
    cases t <;> simp [entryTemplates, found, ih]

theorem mem_found {first name text : String} {t : FileTree} :
    (name, text) ∈ found first t ↔
      t = file text ∧ name = first ∧ Text.endsWith first TemplateName.extension = true ∨
        ∃ rest, (rest, text) ∈ t.templates ∧ name = first ++ "/" ++ rest := by
  cases t with
  | file s =>
    by_cases h : Text.endsWith first TemplateName.extension = true
    · simp [found, templates, h, and_comm, eq_comm]
    · simp [found, templates, h]
  | directory es =>
    simp only [found, List.mem_map, Prod.mk.injEq, reduceCtorEq, false_and, false_or]
    constructor
    · rintro ⟨⟨rest, _⟩, hm, rfl, rfl⟩
      exact ⟨rest, hm, rfl⟩
    · rintro ⟨rest, hm, rfl⟩
      exact ⟨(rest, text), hm, rfl, rfl⟩

/-- Listing finds each template, and nothing else. -/
theorem mem_templates {t : FileTree} (ht : t.Proper) {name text : String} :
    (name, text) ∈ t.templates ↔ t.Holds name text := by
  induction ht generalizing name text with
  | file s => simp [templates, not_holds_file]
  | @directory es nodup _ _ ih =>
    have hlisted : (name, text) ∈ templates (directory es) ↔
        ∃ first t, (first, t) ∈ es ∧ (name, text) ∈ found first t := by
      simp [templates, List.mem_flatMap, Text.mem_listed, entryTemplates_eq]
    rw [hlisted, holds_directory]
    refine exists_congr fun first => exists_congr fun t => ?_
    rw [lookup_eq_some_iff_mem nodup]
    refine and_congr_right fun hm => ?_
    rw [mem_found]
    simp only [ih (first, t) hm]

/-! ### Names and ways -/

/-- A way in a proper tree is along parts of paths, and to a proper tree. -/
theorem Proper.along {t u : FileTree} (ht : t.Proper) {way : List String}
    (h : t.follow? way = some u) : (∀ name ∈ way, IsPart name) ∧ u.Proper := by
  induction ht generalizing way with
  | file s =>
    cases way with
    | nil => exact ⟨by simp, Option.some.inj h ▸ .file s⟩
    | cons first rest => simp [follow?, entries] at h
  | @directory es nodup hname below ih =>
    cases way with
    | nil => exact ⟨by simp, Option.some.inj h ▸ .directory nodup hname below⟩
    | cons first rest =>
      rw [follow?, entries] at h
      cases hu : es.lookup first with
      | none => simp [hu] at h
      | some v =>
        have hm : (first, v) ∈ es := mem_of_lookup hu
        simp only [hu] at h
        obtain ⟨hrest, hend⟩ := ih _ hm h
        exact ⟨List.forall_mem_cons.2 ⟨hname _ hm, hrest⟩, hend⟩

/-- The way to a template is read off its name. -/
theorem Holds.follow?_split {t : FileTree} (ht : t.Proper) {name text : String}
    (h : t.Holds name text) : t.follow? (Text.split '/' name) = some (file text) := by
  obtain ⟨way, hway, rfl, hends⟩ := h
  have hne : way ≠ [] := by
    rintro rfl
    exact absurd hends (by decide)
  have hsplit : Text.split '/' ("/".intercalate way) = way :=
    Text.split_intercalate rfl hne fun part hp => ((ht.along hway).1 part hp).noSlash
  rwa [hsplit]

/-- No two templates have one name. -/
theorem Holds.unique {t : FileTree} (ht : t.Proper) {name text text' : String}
    (h : t.Holds name text) (h' : t.Holds name text') : text = text' := by
  have hfile := (h.follow?_split ht).symm.trans (h'.follow?_split ht)
  exact (FileTree.file.inj (Option.some.inj hfile))

/-- The name of a template starts with no slash, as the name of an entry does not. -/
theorem Holds.relative_eq {t : FileTree} (ht : t.Proper) {name text : String}
    (h : t.Holds name text) : TemplateName.relative name = name := by
  obtain ⟨way, hway, rfl, hends⟩ := h
  cases way with
  | nil => exact absurd hends (by decide)
  | cons first rest =>
    obtain ⟨hempty, hslash⟩ := (ht.along hway).1 first List.mem_cons_self
    obtain ⟨c, cs, hcs⟩ := List.exists_cons_of_ne_nil (l := first.toList) (by simpa using hempty)
    have hhead : ("/".intercalate (first :: rest)).toList.head? = some c := by
      cases rest with
      | nil => simp [hcs]
      | cons second rest => simp [String.intercalate_cons_cons, hcs]
    refine TemplateName.relative_eq_self fun h => ?_
    rw [hhead, Option.some.injEq] at h
    rw [hcs, h] at hslash
    exact hslash List.mem_cons_self

/-- A template with a usable name is kept under its own name. -/
theorem Holds.normalize_eq_self {t : FileTree} (ht : t.Proper) {name text : String}
    (h : t.Holds name text) (hname : TemplateName.fault? name = none) :
    TemplateName.normalize name = .ok name := by
  have hrel : TemplateName.IsRelative name.toList := by
    have hiff := TemplateName.fault?_eq_none_iff.1 hname
    rwa [h.relative_eq ht] at hiff
  obtain ⟨init, last, hparts⟩ := (List.eq_nil_or_concat' (name.toList.splitOn '/')).resolve_left
    (List.splitOn_ne_nil '/' _)
  have hcs : name.toList = init.flatMap (· ++ ['/']) ++ last := by
    rw [← Text.intercalate_concat, ← hparts, List.intercalate_splitOn]
  have hsuffix : TemplateName.extension.toList <:+ last := by
    obtain ⟨-, -, -, hends⟩ := h
    rw [endsWith_iff, hcs] at hends
    rcases List.eq_nil_or_concat' init with rfl | ⟨before, part, rfl⟩
    · simpa using hends
    · rw [List.flatMap_append, List.flatMap_singleton, ← List.append_assoc,
        List.append_assoc _ ['/'], List.singleton_append] at hends
      exact (suffix_behind_iff (by decide)).1 hends
  exact TemplateName.normalize_eq_self hrel hparts (hsuffix.subset (by decide))

end FileTree
end CodeTemplate

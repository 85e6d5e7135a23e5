import CodeTemplate.Files.Path
import CodeTemplate.Proofs.Text.Infix

/-! Where texts lead to. The names on a way that is found are neither dots nor empty, so its text
leads there from everywhere. -/

namespace CodeTemplate

/-- A name that can be part of a path. -/
structure IsPart (name : String) : Prop where
  ne_empty : name ≠ ""
  noSlash : '/' ∉ name.toList

namespace AbsolutePath

/-- A name that leads below where one is. -/
structure LeadsBelow (name : String) : Prop extends IsPart name where
  ne_dot : name ≠ "."
  ne_dots : name ≠ ".."

/-- Each name of the path is a single one and leads below the names before it. -/
def Normal (p : AbsolutePath) : Prop := ∀ part ∈ p.parts, LeadsBelow part

theorem normal_root : root.Normal := by
  simp [Normal, root]

theorem step_eq_append {name : String} (h : LeadsBelow name) (way : List String) :
    step way name = way ++ [name] := by
  have hstay : ¬ (name = "" ∨ name = ".") := not_or.2 ⟨h.ne_empty, h.ne_dot⟩
  rw [step, if_neg hstay, if_neg h.ne_dots]

theorem mem_step {way : List String} {name part : String} (hname : '/' ∉ name.toList)
    (h : part ∈ step way name) : part ∈ way ∨ LeadsBelow part := by
  rw [step] at h
  split_ifs at h with hstay hback
  · exact .inl h
  · exact .inl (List.dropLast_subset way h)
  · rcases List.mem_append.1 h with h | h
    · exact .inl h
    · obtain rfl := List.mem_singleton.1 h
      obtain ⟨hempty, hdot⟩ := not_or.1 hstay
      exact .inr ⟨⟨hempty, hname⟩, hdot, hback⟩

theorem mem_foldl_step {names : List String} (hnames : ∀ name ∈ names, '/' ∉ name.toList)
    {way : List String} {part : String} (h : part ∈ names.foldl step way) :
    part ∈ way ∨ LeadsBelow part := by
  induction names generalizing way with
  | nil => exact .inl h
  | cons name names ih =>
    obtain ⟨hname, hrest⟩ := List.forall_mem_cons.1 hnames
    rcases ih hrest h with h | h
    · exact mem_step hname h
    · exact .inr h

/-- A text adds only names that lead below. -/
theorem mem_join {base : AbsolutePath} {s part : String} (h : part ∈ (base.join s).parts) :
    part ∈ base.parts ∨ LeadsBelow part :=
  mem_foldl_step (fun _ hname => Text.not_mem_of_mem_split hname) h

/-- A text leads along parts of paths only. -/
theorem forall_isPart_join {base : AbsolutePath} (hbase : ∀ part ∈ base.parts, IsPart part)
    (s : String) : ∀ part ∈ (base.join s).parts, IsPart part := by
  intro part h
  rcases mem_join h with h | h
  · exact hbase part h
  · exact h.toIsPart

theorem Normal.join {base : AbsolutePath} (hbase : base.Normal) (s : String) :
    (base.join s).Normal := by
  intro part h
  rcases mem_join h with h | h
  · exact hbase part h
  · exact h

theorem Normal.resolve {base : AbsolutePath} (hbase : base.Normal) (s : String) :
    (base.resolve s).Normal := by
  rw [AbsolutePath.resolve]
  split
  · exact normal_root.join s
  · exact hbase.join s

theorem normal_ofText (s : String) : (ofText s).Normal := normal_root.resolve s

theorem foldl_step_eq_append {names : List String} (h : ∀ name ∈ names, LeadsBelow name)
    (way : List String) : names.foldl step way = way ++ names := by
  induction names generalizing way with
  | nil => simp
  | cons name names ih =>
    obtain ⟨hname, hrest⟩ := List.forall_mem_cons.1 h
    rw [List.foldl_cons, step_eq_append hname, ih hrest, List.append_assoc, List.singleton_append]

theorem head?_text (p : AbsolutePath) : p.text.toList.head? = some '/' := by
  simp [text]

/-- The text of a path is its names behind slashes. The root has no name, but a slash. -/
theorem foldl_step_split_text {p : AbsolutePath} (hp : p.Normal) :
    (Text.split '/' p.text).foldl step [] = p.parts := by
  obtain ⟨parts⟩ := p
  cases parts with
  | nil => decide
  | cons first rest =>
    have htext : text ⟨first :: rest⟩ = "/".intercalate ("" :: first :: rest) := by
      rw [text, String.intercalate_cons_cons, String.empty_append]
    have hslash : ∀ part ∈ "" :: first :: rest, '/' ∉ part.toList :=
      List.forall_mem_cons.2 ⟨by simp, fun part hpart => (hp part hpart).noSlash⟩
    have hstay : step [] "" = [] := rfl
    rw [htext, Text.split_intercalate rfl (List.cons_ne_nil _ _) hslash, List.foldl_cons, hstay,
      foldl_step_eq_append hp, List.nil_append]

/-- The text of a path leads to it, wherever one is. -/
theorem Normal.resolve_text {p : AbsolutePath} (hp : p.Normal) (cwd : AbsolutePath) :
    cwd.resolve p.text = p := by
  rw [AbsolutePath.resolve, if_pos p.head?_text, AbsolutePath.join, root,
    foldl_step_split_text hp]

/-- The paths without dots are those that texts lead to. -/
theorem normal_iff_exists_ofText {p : AbsolutePath} : p.Normal ↔ ∃ s, ofText s = p := by
  constructor
  · exact fun hp => ⟨p.text, hp.resolve_text root⟩
  · rintro ⟨s, rfl⟩
    exact normal_ofText s

end AbsolutePath
end CodeTemplate

import CodeTemplate.Comment.Layout
import CodeTemplate.Proofs.Text.Words

/-! The paragraphs of a text. Lines without words part its other lines into blocks, and the words of
a block are a paragraph. -/

namespace CodeTemplate.Comment

open Text

/-- The paragraphs of lines that are given by their words: those of each block of lines with words
that goes on as long as it can. -/
inductive Parted : List (List String) → List (List String) → Prop
  | nil : Parted [] []
  | blank {lines ps : List (List String)} (h : Parted lines ps) : Parted ([] :: lines) ps
  | block {block lines ps : List (List String)} (hne : block ≠ []) (hwords : [] ∉ block)
      (hend : ∀ line ∈ lines.head?, line = []) (h : Parted lines ps) :
      Parted (block ++ lines) (block.flatten :: ps)

/-- The paragraphs as they are found. -/
def blocks (lines : List (List String)) : List (List String) :=
  ((lines.splitOnP List.isEmpty).map List.flatten).filter (!·.isEmpty)

theorem paragraphs_eq (marker text : String) :
    paragraphs marker text =
      blocks ((lines text).map fun line => words (lineBody marker line)) := rfl

section Blocks

variable {block rest : List (List String)}

theorem flatten_ne_nil (hne : block ≠ []) (hwords : [] ∉ block) : block.flatten ≠ [] := by
  obtain ⟨line, more, rfl⟩ := List.exists_cons_of_ne_nil hne
  have hline : line ≠ [] := fun h => hwords (h ▸ List.mem_cons_self)
  simp [hline]

theorem blocks_blank (rest : List (List String)) : blocks ([] :: rest) = blocks rest := by
  rw [blocks, List.splitOnP_cons_eq_if_modifyHead, if_pos List.isEmpty_nil, List.map_cons,
    List.filter_cons_of_neg (by simp), blocks]

theorem blocks_append (hne : block ≠ []) (hwords : [] ∉ block)
    (hend : ∀ line ∈ rest.head?, line = []) :
    blocks (block ++ rest) = block.flatten :: blocks rest := by
  have hkept : ∀ line ∈ block, line.isEmpty = false := by
    intro line hl
    rw [List.isEmpty_eq_false_iff]
    rintro rfl
    exact hwords hl
  have hflat : ∀ tail : List (List String), (block.flatten :: tail).filter (!·.isEmpty) =
      block.flatten :: tail.filter (!·.isEmpty) := fun tail =>
    List.filter_cons_of_pos (by simpa using flatten_ne_nil hne hwords)
  cases rest with
  | nil =>
    rw [List.append_nil, blocks, List.splitOnP_eq_singleton hkept, List.map_singleton, hflat]
    rfl
  | cons line rest =>
    obtain rfl := hend line rfl
    rw [blocks_blank, blocks, List.splitOnP_append_cons_of_forall_mem hkept [] List.isEmpty_nil,
      List.map_cons, hflat, blocks]

end Blocks

namespace Parted

variable {lines ps : List (List String)}

theorem blocks_eq (h : Parted lines ps) : blocks lines = ps := by
  induction h with
  | nil => rfl
  | blank _ ih => rw [blocks_blank, ih]
  | block hne hwords hend _ ih => rw [blocks_append hne hwords hend, ih]

/-- A line with words goes on with the block behind it, if there is one right behind it. -/
theorem exists_cons {line : List String} (hline : line ≠ []) (h : Parted lines ps) :
    ∃ ps', Parted (line :: lines) ps' := by
  have hone : [] ∉ [line] := by simpa using hline.symm
  cases h with
  | nil => exact ⟨_, .block (List.cons_ne_nil line []) hone (by simp) .nil⟩
  | blank h => exact ⟨_, .block (List.cons_ne_nil line []) hone (by simp) (.blank h)⟩
  | @block block rest ps hne hwords hend h =>
    have hmore : [] ∉ line :: block := by simpa using ⟨hline, hwords⟩
    exact ⟨_, .block (List.cons_ne_nil line block) hmore hend h⟩

theorem exists_of_lines (lines : List (List String)) : ∃ ps, Parted lines ps := by
  induction lines with
  | nil => exact ⟨[], .nil⟩
  | cons line lines ih =>
    obtain ⟨ps, h⟩ := ih
    by_cases hline : line = []
    · rw [hline]
      exact ⟨ps, h.blank⟩
    · exact exists_cons hline h

theorem flatten_eq (h : Parted lines ps) : ps.flatten = lines.flatten := by
  induction h with
  | nil => rfl
  | blank _ ih => simpa using ih
  | block _ _ _ _ ih => simp [ih]

theorem ne_nil_of_mem (h : Parted lines ps) : ∀ p ∈ ps, p ≠ [] := by
  induction h with
  | nil => simp
  | blank _ ih => exact ih
  | block hne hwords _ _ ih => exact List.forall_mem_cons.2 ⟨flatten_ne_nil hne hwords, ih⟩

/-- A last line without words is in no paragraph. -/
theorem concat_blank (h : Parted lines ps) : Parted (lines ++ [[]]) ps := by
  induction h with
  | nil => exact .blank .nil
  | blank _ ih => exact .blank ih
  | @block block lines ps hne hwords hend _ ih =>
    rw [List.append_assoc]
    refine .block hne hwords (fun line hl => ?_) ih
    cases lines with
    | nil => simpa using hl.symm
    | cons first lines => exact hend line hl

end Parted

theorem parted_blocks (lines : List (List String)) : Parted lines (blocks lines) := by
  obtain ⟨ps, h⟩ := Parted.exists_of_lines lines
  rwa [h.blocks_eq]

/-- Blocks with a line without words between two of them. -/
theorem parted_intercalate {bs : List (List (List String))}
    (h : ∀ block ∈ bs, block ≠ [] ∧ [] ∉ block) :
    Parted ([[]].intercalate bs) (bs.map List.flatten) := by
  induction bs with
  | nil => exact .nil
  | cons block bs ih =>
    obtain ⟨⟨hne, hwords⟩, hbs⟩ := List.forall_mem_cons.1 h
    cases bs with
    | nil => simpa using Parted.block hne hwords (by simp) .nil
    | cons next bs =>
      rw [List.intercalate_cons_cons, List.append_assoc]
      exact .block hne hwords (by simp) (ih hbs).blank

/-! ### Paragraphs of texts -/

theorem words_lineBody_unmarked (line : String) : words (lineBody "" line) = words line := by
  have hafter : after? "".toList (trimChars line.toList) = some (trimChars line.toList) := rfl
  rw [lineBody, hafter, words_eq, String.toList_ofList, wordsOf_trimChars, wordsOf_trimChars,
    words_eq]

/-- The paragraphs of a text are those of its lines. -/
theorem parted_paragraphs (text : String) :
    Parted ((lines text).map words) (paragraphs "" text) := by
  rw [paragraphs_eq]
  simp only [words_lineBody_unmarked]
  exact parted_blocks _

/-- They have the words of the text. -/
theorem flatten_paragraphs (text : String) : (paragraphs "" text).flatten = words text := by
  rw [(parted_paragraphs text).flatten_eq, words_eq_flatMap_lines, List.flatMap_def]

theorem exists_line_of_mem_paragraphs {marker text word : String} {p : List String}
    (hp : p ∈ paragraphs marker text) (hw : word ∈ p) :
    ∃ line ∈ lines text, word ∈ words (lineBody marker line) := by
  have hflat : word ∈ (paragraphs marker text).flatten := List.mem_flatten_of_mem hp hw
  rw [paragraphs_eq, (parted_blocks _).flatten_eq, List.mem_flatten] at hflat
  obtain ⟨ws, hws, hword⟩ := hflat
  obtain ⟨line, hl, rfl⟩ := List.mem_map.1 hws
  exact ⟨line, hl, hword⟩

/-- No paragraph is empty, and all of them consist of words. -/
theorem proper_paragraphs {marker text : String} :
    ∀ p ∈ paragraphs marker text, p ≠ [] ∧ ∀ word ∈ p, IsWord word := by
  have h : Parted _ (paragraphs marker text) := parted_blocks _
  refine fun p hp => ⟨h.ne_nil_of_mem p hp, fun word hw => ?_⟩
  obtain ⟨line, -, hword⟩ := exists_line_of_mem_paragraphs hp hw
  exact isWord_of_mem_words hword

end CodeTemplate.Comment

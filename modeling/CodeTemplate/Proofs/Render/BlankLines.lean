import Mathlib.Data.List.Chain
import CodeTemplate.Proofs.Text.Infix
import CodeTemplate.Render.Filter

/-! Texts without runs of blank lines. The other lines stay as they are, and where blank lines stood
at an end or between two of them, one empty line is left. -/

namespace CodeTemplate
namespace Filter

open Text

/-- Lines in their order: blank ones at the start, and then each other one with the blank ones right
behind it. -/
structure Spacing where
  lead : List String
  parts : List (String × List String)
  blank_lead : ∀ l ∈ lead, isBlank l = true
  full : ∀ part ∈ parts, isBlank part.1 = false
  blank_gap : ∀ part ∈ parts, ∀ l ∈ part.2, isBlank l = true

namespace Spacing

def lines (g : Spacing) : List String := g.lead ++ g.parts.flatMap fun part => part.1 :: part.2

/-- An empty line in the place of blank ones, if there are any. -/
def single (gap : List String) : List String := if gap = [] then [] else [""]

theorem isBlank_of_mem_single {gap : List String} {l : String} (h : l ∈ single gap) :
    isBlank l = true := by
  rw [single] at h
  split at h
  · simp at h
  · obtain rfl : l = "" := by simpa using h
    decide

/-- The same lines with one empty line in the place of each run of blank ones. -/
def squeezed (g : Spacing) : Spacing where
  lead := single g.lead
  parts := g.parts.map fun part => (part.1, single part.2)
  blank_lead _ := isBlank_of_mem_single
  full := by
    simp only [List.mem_map]
    rintro _ ⟨part, hp, rfl⟩
    exact g.full part hp
  blank_gap := by
    simp only [List.mem_map]
    rintro _ ⟨part, -, rfl⟩ l hl
    exact isBlank_of_mem_single hl

theorem squeezed_squeezed (g : Spacing) : g.squeezed.squeezed.lines = g.squeezed.lines := by
  have hsingle : ∀ gap, single (single gap) = single gap := by
    intro gap
    by_cases h : gap = [] <;> simp [single, h]
  simp [squeezed, lines, hsingle, Function.comp_def]

/-- The lines that are not blank, in their order. -/
theorem filter_lines (g : Spacing) : g.lines.filter (!isBlank ·) = g.parts.map Prod.fst := by
  have hnone : ∀ gap : List String, (∀ l ∈ gap, isBlank l = true) →
      gap.filter (!isBlank ·) = [] := fun gap h =>
    List.filter_eq_nil_iff.2 fun l hl => by simp [h l hl]
  rw [lines, List.filter_append, hnone g.lead g.blank_lead, List.nil_append, List.filter_flatMap]
  have hpart : ∀ part ∈ g.parts, (part.1 :: part.2).filter (!isBlank ·) = [part.1] := by
    intro part hp
    rw [List.filter_cons_of_pos (by simp [g.full part hp]), hnone part.2 (g.blank_gap part hp)]
  rw [List.flatMap_congr hpart, List.map_eq_flatMap]

end Spacing

theorem exists_spacing (ls : List String) : ∃ g : Spacing, g.lines = ls := by
  induction ls with
  | nil => exact ⟨⟨[], [], by simp, by simp, by simp⟩, rfl⟩
  | cons l ls ih =>
    obtain ⟨g, rfl⟩ := ih
    cases hl : isBlank l with
    | true =>
      exact ⟨⟨l :: g.lead, g.parts, List.forall_mem_cons.2 ⟨hl, g.blank_lead⟩, g.full,
        g.blank_gap⟩, rfl⟩
    | false =>
      exact ⟨⟨[], (l, g.lead) :: g.parts, by simp, List.forall_mem_cons.2 ⟨hl, g.full⟩,
        List.forall_mem_cons.2 ⟨g.blank_lead, g.blank_gap⟩⟩, rfl⟩

/-! ### What is left of lines -/

theorem squeeze_blank {gap : List String} (h : ∀ l ∈ gap, isBlank l = true) (rest : List String) :
    squeeze true (gap ++ rest) = squeeze true rest := by
  induction gap with
  | nil => rfl
  | cons l gap ih =>
    obtain ⟨hl, hgap⟩ := List.forall_mem_cons.1 h
    rw [List.cons_append, squeeze, if_pos hl, if_pos rfl, ih hgap]

/-- Of blank lines that follow no other blank one, an empty line is left. -/
theorem squeeze_gap {gap : List String} (h : ∀ l ∈ gap, isBlank l = true) (rest : List String) :
    squeeze false (gap ++ rest) = Spacing.single gap ++ squeeze (!gap.isEmpty) rest := by
  cases gap with
  | nil => rfl
  | cons l gap =>
    obtain ⟨hl, hgap⟩ := List.forall_mem_cons.1 h
    rw [List.cons_append, squeeze, if_pos hl, if_neg Bool.false_ne_true, squeeze_blank hgap]
    rfl

theorem squeeze_parts (afterBlank : Bool) {parts : List (String × List String)}
    (hfull : ∀ part ∈ parts, isBlank part.1 = false)
    (hgap : ∀ part ∈ parts, ∀ l ∈ part.2, isBlank l = true) :
    squeeze afterBlank (parts.flatMap fun part => part.1 :: part.2) =
      parts.flatMap fun part => part.1 :: Spacing.single part.2 := by
  induction parts generalizing afterBlank with
  | nil => rfl
  | cons part parts ih =>
    obtain ⟨hline, hfull⟩ := List.forall_mem_cons.1 hfull
    obtain ⟨hblank, hgap⟩ := List.forall_mem_cons.1 hgap
    rw [List.flatMap_cons, List.flatMap_cons, List.cons_append, squeeze, if_neg (by simp [hline]),
      squeeze_gap hblank, ih _ hfull hgap, List.cons_append]

theorem squeeze_lines (g : Spacing) : squeeze false g.lines = g.squeezed.lines := by
  rw [Spacing.lines, squeeze_gap g.blank_lead, squeeze_parts _ g.full g.blank_gap, Spacing.lines,
    Spacing.squeezed, List.flatMap_map]

theorem squeeze_squeeze (ls : List String) : squeeze false (squeeze false ls) = squeeze false ls := by
  obtain ⟨g, rfl⟩ := exists_spacing ls
  rw [squeeze_lines, squeeze_lines, g.squeezed_squeezed]

theorem mem_squeeze {afterBlank : Bool} {ls : List String} {l : String}
    (h : l ∈ squeeze afterBlank ls) : l = "" ∨ l ∈ ls ∧ isBlank l = false := by
  induction ls generalizing afterBlank with
  | nil => simp [squeeze] at h
  | cons m ls ih =>
    have hrest : ∀ {b}, l ∈ squeeze b ls → l = "" ∨ l ∈ m :: ls ∧ isBlank l = false := fun hl =>
      (ih hl).imp_right (And.imp_left (List.mem_cons_of_mem m))
    rw [squeeze] at h
    split at h
    · split at h
      · exact hrest h
      · exact (List.mem_cons.1 h).elim .inl hrest
    · next hm =>
      rcases List.mem_cons.1 h with rfl | hl
      · exact .inr ⟨List.mem_cons_self, by simpa using hm⟩
      · exact hrest hl

/-- Blank lines are apart. For the induction, behind a blank line none comes first. -/
theorem isChain_squeeze (afterBlank : Bool) (ls : List String) :
    ((squeeze afterBlank ls).IsChain fun l m => ¬ (isBlank l = true ∧ isBlank m = true)) ∧
      (afterBlank = true → ∀ l ∈ (squeeze afterBlank ls).head?, isBlank l = false) := by
  induction ls generalizing afterBlank with
  | nil => simp [squeeze]
  | cons l ls ih =>
    rw [squeeze]
    split
    · cases afterBlank with
      | true => exact ih true
      | false =>
        obtain ⟨hchain, hhead⟩ := ih true
        refine ⟨List.isChain_cons.2 ⟨fun m hm => ?_, hchain⟩, by simp⟩
        simp [hhead rfl m hm]
    · next hl =>
      refine ⟨List.isChain_cons.2 ⟨fun m _ => by simp [hl], (ih false).1⟩, ?_⟩
      rintro - _ ⟨rfl⟩
      simpa using hl

theorem squeeze_ne_nil {ls : List String} (h : ls ≠ []) : squeeze false ls ≠ [] := by
  obtain ⟨l, ls, rfl⟩ := List.exists_cons_of_ne_nil h
  rw [squeeze]
  split <;> simp

/-- What is left of the lines of a text are the lines of what is left of it. -/
theorem lines_squeezeBlankLines (s : String) :
    lines (squeezeBlankLines s) = squeeze false (lines s) := by
  refine lines_unlines (squeeze_ne_nil (lines_ne_nil s)) fun l hl => ?_
  rcases mem_squeeze hl with rfl | ⟨hl, -⟩
  · simp
  · exact not_mem_of_mem_lines hl

/-- The lines of a text that are not blank stay as they are, with one empty line before, between or
behind them where blank lines stand in the text. No more than that is left of blank lines, so that
nothing is left for a second time. -/
theorem squeezeBlankLines_spaced (s : String) :
    (∃ g : Spacing, g.lines = lines s) ∧
      (∀ g : Spacing, g.lines = lines s → lines (squeezeBlankLines s) = g.squeezed.lines) ∧
      (lines (squeezeBlankLines s)).filter (!isBlank ·) = (lines s).filter (!isBlank ·) ∧
      ((lines (squeezeBlankLines s)).IsChain fun l m => ¬ (isBlank l = true ∧ isBlank m = true)) ∧
      (∀ l ∈ lines (squeezeBlankLines s), isBlank l = true → l = "") ∧
      ((∀ l ∈ lines s, isBlank l = true) → squeezeBlankLines s = "") ∧
      squeezeBlankLines (squeezeBlankLines s) = squeezeBlankLines s := by
  obtain ⟨g, hg⟩ := exists_spacing (lines s)
  rw [lines_squeezeBlankLines]
  refine ⟨⟨g, hg⟩, fun g' hg' => hg' ▸ squeeze_lines g', ?_, (isChain_squeeze false _).1, ?_, ?_, ?_⟩
  · rw [← hg, squeeze_lines, Spacing.filter_lines, Spacing.filter_lines, Spacing.squeezed,
      List.map_map]
    rfl
  · intro l hl hblank
    rcases mem_squeeze hl with rfl | ⟨-, hfull⟩
    · rfl
    · simp [hfull] at hblank
  · intro hblank
    have hgap := squeeze_gap hblank []
    rw [List.append_nil, Spacing.single, if_neg (lines_ne_nil s)] at hgap
    rw [squeezeBlankLines, hgap]
    rfl
  · rw [squeezeBlankLines, lines_squeezeBlankLines, squeeze_squeeze, squeezeBlankLines]

/-- Blank lines of several kinds at both ends and between two lines, one of which ends in a blank. -/
theorem squeezeBlankLines_spaced_mixed :
    let s := " \n\ta\r\n\n\u00a0\n\u3000\r\nb\n\n"
    let g : Spacing := ⟨[" "], [("\ta\r", ["", "\u00a0", "\u3000\r"]), ("b", ["", ""])],
      by decide, by decide, by decide⟩
    g.lines = lines s ∧ lines (squeezeBlankLines s) = ["", "\ta\r", "", "b", ""] ∧
      squeezeBlankLines (squeezeBlankLines s) = squeezeBlankLines s := by
  intro s g
  have hg : g.lines = lines s := by decide +kernel
  obtain ⟨-, hlines, -, -, -, -, hagain⟩ := squeezeBlankLines_spaced s
  exact ⟨hg, hlines g hg, hagain⟩

end Filter
end CodeTemplate

import CodeTemplate.Proofs.Text.Infix

/-! The lines of a text, and what trimming does to them: trimming the text removes the blank lines
at its end and trims the one before them, so the lines trimmed are the same. -/

namespace CodeTemplate.Text

theorem unlines_lines (s : String) : unlines (lines s) = s := by
  refine String.toList_injective ?_
  rw [toList_unlines, lines, split, List.map_map]
  simp [Function.comp_def, List.intercalate_splitOn]

/-- A character is in one of the lines, unless it is the line break. -/
theorem mem_iff_exists_lines {c : Char} (hc : c ≠ '\n') {s : String} :
    c ∈ s.toList ↔ ∃ line ∈ lines s, c ∈ line.toList := by
  constructor
  · intro h
    rw [← unlines_lines s, toList_unlines] at h
    rcases mem_intercalate h with h | ⟨cs, hcs, h⟩
    · exact absurd (List.mem_singleton.1 h) hc
    · obtain ⟨line, hline, rfl⟩ := List.mem_map.1 hcs
      exact ⟨line, hline, h⟩
  · rintro ⟨line, hline, h⟩
    exact (infix_of_mem_lines hline).subset h

/-- A character that does not part the list goes to the end of its last part. -/
theorem splitOn_concat {sep c : Char} (hc : c ≠ sep) (cs : List Char) :
    ∃ init last, cs.splitOn sep = init ++ [last] ∧
      (cs ++ [c]).splitOn sep = init ++ [last ++ [c]] := by
  obtain ⟨init, last, heq⟩ :=
    (List.eq_nil_or_concat' (cs.splitOn sep)).resolve_left (List.splitOn_ne_nil sep cs)
  have hparts : ∀ part ∈ init ++ [last], sep ∉ part := by
    intro part hp hsep
    rw [← heq, List.splitOn_eq_splitOnP] at hp
    simpa using not_of_mem_splitOnP hp sep hsep
  have hjoin : cs ++ [c] = [sep].intercalate (init ++ [last ++ [c]]) := by
    have hcs : [sep].intercalate (init ++ [last]) = cs := by
      rw [← heq, List.intercalate_splitOn]
    rw [intercalate_concat] at hcs ⊢
    rw [← hcs, List.append_assoc]
  refine ⟨init, last, heq, ?_⟩
  rw [hjoin]
  refine List.splitOn_intercalate sep (fun part hp => ?_) (by simp)
  rcases List.mem_append.1 hp with hp | hp
  · exact hparts part (List.mem_append_left _ hp)
  · obtain rfl := List.mem_singleton.1 hp
    have hlast := hparts last (by simp)
    simpa [hlast] using hc.symm

theorem rdropWhile_map {α β : Type} (f : α → β) (p : β → Bool) (xs : List α) :
    (xs.map f).rdropWhile p = (xs.rdropWhile (p ∘ f)).map f := by
  simp [List.rdropWhile, ← List.map_reverse, List.dropWhile_map]

/-- The lines of a text, each without the spaces at its end, and without the blank ones at the end
of the text. -/
def trimmedLines (s : String) : List String := ((lines s).map trimEnd).rdropWhile (· == "")

theorem mem_lines_of_mem_trimmedLines {s line : String} (h : line ∈ trimmedLines s) :
    ∃ l ∈ lines s, trimEnd l = line :=
  List.mem_map.1 ((List.rdropWhile_prefix _ _).subset h)

/-- What holds of some trimmed line, but not of the empty one, holds of one that stays. -/
theorem exists_trimmedLines_iff {P : String → Prop} (hP : ¬ P "") {s : String} :
    (∃ line ∈ trimmedLines s, P line) ↔ ∃ line ∈ lines s, P (trimEnd line) := by
  constructor
  · rintro ⟨line, hline, h⟩
    obtain ⟨l, hl, rfl⟩ := mem_lines_of_mem_trimmedLines hline
    exact ⟨l, hl, h⟩
  · rintro ⟨l, hl, h⟩
    have hmem : trimEnd l ∈ (lines s).map trimEnd := List.mem_map.2 ⟨l, hl, rfl⟩
    have hparts : trimmedLines s ++ ((lines s).map trimEnd).rtakeWhile (· == "") =
        (lines s).map trimEnd := List.rdropWhile_append_rtakeWhile
    rw [← hparts] at hmem
    rcases List.mem_append.1 hmem with hmem | hmem
    · exact ⟨_, hmem, h⟩
    · have hempty : trimEnd l = "" := by simpa using List.mem_rtakeWhile_imp hmem
      exact absurd (hempty ▸ h) hP

/-- The induction adds characters at the end, where both sides drop them. -/
theorem map_dropEndWhile_splitOn {cs : List Char} (hne : ∃ c ∈ cs, isSpace c = false) :
    ((dropEndWhile isSpace cs).splitOn '\n').map (dropEndWhile isSpace) =
      ((cs.splitOn '\n').map (dropEndWhile isSpace)).rdropWhile List.isEmpty := by
  induction cs using List.reverseRecOn with
  | nil => simp at hne
  | append_singleton cs c ih =>
    cases hc : isSpace c with
    | false =>
      have hdrop : ∀ ds, dropEndWhile isSpace (ds ++ [c]) = ds ++ [c] := fun ds =>
        List.rdropWhile_concat_neg isSpace ds c (by simp [hc])
      have hbreak : c ≠ '\n' := by
        rintro rfl
        exact absurd hc (by decide)
      obtain ⟨init, last, -, hconcat⟩ := splitOn_concat hbreak cs
      rw [hdrop, hconcat, List.map_append, List.map_singleton, hdrop]
      exact (List.rdropWhile_concat_neg _ _ _ (by simp)).symm
    | true =>
      have hdrop : ∀ ds, dropEndWhile isSpace (ds ++ [c]) = dropEndWhile isSpace ds := fun ds =>
        List.rdropWhile_concat_pos isSpace ds c hc
      have hrest : ∃ d ∈ cs, isSpace d = false := by
        obtain ⟨d, hd, hspace⟩ := hne
        rcases List.mem_append.1 hd with hd | hd
        · exact ⟨d, hd, hspace⟩
        · rw [List.mem_singleton.1 hd, hc] at hspace
          cases hspace
      rw [hdrop, ih hrest]
      by_cases hbreak : c = '\n'
      · obtain rfl := hbreak
        have hsplit : (cs ++ ['\n']).splitOn '\n' = cs.splitOn '\n' ++ [[]] := by
          simpa using List.splitOn_append_cons_self cs []
        rw [hsplit, List.map_append, List.map_singleton]
        exact (List.rdropWhile_concat_pos _ _ _ rfl).symm
      · obtain ⟨init, last, heq, hconcat⟩ := splitOn_concat hbreak cs
        rw [heq, hconcat, List.map_append, List.map_append, List.map_singleton, List.map_singleton,
          hdrop]

theorem map_trimEnd_lines {s : String} (hs : isBlank s = false) :
    (lines (trimEnd s)).map trimEnd = trimmedLines s := by
  have hlines : ∀ t, (lines t).map trimEnd =
      ((t.toList.splitOn '\n').map (dropEndWhile isSpace)).map String.ofList := by
    intro t
    simp [lines, split, trimEnd, Function.comp_def]
  have hne : ∃ c ∈ s.toList, isSpace c = false := by
    simpa [isBlank] using hs
  have hempty : ((· == "") ∘ String.ofList : List Char → Bool) = List.isEmpty := by
    funext cs
    cases cs <;> simp
  rw [trimmedLines, hlines, hlines, trimEnd, String.toList_ofList, map_dropEndWhile_splitOn hne,
    rdropWhile_map String.ofList, hempty]

end CodeTemplate.Text

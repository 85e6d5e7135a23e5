import CodeTemplate.Proofs.Text.Infix

/-! The words of a text: those of its parts between spaces, of its lines, and of the text trimmed.
Words joined by spaces are read back. -/

namespace CodeTemplate.Text

/-- The text is a word. -/
structure IsWord (s : String) : Prop where
  ne_empty : s ≠ ""
  unspaced : ∀ c ∈ s.toList, isSpace c = false

theorem isWord_of_mem_words {s word : String} (h : word ∈ words s) : IsWord word :=
  ⟨(mem_words h).1, (mem_words h).2.2⟩

namespace IsWord

variable {s : String}

theorem toList_ne_nil (h : IsWord s) : s.toList ≠ [] := by
  simpa using h.ne_empty

theorem head?_unspaced (h : IsWord s) (behind : List Char) :
    ∀ c ∈ (s.toList ++ behind).head?, isSpace c = false := by
  obtain ⟨c, cs, hcs⟩ := List.exists_cons_of_ne_nil h.toList_ne_nil
  rw [hcs]
  rintro _ ⟨rfl⟩
  exact h.unspaced c (by simp [hcs])

theorem getLast?_unspaced (h : IsWord s) : ∀ c ∈ s.toList.getLast?, isSpace c = false :=
  fun c hc => h.unspaced c (List.mem_of_getLast? hc)

end IsWord

theorem isSpace_of_isIndent {c : Char} (h : isIndent c = true) : isSpace c = true := by
  simp only [isIndent, Bool.or_eq_true, beq_iff_eq] at h
  rcases h with rfl | rfl <;> decide

/-- The words of a text that is given by its characters. -/
def wordsOf (cs : List Char) : List String :=
  ((cs.splitOnP isSpace).filter (!·.isEmpty)).map String.ofList

theorem words_eq (s : String) : words s = wordsOf s.toList := rfl

@[simp] theorem wordsOf_nil : wordsOf [] = [] := by
  simp [wordsOf, List.splitOnP_nil]

/-- A space parts the words before it from those behind it. -/
theorem wordsOf_append_cons {c : Char} (hc : isSpace c = true) (cs ds : List Char) :
    wordsOf (cs ++ c :: ds) = wordsOf cs ++ wordsOf ds := by
  simp [wordsOf, List.splitOnP_append_cons cs ds hc]

theorem wordsOf_cons {c : Char} (hc : isSpace c = true) (cs : List Char) :
    wordsOf (c :: cs) = wordsOf cs := by
  simpa using wordsOf_append_cons hc [] cs

theorem wordsOf_concat {c : Char} (hc : isSpace c = true) (cs : List Char) :
    wordsOf (cs ++ [c]) = wordsOf cs := by
  simpa using wordsOf_append_cons hc cs []

theorem wordsOf_of_forall {cs : List Char} (h : ∀ c ∈ cs, isSpace c = true) : wordsOf cs = [] := by
  induction cs with
  | nil => exact wordsOf_nil
  | cons c cs ih =>
    rw [wordsOf_cons (h c List.mem_cons_self)]
    exact ih fun d hd => h d (List.mem_cons_of_mem _ hd)

theorem words_of_isWord {s : String} (h : IsWord s) : words s = [s] := by
  simp [words_eq, wordsOf, List.splitOnP_eq_singleton h.unspaced, h.toList_ne_nil]

theorem wordsOf_dropWhile (cs : List Char) : wordsOf (cs.dropWhile isSpace) = wordsOf cs := by
  induction cs with
  | nil => rfl
  | cons c cs ih =>
    by_cases hc : isSpace c = true
    · rw [List.dropWhile_cons_of_pos hc, ih, wordsOf_cons hc]
    · rw [List.dropWhile_cons_of_neg hc]

theorem wordsOf_dropEndWhile (cs : List Char) : wordsOf (dropEndWhile isSpace cs) = wordsOf cs := by
  induction cs using List.reverseRecOn with
  | nil => rfl
  | append_singleton cs c ih =>
    by_cases hc : isSpace c = true
    · rw [wordsOf_concat hc, ← ih, dropEndWhile, List.reverse_concat,
        List.dropWhile_cons_of_pos hc, dropEndWhile]
    · rw [dropEndWhile, List.reverse_concat, List.dropWhile_cons_of_neg hc, List.reverse_cons,
        List.reverse_reverse]

/-- Spaces at the ends of a text are in no word. -/
theorem wordsOf_trimChars (cs : List Char) : wordsOf (trimChars cs) = wordsOf cs := by
  rw [trimChars, wordsOf_dropEndWhile, wordsOf_dropWhile]

/-- A space between two parts parts their words. -/
theorem wordsOf_intercalate {c : Char} (hc : isSpace c = true) (parts : List (List Char)) :
    wordsOf ([c].intercalate parts) = parts.flatMap wordsOf := by
  induction parts with
  | nil => rfl
  | cons part parts ih =>
    cases parts with
    | nil => simp
    | cons next parts =>
      rw [List.intercalate_cons_cons, List.append_assoc, List.singleton_append,
        wordsOf_append_cons hc, ih, ← List.flatMap_cons]

/-- Words with a space between them are read back. -/
theorem words_intercalate {ws : List String} (h : ∀ w ∈ ws, IsWord w) :
    words (" ".intercalate ws) = ws := by
  have hlist : (" ".intercalate ws).toList = [' '].intercalate (ws.map String.toList) := by simp
  have hwords : ws.flatMap words = ws.flatMap fun w => [w] :=
    List.flatMap_congr fun w hw => words_of_isWord (h w hw)
  rw [words_eq, hlist, wordsOf_intercalate (by decide), List.flatMap_map]
  exact hwords.trans (List.flatMap_singleton' ws)

/-- The words of a text are those of its lines. -/
theorem words_eq_flatMap_lines (s : String) : words s = (lines s).flatMap words := by
  have hlines : (lines s).flatMap words = (s.toList.splitOn '\n').flatMap wordsOf := by
    simp [lines, split, List.flatMap_map, words_eq]
  have hbreak : isSpace '\n' = true := by decide
  rw [hlines, ← wordsOf_intercalate hbreak, List.intercalate_splitOn, words_eq]

end CodeTemplate.Text

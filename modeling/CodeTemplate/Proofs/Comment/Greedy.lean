import Mathlib.Data.List.Chain
import CodeTemplate.Proofs.Comment.Filling

/-! Lines that are filled as far as they go are as few as can be. A wider open line never leads to
fewer lines, and to one more at most; so no other way to cut the words gets ahead. -/

namespace CodeTemplate

/-- The length is at most the number. Nothing is at most not a number. -/
def Number.Holds (x : Number) (length : ℕ) : Prop :=
  ∃ a, x.value? = some a ∧ Number.extended length ≤ a

namespace Comment

open Text

/-- The words are cut into lines, each at most as long as the width or of one word. -/
structure Wraps (width : Number) (words : List String) (runs : List (List String)) : Prop where
  flatten : runs.flatten = words
  nonempty : [] ∉ runs
  short : ∀ run ∈ runs, width.Holds (units (unwords run)) ∨ run.length = 1

/-! ### Lengths of lines -/

theorem units_unwords_append_le {ws : List String} (hne : ws ≠ []) (more : List String) :
    units (unwords ws) ≤ units (unwords (ws ++ more)) := by
  induction more using List.reverseRecOn with
  | nil => simp
  | append_singleton more word ih =>
    rw [← List.append_assoc, units_unwords_concat (by simp [hne])]
    omega

theorem units_pos {s : String} (h : s ≠ "") : 0 < units s := by
  obtain ⟨c, cs, hcs⟩ := List.exists_cons_of_ne_nil (show s.toList ≠ [] by simpa using h)
  rw [units, hcs, unitsOf, charUnits]
  split <;> omega

theorem units_unwords_pos {ws : List String} (hne : ws ≠ []) (h : ∀ word ∈ ws, word ≠ "") :
    0 < units (unwords ws) :=
  units_pos (unwords_ne_empty hne h)

theorem fits_mono {w : Width} {m n : ℕ} (h : m ≤ n) (hn : w.fits n = true) : w.fits m = true := by
  cases w with
  | columns c =>
    simp only [Width.fits, decide_eq_true_eq] at hn ⊢
    omega
  | unbounded => rfl
  | nothing => exact hn

/-! ### Fewest lines -/

/-- Of two open lines, the wider one leads to at least as many lines as the other one, and to one
more at most. -/
theorem length_fillRuns_between (w : Width) {narrow wide words : List String} (hn : narrow ≠ [])
    (hw : wide ≠ []) (h : units (unwords narrow) ≤ units (unwords wide)) :
    (fillRuns w narrow words).length ≤ (fillRuns w wide words).length ∧
      (fillRuns w wide words).length ≤ (fillRuns w narrow words).length + 1 := by
  induction words generalizing narrow wide with
  | nil => simp [fillRuns, hn, hw]
  | cons word words ih =>
    have hstep : units (unwords narrow) + 1 + units word ≤
        units (unwords wide) + 1 + units word := by
      omega
    simp only [fillRuns, hn, hw, ↓reduceIte]
    by_cases hwide : w.fits (units (unwords wide) + 1 + units word) = true
    · -- Both lines go on.
      rw [if_pos hwide, if_pos (fits_mono hstep hwide)]
      refine ih (by simp) (by simp) ?_
      rwa [units_unwords_concat hn, units_unwords_concat hw]
    · rw [if_neg hwide]
      by_cases hnarrow : w.fits (units (unwords narrow) + 1 + units word) = true
      · -- The word is on the narrow line, and on a line of its own behind the wide one.
        have hone : units (unwords [word]) ≤ units (unwords (narrow ++ [word])) := by
          rw [units_unwords_concat hn]
          simp [unwords]
        obtain ⟨hle, hlt⟩ := ih (List.cons_ne_nil word []) (by simp) hone
        rw [if_pos hnarrow, List.length_cons]
        exact ⟨hlt, Nat.succ_le_succ hle⟩
      · rw [if_neg hnarrow, List.length_cons, List.length_cons]
        exact ⟨le_rfl, Nat.le_succ _⟩

/-- Words that fit on the open line are put there. -/
theorem fillRuns_append {w : Width} {current more : List String} (hcur : current ≠ [])
    (h : w.fits (units (unwords (current ++ more))) = true) (words : List String) :
    fillRuns w current (more ++ words) = fillRuns w (current ++ more) words := by
  induction more generalizing current with
  | nil => simp
  | cons word more ih =>
    have hsplit : current ++ word :: more = current ++ [word] ++ more := by simp
    rw [hsplit] at h ⊢
    have hfit : w.fits (units (unwords current) + 1 + units word) = true := by
      rw [← units_unwords_concat hcur]
      exact fits_mono (units_unwords_append_le (by simp) more) h
    rw [List.cons_append, fillRuns, if_neg hcur, if_pos hfit]
    exact ih (by simp) h

/-- Behind an open line, words take one line more than by themselves at most. -/
theorem length_fillRuns_open (w : Width) {current : List String} (hcur : current ≠ [])
    (words : List String) :
    (fillRuns w current words).length ≤ (fillRuns w [] words).length + 1 := by
  cases words with
  | nil => simp [fillRuns, hcur]
  | cons word words =>
    have hone : units (unwords [word]) ≤ units (unwords (current ++ [word])) := by
      rw [units_unwords_concat hcur]
      simp [unwords]
    have hnil : fillRuns w [] (word :: words) = fillRuns w [word] words := by simp [fillRuns]
    rw [hnil, fillRuns, if_neg hcur]
    split
    · exact (length_fillRuns_between w (List.cons_ne_nil word []) (by simp) hone).2
    · exact le_rfl

/-- No other lines are fewer. The induction is on the other lines: the first of them may be filled
as well, and what stands on it then is no more than what stands on the first line that is filled. -/
theorem length_fillRuns_le {w : Width} {words : List String} {runs : List (List String)}
    (h : Cut w words runs) : (fillRuns w [] words).length ≤ runs.length := by
  induction runs generalizing words with
  | nil =>
    obtain rfl : [] = words := h.flatten
    simp [fillRuns]
  | cons run runs ih =>
    obtain ⟨hfirst, hfits⟩ := List.forall_mem_cons.1 h.fits
    obtain ⟨hne, hnonempty⟩ := not_or.1 (List.mem_cons.not.1 h.nonempty)
    have hrest : (fillRuns w [] runs.flatten).length ≤ runs.length := ih ⟨rfl, hnonempty, hfits⟩
    obtain ⟨word, more, rfl⟩ := List.exists_cons_of_ne_nil (Ne.symm hne)
    have hopen : fillRuns w [] (word :: more ++ runs.flatten) =
        fillRuns w (word :: more) runs.flatten := by
      rw [List.cons_append, fillRuns, if_pos rfl]
      rcases hfirst with hfit | hone
      · exact fillRuns_append (List.cons_ne_nil word []) hfit _
      · obtain rfl : more = [] := by simpa using hone
        rfl
    rw [← h.flatten, List.flatten_cons, hopen, List.length_cons]
    exact (length_fillRuns_open w (List.cons_ne_nil word more) _).trans (Nat.succ_le_succ hrest)

/-! ### Full lines -/

/-- The open line is the first one, with the words that still fit on it. -/
theorem exists_fillRuns_cons (w : Width) {current : List String} (hcur : current ≠ [])
    (words : List String) : ∃ more rest, fillRuns w current words = (current ++ more) :: rest := by
  induction words generalizing current with
  | nil => exact ⟨[], [], by simp [fillRuns, hcur]⟩
  | cons word words ih =>
    rw [fillRuns, if_neg hcur]
    split
    · have hopen : current ++ [word] ≠ [] := by simp
      obtain ⟨more, rest, hall⟩ := ih hopen
      exact ⟨word :: more, rest, by simp [hall]⟩
    · exact ⟨[], _, by rw [List.append_nil]⟩

/-- A line ends where the first word of the next one does not fit on it. -/
theorem isChain_fillRuns (w : Width) (current words : List String) :
    (fillRuns w current words).IsChain fun run next =>
      ∀ word ∈ next.head?, ¬ w.fits (units (unwords (run ++ [word]))) = true := by
  induction words generalizing current with
  | nil =>
    rw [fillRuns]
    split <;> simp
  | cons word words ih =>
    rw [fillRuns]
    split
    · exact ih [word]
    · next hcur =>
      split
      · exact ih (current ++ [word])
      · next hfit =>
        obtain ⟨more, rest, hall⟩ := exists_fillRuns_cons w (List.cons_ne_nil word []) words
        have hrest := ih [word]
        rw [hall] at hrest ⊢
        refine List.isChain_cons_cons.2 ⟨?_, hrest⟩
        rintro _ ⟨rfl⟩
        rwa [units_unwords_concat hcur]

/-! ### Widths that are numbers -/

theorem fits_ofNumber_iff {x : Number} {n : ℕ} (hn : 0 < n) :
    (Width.ofNumber x).fits n = true ↔ x.Holds n := by
  refine ⟨fun h => (fits_ofNumber h).resolve_left hn.ne', ?_⟩
  rintro ⟨a, ha, hle⟩
  cases x with
  | nan => simp [Number.value?] at ha
  | infinite negative =>
    cases negative with
    | false => rfl
    | true =>
      obtain rfl : ⊥ = a := Option.some.inj ha
      simp [Number.extended] at hle
  | finite negative m e hcanonical =>
    obtain ⟨i, hi⟩ : ∃ i, (Number.finite negative m e hcanonical).floor? = some i := ⟨_, rfl⟩
    have hfloor : (n : ℤ) ≤ i := (Number.le_floor_iff hi n).2 ⟨a, ha, hle⟩
    simpa [Width.ofNumber, hi, Width.fits] using hfloor

theorem cut_ofNumber_iff {width : Number} {words : List String} {runs : List (List String)}
    (h : ∀ word ∈ words, word ≠ "") :
    Cut (.ofNumber width) words runs ↔ Wraps width words runs := by
  have hpos : runs.flatten = words → [] ∉ runs → ∀ run ∈ runs, 0 < units (unwords run) := by
    rintro rfl hne run hr
    refine units_unwords_pos (fun hnil => hne (hnil ▸ hr)) fun word hw => h word ?_
    exact List.mem_flatten_of_mem hr hw
  constructor
  · rintro ⟨hflat, hne, hfits⟩
    exact ⟨hflat, hne, fun run hr =>
      (hfits run hr).imp_left (fits_ofNumber_iff (hpos hflat hne run hr)).1⟩
  · rintro ⟨hflat, hne, hshort⟩
    exact ⟨hflat, hne, fun run hr =>
      (hshort run hr).imp_left (fits_ofNumber_iff (hpos hflat hne run hr)).2⟩

/-- Words are filled into lines that keep their order, whatever the width. Each line is at most as
long as the width or has one word, the first word of each line does not fit on the line before, and
no lines of this kind are fewer. -/
theorem fillLines_fewest (width : Number) {words : List String} (h : ∀ word ∈ words, word ≠ "") :
    ∃ runs, fillLines (.ofNumber width) words = runs.map unwords ∧ Wraps width words runs ∧
      (runs.IsChain fun run next =>
        ∀ word ∈ next.head?, ¬ width.Holds (units (unwords (run ++ [word])))) ∧
      ∀ others, Wraps width words others → runs.length ≤ others.length := by
  have hcut : Cut (.ofNumber width) ([] ++ words) (fillRuns (.ofNumber width) [] words) :=
    cut_fillRuns _ (.inr (by simp))
  refine ⟨fillRuns (.ofNumber width) [] words, fillFrom_eq _ [] words h,
    (cut_ofNumber_iff h).1 hcut, ?_, fun others ho => ?_⟩
  · refine (isChain_fillRuns (.ofNumber width) [] words).imp_of_mem_imp ?_
    intro run next hrun _ hfull word hw hholds
    have hne : run ≠ [] := fun hnil => hcut.nonempty (hnil ▸ hrun)
    refine hfull word hw ((fits_ofNumber_iff ?_).2 hholds)
    rw [units_unwords_concat hne]
    omega
  · exact length_fillRuns_le ((cut_ofNumber_iff h).2 ho)

/-- A width between two lengths, a line that is just full, and a word that is longer than lines. -/
theorem fillLines_fewest_long :
    let words := ["a", "bbbb", "ccccccccc", "d", "e"]
    let width := Number.ofRatio false 13 2
    (∀ word ∈ words, word ≠ "") ∧
      fillLines (.ofNumber width) words = ["a bbbb", "ccccccccc", "d e"] ∧
      ∀ others, Wraps width words others → 3 ≤ others.length := by
  intro words width
  have hwords : ∀ word ∈ words, word ≠ "" := by decide
  have hlines : fillLines (.ofNumber width) words = ["a bbbb", "ccccccccc", "d e"] := by
    decide +kernel
  obtain ⟨runs, hruns, -, -, hfewest⟩ := fillLines_fewest width hwords
  have hlength : runs.length = 3 := by
    rw [← List.length_map unwords, ← hruns, hlines]
    rfl
  exact ⟨hwords, hlines, fun others ho => hlength ▸ hfewest others ho⟩

end Comment
end CodeTemplate

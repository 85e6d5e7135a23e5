import CodeTemplate.Proofs.Comment.Filling
import CodeTemplate.Proofs.Render.Comment

/-! Texts laid out as the body of a comment, and laid out once more. All lines start with the same
blanks and marker, so what they start with is found again and taken off, and the rows that are left
have the same paragraphs. -/

namespace CodeTemplate
namespace Comment

open Text

/-! ### Lines with a marker -/

section Marked

variable {blanks marker : String}

theorem isBlank_marked (hm : IsWord marker) (tail : String) :
    isBlank (blanks ++ marker ++ tail) = false := by
  obtain ⟨c, cs, hcs⟩ := List.exists_cons_of_ne_nil hm.toList_ne_nil
  have hc : isSpace c = false := hm.unspaced c (by simp [hcs])
  simp [isBlank, hcs, hc]

variable (hb : Indents blanks) (hm : IsWord marker)
include hb hm

theorem trimChars_marked (tail : List Char) :
    trimChars (blanks.toList ++ marker.toList ++ tail) =
      marker.toList ++ dropEndWhile isSpace tail := by
  have hspaces : ∀ c ∈ blanks.toList, isSpace c = true := fun c hc => isSpace_of_isIndent (hb c hc)
  rw [trimChars, List.append_assoc, dropWhile_lead hspaces (hm.head?_unspaced tail),
    dropEndWhile_append hm.toList_ne_nil hm.getLast?_unspaced]

theorem trim_lead : trim (blanks ++ marker ++ " ") = marker := by
  have h := trimChars_marked hb hm [' ']
  rw [trim]
  simpa [dropEndWhile, isSpace] using congrArg String.ofList h

/-- The marker at the start of a line is taken off. -/
theorem words_lineBody_marked (tail : String) :
    words (lineBody marker (blanks ++ marker ++ tail)) = words tail := by
  have h := trimChars_marked hb hm tail.toList
  simp only [lineBody, String.toList_append]
  rw [h, after?_append]
  simp only [words_eq, String.toList_ofList, wordsOf_trimChars, wordsOf_dropEndWhile]

omit hb in
theorem trimEnd_lead : trimEnd (blanks ++ marker ++ " ") = blanks ++ marker := by
  have hne : blanks.toList ++ marker.toList ≠ [] := by simp [hm.ne_empty]
  have hlast : ∀ c ∈ (blanks.toList ++ marker.toList).getLast?, isSpace c = false := by
    intro c hc
    rw [List.getLast?_append_of_ne_nil _ hm.toList_ne_nil] at hc
    exact hm.getLast?_unspaced c hc
  have hlist : (blanks ++ marker ++ " ").toList = (blanks.toList ++ marker.toList) ++ [' '] := by
    simp
  rw [trimEnd, hlist, dropEndWhile_append hne hlast]
  simp [dropEndWhile, isSpace]

/-- A first line with the marker gives the lead that it starts with. -/
theorem leadOf_marked {continuation : String} (hc : trim continuation = marker) (tail : String) :
    leadOf continuation (blanks ++ marker ++ tail) = blanks ++ marker ++ " " := by
  have hmarker : trimChars continuation.toList = marker.toList := by simp [← hc, trim]
  have hhead : ∀ c ∈ (marker.toList ++ tail.toList).head?, isIndent c = false := by
    intro c hh
    have hspace : isSpace c = false := hm.head?_unspaced _ c hh
    by_contra hindent
    simp [isSpace_of_isIndent (by simpa using hindent)] at hspace
  have hindent : (blanks ++ marker ++ tail).toList.takeWhile isIndent = blanks.toList := by
    simpa using takeWhile_lead hb hhead
  have hrest : (blanks ++ marker ++ tail).toList.dropWhile isIndent =
      marker.toList ++ tail.toList := by
    simpa using dropWhile_lead hb hhead
  simp only [leadOf, hmarker, hindent, hrest, after?_append]
  simp [hm.ne_empty, String.append_assoc]

/-- Whatever the first line is, the lead is blanks, the marker and a space. -/
theorem exists_leadOf (firstLine : String) : ∃ blanks', Indents blanks' ∧
    leadOf (blanks ++ marker ++ " ") firstLine = blanks' ++ marker ++ " " := by
  have hmarker : trimChars (blanks ++ marker ++ " ").toList = marker.toList := by
    simpa [dropEndWhile, isSpace] using trimChars_marked hb hm [' ']
  have hindent : Indents (String.ofList (firstLine.toList.takeWhile isIndent)) := by
    intro c hc
    rw [String.toList_ofList] at hc
    exact List.mem_takeWhile_imp hc
  simp only [leadOf, hmarker]
  split
  · exact ⟨_, hindent, by simp [String.append_assoc]⟩
  · refine ⟨String.ofList (firstLine.toList.takeWhile isIndent) ++ blanks, ?_, ?_⟩
    · intro c hc
      rw [String.toList_append, List.mem_append] at hc
      exact hc.elim (hindent c) (hb c)
    · simp [String.append_assoc]

end Marked

/-! ### Lines of a layout -/

/-- A row that is behind a lead is what the lead leaves of the line. -/
theorem exists_rowLine (blanks : String) {marker : String} (hm : IsWord marker)
    {row : List String} (hrow : ∀ word ∈ row, IsWord word) :
    ∃ tail, rowLine (blanks ++ marker ++ " ") row = blanks ++ marker ++ tail ∧
      words tail = row := by
  by_cases hne : row = []
  · exact ⟨"", by rw [rowLine, if_pos hne, trimEnd_lead hm, String.append_empty], hne.symm⟩
  · refine ⟨" " ++ unwords row, by simp [rowLine, hne, String.append_assoc], ?_⟩
    have hwords : words (unwords row) = row := words_intercalate hrow
    rw [words_eq, String.toList_append]
    exact (wordsOf_cons (by decide) _).trans hwords

theorem unbroken_of_isWord {s : String} (h : IsWord s) : Unbroken s :=
  unbroken_of_forall h.unspaced

theorem unbroken_of_indents {s : String} (h : Indents s) : Unbroken s :=
  ⟨fun hn => h.ne (by decide) _ hn rfl, fun hr => h.ne (by decide) _ hr rfl⟩

theorem Unbroken.append {s t : String} (hs : Unbroken s) (ht : Unbroken t) : Unbroken (s ++ t) :=
  ⟨by simp [hs.1, ht.1], by simp [hs.2, ht.2]⟩

/-- The line that a text has behind its last line break, if the text ends with that. -/
def lastLine (text : String) : List String :=
  if text.toList.getLast? = some '\n' then [""] else []

theorem eq_empty_of_mem_lastLine {text line : String} (h : line ∈ lastLine text) : line = "" := by
  rw [lastLine] at h
  split at h
  · exact List.mem_singleton.1 h
  · simp at h

theorem unlines_concat {ls : List String} (hne : ls ≠ []) :
    unlines (ls ++ [""]) = (unlines ls).push '\n' := by
  obtain ⟨first, rest, rfl⟩ := List.exists_cons_of_ne_nil hne
  have h := toList_unlines_cons first (rest ++ [""])
  refine String.toList_inj.1 ?_
  rw [List.cons_append, h, String.toList_push, toList_unlines_cons]
  simp

/-- Of lines that end the text it is told whether the text ends with a line break. -/
theorem lastLine_unlines {ls : List String} (hne : ls ≠ []) (hline : ∀ l ∈ ls, l ≠ "" ∧ Unbroken l)
    {text : String} : lastLine (unlines (ls ++ lastLine text)) = lastLine text := by
  by_cases ht : text.toList.getLast? = some '\n'
  · have hlast : lastLine text = [""] := if_pos ht
    rw [hlast, unlines_concat hne, lastLine, String.toList_push, List.getLast?_concat, if_pos rfl]
  · have hlast : lastLine text = [] := if_neg ht
    obtain ⟨init, last, rfl⟩ := (List.eq_nil_or_concat ls).resolve_left hne
    rw [List.concat_eq_append] at hline ⊢
    obtain ⟨hempty, hbreak, -⟩ := hline last (by simp)
    have hlist : (unlines (init ++ [last])).toList =
        (init.map String.toList).flatMap (· ++ ['\n']) ++ last.toList := by
      rw [toList_unlines, List.map_append, List.map_singleton, intercalate_concat]
    rw [hlast, List.append_nil, lastLine, hlist,
      List.getLast?_append_of_ne_nil _ (by simpa using hempty), if_neg]
    exact fun h => hbreak (List.mem_of_getLast? h)

/-- Only a line that is not blank has words. -/
theorem exists_firstLine {marker text : String} (h : paragraphs marker text ≠ []) :
    ∃ firstLine, (lines text).find? (!isBlank ·) = some firstLine := by
  by_contra hnone
  have hblank : ∀ line ∈ lines text, isBlank line = true := by
    simpa using Option.eq_none_iff_forall_ne_some.2 fun line hl => hnone ⟨line, hl⟩
  have hwords : ∀ line ∈ lines text, words (lineBody marker line) = [] := fun line hl =>
    wordsOf_of_forall fun c hc =>
      List.all_eq_true.1 (hblank line hl) c ((lineBody_isInfix marker line).subset hc)
  obtain ⟨p, hp⟩ := List.exists_mem_of_ne_nil _ h
  obtain ⟨word, hw⟩ := List.exists_mem_of_ne_nil _ (proper_paragraphs p hp).1
  obtain ⟨line, hl, hword⟩ := exists_line_of_mem_paragraphs hp hw
  rw [hwords line hl] at hword
  simp at hword

/-- A text with paragraphs is laid out behind the lead that its first line gives. -/
theorem reflow_eq {continuation text firstLine : String} {ps : List (List String)} (w : Width)
    (hfirst : (lines text).find? (!isBlank ·) = some firstLine)
    (hps : paragraphs (trim continuation) text = ps) (hne : ps ≠ []) :
    reflow continuation w text =
      unlines (layout (leadOf continuation firstLine) w ps ++ lastLine text) := by
  have hwords : ∀ p ∈ ps, p ≠ [] ∧ ∀ word ∈ p, IsWord word := hps ▸ proper_paragraphs
  have hlayout : layout (leadOf continuation firstLine) w ps ≠ [] := layout_ne_nil hwords hne _
  cases ps with
  | nil => exact absurd rfl hne
  | cons p ps =>
    simp only [reflow, hfirst, hps]
    split
    · next h => rw [lastLine, if_pos h, unlines_concat hlayout]
    · next h => rw [lastLine, if_neg h, List.append_nil]

theorem words_lineBody_empty (marker : String) : words (lineBody marker "") = [] := by
  have hempty : (lineBody marker "").toList = [] := List.infix_nil.1 (lineBody_isInfix marker "")
  rw [words_eq, hempty, wordsOf_nil]

section Again

variable {blanks marker : String} (hb : Indents blanks) (hm : IsWord marker) {w : Width}
  {ps : List (List String)} (hps : ∀ p ∈ ps, p ≠ [] ∧ ∀ word ∈ p, IsWord word)
include hb hm hps

theorem unbroken_of_mem_layout {line : String}
    (h : line ∈ layout (blanks ++ marker ++ " ") w ps) : line ≠ "" ∧ Unbroken line := by
  have hlead : Unbroken (blanks ++ marker) :=
    (unbroken_of_indents hb).append (unbroken_of_isWord hm)
  have hword : ∀ p ∈ ps, ∀ word ∈ p, Unbroken word := fun p hp word hw =>
    unbroken_of_isWord ((hps p hp).2 word hw)
  rcases mem_layout joins_unbroken hword h with rfl | ⟨body, hbody, rfl⟩
  · rw [trimEnd_lead hm]
    exact ⟨by simp [hm.ne_empty], hlead⟩
  · exact ⟨by simp, (hlead.append ⟨by decide, by decide⟩).append hbody⟩

theorem lines_laid (hne : ps ≠ []) (text : String) :
    lines (unlines (layout (blanks ++ marker ++ " ") w ps ++ lastLine text)) =
      layout (blanks ++ marker ++ " ") w ps ++ lastLine text := by
  have hlayout : layout (blanks ++ marker ++ " ") w ps ≠ [] := layout_ne_nil hps hne _
  refine lines_unlines (List.append_ne_nil_of_left_ne_nil hlayout _) fun l hl => ?_
  rcases List.mem_append.1 hl with hl | hl
  · exact (unbroken_of_mem_layout hb hm hps hl).2.1
  · rw [eq_empty_of_mem_lastLine hl]
    simp

/-- The lines of a layout have its paragraphs. -/
theorem paragraphs_laid (hne : ps ≠ []) (text : String) :
    paragraphs marker (unlines (layout (blanks ++ marker ++ " ") w ps ++ lastLine text)) = ps := by
  let lead := blanks ++ marker ++ " "
  let body (line : String) : List String := words (lineBody marker line)
  have hrows : (layout lead w ps).map body = rows (room (units lead) w) ps := by
    rw [layout_eq hps, List.map_map]
    refine Eq.trans (List.map_congr_left fun row hr => ?_) (List.map_id' _)
    obtain ⟨tail, heq, htail⟩ := exists_rowLine blanks hm (isWord_of_mem_rows hps row hr)
    change words (lineBody marker (rowLine lead row)) = row
    rw [heq, words_lineBody_marked hb hm, htail]
  have hparted : Parted (rows (room (units lead) w) ps) ps := parted_rows hps
  rw [paragraphs_eq, lines_laid hb hm hps hne, List.map_append, hrows]
  refine Parted.blocks_eq ?_
  by_cases ht : text.toList.getLast? = some '\n'
  · rw [lastLine, if_pos ht, List.map_singleton, words_lineBody_empty]
    exact hparted.concat_blank
  · rw [lastLine, if_neg ht, List.map_nil, List.append_nil]
    exact hparted

/-- What is laid out behind a lead with the marker is laid out in the same way once more. -/
theorem reflow_laid {continuation : String} (hc : trim continuation = marker) (hne : ps ≠ [])
    (text : String) :
    reflow continuation w
        (unlines (layout (blanks ++ marker ++ " ") w ps ++ lastLine text)) =
      unlines (layout (blanks ++ marker ++ " ") w ps ++ lastLine text) := by
  let lead := blanks ++ marker ++ " "
  have hparagraphs := paragraphs_laid hb hm hps hne text (w := w)
  have hsome : rows (room (units lead) w) ps ≠ [] := rows_ne_nil hps hne
  obtain ⟨row, more, hrows⟩ := List.exists_cons_of_ne_nil hsome
  obtain ⟨tail, heq, -⟩ := exists_rowLine blanks hm
    (isWord_of_mem_rows hps row (hrows ▸ List.mem_cons_self))
  have hlayout : layout lead w ps = (blanks ++ marker ++ tail) :: more.map (rowLine lead) := by
    rw [layout_eq hps, hrows, List.map_cons, ← heq]
  have hfirst : (lines (unlines (layout lead w ps ++ lastLine text))).find? (!isBlank ·) =
      some (blanks ++ marker ++ tail) := by
    rw [lines_laid hb hm hps hne, hlayout, List.cons_append,
      List.find?_cons_of_pos (by simp [isBlank_marked hm])]
  have hlast : lastLine (unlines (layout lead w ps ++ lastLine text)) = lastLine text :=
    lastLine_unlines (layout_ne_nil hps hne _) fun l hl => unbroken_of_mem_layout hb hm hps hl
  rw [reflow_eq w hfirst (hc.symm ▸ hparagraphs) hne, leadOf_marked hb hm hc, hlast]

end Again

theorem reflow_eq_empty {continuation text : String} (w : Width)
    (h : paragraphs (trim continuation) text = []) : reflow continuation w text = "" := by
  simp only [reflow, h]
  split <;> rfl

theorem reflow_idem {blanks marker : String} (hb : Indents blanks) (hm : IsWord marker) (w : Width)
    (text : String) :
    reflow (blanks ++ marker ++ " ") w (reflow (blanks ++ marker ++ " ") w text) =
      reflow (blanks ++ marker ++ " ") w text := by
  have hc : trim (blanks ++ marker ++ " ") = marker := trim_lead hb hm
  by_cases hps : paragraphs (trim (blanks ++ marker ++ " ")) text = []
  · rw [reflow_eq_empty w hps]
    rfl
  · obtain ⟨firstLine, hfirst⟩ := exists_firstLine hps
    obtain ⟨blanks', hb', hlead⟩ := exists_leadOf hb hm firstLine
    rw [reflow_eq w hfirst rfl hps, hlead]
    exact reflow_laid hb' hm proper_paragraphs hc hps text

end Comment

/-! ### The filter -/

namespace Filter

open Comment Text

theorem exists_commentLead {l : Language} (hl : l ∈ Language.builtin) :
    ∃ blanks marker, Indents blanks ∧ IsWord marker ∧ l.commentLead = blanks ++ marker ++ " " := by
  simp only [Language.builtin, List.mem_cons, List.not_mem_nil, or_false] at hl
  have hstar : IsWord "*" := ⟨by decide, by simp [isSpace]⟩
  have hhash : IsWord "#" := ⟨by decide, by simp [isSpace]⟩
  have hblank : Indents " " := by simp [Indents, isIndent]
  rcases hl with rfl | rfl | rfl | rfl
  · exact ⟨" ", "*", hblank, hstar, rfl⟩
  · exact ⟨" ", "*", hblank, hstar, rfl⟩
  · exact ⟨" ", "*", hblank, hstar, rfl⟩
  · exact ⟨"", "#", by simp [Indents], hhash, rfl⟩

/-- The body of a comment can stand in a comment as it is. -/
theorem sanitize_commentBody {l : Language} (hl : l ∈ Language.builtin) (w : Width)
    (text : String) : l.sanitize (commentBody l w text) = commentBody l w text := by
  by_cases hs : l ∈ Render.starLanguages
  · obtain ⟨-, -, hsanitize⟩ := Render.style_of_mem hs
    have hends := Render.not_ends_commentBody hs w text
    rw [hsanitize, Language.protectText, protect_eq_self hends, String.ofList_toList]
  · obtain rfl : l = .python := by
      simp only [Render.starLanguages, Language.builtin, List.mem_cons, List.not_mem_nil,
        or_false] at hs hl
      tauto
    rfl

theorem commentBody_idem {l : Language} (hl : l ∈ Language.builtin) (w : Width) (text : String) :
    commentBody l w (commentBody l w text) = commentBody l w text := by
  obtain ⟨blanks, marker, hb, hm, hlead⟩ := exists_commentLead hl
  conv_lhs => rw [commentBody, sanitize_commentBody hl]
  simp only [commentBody, hlead]
  exact reflow_idem hb hm w _

/-- Laying out a text as the body of a comment is done once and for all: for any width and any
continuation of blanks, a marker without spaces and one space, and for the filter of each language,
whatever value it is applied to. -/
theorem blockComment_idem :
    (∀ blanks marker, Indents blanks → IsWord marker → ∀ w text,
      reflow (blanks ++ marker ++ " ") w (reflow (blanks ++ marker ++ " ") w text) =
        reflow (blanks ++ marker ++ " ") w text) ∧
    ∀ l ∈ Language.builtin, ∀ w v,
      applyAll l w v [.blockComment, .blockComment] = applyAll l w v [.blockComment] := by
  refine ⟨fun blanks marker hb hm w text => reflow_idem hb hm w text, fun l hl w v => ?_⟩
  simp only [applyAll, apply]
  cases hv : v.toText with
  | error f => rfl
  | ok text =>
    simp only [Except.map, Value.toText]
    rw [commentBody_idem hl]

/-- Words that start with the marker, a line of the marker alone, and a narrow width. -/
theorem blockComment_idem_stars :
    let text := "\t** one two three four *\n*\n  ***five */\n\n"
    let laid := "\t* * one two three four\n\t* *\n\t*\n\t* **five */\n"
    let w : Width := .ofNumber (.infinite true)
    Indents " " ∧ IsWord "*" ∧ reflow (" " ++ "*" ++ " ") w text = laid ∧
      reflow (" " ++ "*" ++ " ") w laid = laid ∧
      Language.gwt ∈ Language.builtin ∧
      applyAll .gwt w (.string text) [.blockComment, .blockComment] =
        .ok "\t* * one two three four\n\t* *\n\t*\n\t* **five *&#47;\n" := by
  intro text laid w
  have hb : Indents " " := by simp [Indents, isIndent]
  have hm : IsWord "*" := ⟨by decide, by simp [isSpace]⟩
  have hmem : Language.gwt ∈ Language.builtin := by simp [Language.builtin]
  have hlaid : reflow (" " ++ "*" ++ " ") w text = laid := by decide +kernel
  obtain ⟨hreflow, hfilter⟩ := blockComment_idem
  have hagain := hreflow " " "*" hb hm w text
  rw [hlaid] at hagain
  refine ⟨hb, hm, hlaid, hagain, hmem, ?_⟩
  rw [hfilter .gwt hmem]
  exact ok_of_toOption (by decide +kernel)

end Filter
end CodeTemplate

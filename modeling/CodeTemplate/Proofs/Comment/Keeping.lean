import CodeTemplate.Proofs.Comment.Reflow

/-! What a layout keeps. The comment for a text and the body of a comment that a text is made are
the lines of a layout in their places; the lines have the paragraphs of the text, and with what
stands before it a line is no longer than it may be, unless it is a single word. -/

namespace CodeTemplate
namespace Comment

open Text

/-- The lines have the paragraphs of the text. These are the words of the text in order; a paragraph
has those of a longest block of lines with words. -/
structure Lays (text : String) (body : List String) : Prop where
  same : paragraphs "" (unlines body) = paragraphs "" text
  flatten : (paragraphs "" text).flatten = words text
  parted : Parted ((lines text).map words) (paragraphs "" text)

/-- The length is at most the greater of the two; not a number is no bound. -/
def Within (width : Number) (least length : ℕ) : Prop :=
  length ≤ least ∨ ∃ a, width.value? = some a ∧ Number.extended length ≤ a

/-- The line behind the lead; behind an empty line, the lead has no spaces at its end. -/
def behind (lead line : String) : String := if line = "" then trimEnd lead else lead ++ line

theorem line_eq_behind (style : Style) : style.line = behind style.linePrefix := rfl

theorem behind_empty : behind "" = id := by
  funext line
  by_cases h : line = "" <;> simp [behind, h, trimEnd, dropEndWhile]

theorem units_behind_le (lead line : String) :
    units (behind lead line) ≤ units lead + units line := by
  rw [behind]
  split
  · obtain ⟨rest, hrest⟩ := toList_trimEnd_isPrefix lead
    rw [units, units, ← hrest, unitsOf_append]
    omega
  · rw [units_append]

theorem not_mem_behind {c : Char} {lead line : String} (hlead : c ∉ lead.toList)
    (hline : c ∉ line.toList) : c ∉ (behind lead line).toList := by
  rw [behind]
  split
  · exact fun h => hlead ((toList_trimEnd_isPrefix lead).subset h)
  · simp [hlead, hline]

/-! ### Rows as lines -/

section Row

variable {row : List String} (h : ∀ word ∈ row, IsWord word)
include h

theorem words_unwords : words (unwords row) = row := words_intercalate h

theorem unbroken_unwords : Unbroken (unwords row) := by
  have hmem : ∀ c ∈ (unwords row).toList, isSpace c = true → c = ' ' := by
    intro c hc hspace
    rw [unwords, String.toList_intercalate] at hc
    rcases mem_intercalate hc with hc | ⟨cs, hcs, hc⟩
    · exact List.mem_singleton.1 hc
    · obtain ⟨word, hword, rfl⟩ := List.mem_map.1 hcs
      rw [(h word hword).unspaced c hc] at hspace
      cases hspace
  exact ⟨fun hn => absurd (hmem _ hn (by decide)) (by decide),
    fun hr => absurd (hmem _ hr (by decide)) (by decide)⟩

theorem rowLine_eq (lead : String) : rowLine lead row = behind lead (unwords row) := by
  have hempty : unwords row = "" ↔ row = [] := by
    constructor
    · intro hu
      rw [← words_unwords h, hu]
      rfl
    · rintro rfl
      rfl
  simp only [rowLine, behind, hempty]

end Row

section Rows

variable {w : Width} {ps : List (List String)} (hps : ∀ p ∈ ps, p ≠ [] ∧ ∀ word ∈ p, IsWord word)
include hps

theorem layout_eq_behind (lead : String) :
    layout lead w ps = ((rows (room (units lead) w) ps).map unwords).map (behind lead) := by
  rw [layout_eq hps, List.map_map]
  exact List.map_congr_left fun row hr => rowLine_eq (isWord_of_mem_rows hps row hr) lead

theorem unbroken_of_mem_rows : ∀ line ∈ (rows w ps).map unwords, Unbroken line := by
  intro line hl
  obtain ⟨row, hr, rfl⟩ := List.mem_map.1 hl
  exact unbroken_unwords (isWord_of_mem_rows hps row hr)

theorem paragraphs_rows (hne : ps ≠ []) :
    paragraphs "" (unlines ((rows w ps).map unwords)) = ps := by
  have hrows : (rows w ps).map unwords ≠ [] := by simpa using rows_ne_nil hps hne
  have hwords : ((rows w ps).map unwords).map words = rows w ps := by
    rw [List.map_map]
    exact (List.map_congr_left fun row hr => words_unwords (isWord_of_mem_rows hps row hr)).trans
      (List.map_id' _)
  rw [paragraphs_eq, lines_unlines hrows fun l hl => (unbroken_of_mem_rows hps l hl).1]
  simp only [words_lineBody_unmarked]
  rw [hwords]
  exact (parted_rows hps).blocks_eq

end Rows

theorem paragraphs_ne_nil {text : String} (ht : words text ≠ []) : paragraphs "" text ≠ [] := by
  intro hnil
  rw [← flatten_paragraphs, hnil] at ht
  exact ht rfl

theorem lays_rows (w : Width) {text : String} (ht : words text ≠ []) :
    Lays text ((rows w (paragraphs "" text)).map unwords) :=
  ⟨paragraphs_rows proper_paragraphs (paragraphs_ne_nil ht), flatten_paragraphs text,
    parted_paragraphs text⟩

theorem Within.mono {width : Number} {least m n : ℕ} (hn : Within width least n) (h : m ≤ n) :
    Within width least m := by
  refine hn.imp h.trans ?_
  rintro ⟨a, ha, hle⟩
  exact ⟨a, ha, (Number.extended_le.2 (by exact_mod_cast h)).trans hle⟩

/-- Lines in the room beside what is taken are put where nothing else is added to them. -/
theorem within_of_mem_rows {width : Number} {taken : ℕ} {ps : List (List String)}
    (hps : ∀ p ∈ ps, p ≠ [] ∧ ∀ word ∈ p, IsWord word) {place : String → String}
    (hplace : ∀ line, units (place line) ≤ taken + units line) :
    ∀ line ∈ (rows (room taken (.ofNumber width)) ps).map unwords,
      Within width (taken + leastWidth) (units (place line)) ∨ (words line).length = 1 := by
  intro line hl
  obtain ⟨row, hr, rfl⟩ := List.mem_map.1 hl
  rcases fits_of_mem_rows row hr with rfl | hone | hfits
  · have hempty : units (place (unwords [])) ≤ taken := hplace (unwords [])
    exact .inl (.inl (hempty.trans (Nat.le_add_right _ _)))
  · right
    rwa [words_unwords (isWord_of_mem_rows hps row hr)]
  · have hwithin : Within width (taken + leastWidth) (taken + units (unwords row)) := by
      rcases fits_room hfits with hleast | hfits
      · exact .inl (Nat.add_le_add_left hleast taken)
      · rcases fits_ofNumber hfits with hzero | hvalue
        · exact .inl (by omega)
        · exact .inr hvalue
    exact .inl (hwithin.mono (hplace _))

/-! ### Comments of their own -/

/-- A comment is its lines, the first one where it stands and the others behind the indent. -/
theorem lines_comment {style : Style} {indent : String} {body : List String} (hi : Indents indent)
    (hends : ∀ line ∈ style.opening.toList ++ style.closing.toList, '\n' ∉ line.toList)
    (hlead : '\n' ∉ style.linePrefix.toList) (hbody : ∀ line ∈ body, '\n' ∉ line.toList)
    (hne : body ≠ []) :
    ∃ first rest,
      style.opening.toList ++ body.map style.line ++ style.closing.toList = first :: rest ∧
        lines (style.comment indent body) = first :: rest.map (indent ++ ·) := by
  let all := style.opening.toList ++ body.map style.line ++ style.closing.toList
  have hall : ∀ line ∈ all, '\n' ∉ line.toList := by
    intro line hl
    simp only [all, List.mem_append] at hl
    rcases hl with (hl | hl) | hl
    · exact hends line (List.mem_append_left _ hl)
    · obtain ⟨b, hb, rfl⟩ := List.mem_map.1 hl
      exact not_mem_behind hlead (hbody b hb)
    · exact hends line (List.mem_append_right _ hl)
  have hsome : all ≠ [] := by simp [all, hne]
  obtain ⟨first, rest, heq⟩ := List.exists_cons_of_ne_nil hsome
  refine ⟨first, rest, heq, ?_⟩
  have hcomment : style.comment indent body = unlines (first :: rest.map (indent ++ ·)) := by
    have hdef : style.opening.toList ++ body.map style.line ++ style.closing.toList =
      first :: rest := heq
    simp only [Style.comment, hdef]
  rw [heq] at hall
  rw [hcomment, lines_unlines (List.cons_ne_nil _ _)]
  intro line hl
  rcases List.mem_cons.1 hl with rfl | hl
  · exact hall line List.mem_cons_self
  · obtain ⟨b, hb, rfl⟩ := List.mem_map.1 hl
    have hbreak : '\n' ∉ b.toList := hall b (List.mem_cons_of_mem _ hb)
    have hindent : '\n' ∉ indent.toList := (unbroken_of_indents hi).1
    simp [hbreak, hindent]

theorem not_mem_style {l : Language} (hl : l ∈ Language.builtin) :
    ∀ style ∈ [l.docStyle, l.blockStyle],
      (∀ line ∈ style.opening.toList ++ style.closing.toList, '\n' ∉ line.toList) ∧
        '\n' ∉ style.linePrefix.toList := by
  revert l
  decide

theorem document_laid {l : Language} (hl : l ∈ Language.builtin) {indent : String}
    (hi : Indents indent) (width : Number) {text : String} (ht : words text ≠ []) :
    ∃ body first rest,
      l.docStyle.opening.toList ++ body.map l.docStyle.line ++ l.docStyle.closing.toList =
        first :: rest ∧
      lines (l.docStyle.document indent (.ofNumber width) text) =
        first :: rest.map (indent ++ ·) ∧
      Lays text body ∧
      ∀ line ∈ body, Within width (units indent + units l.docStyle.linePrefix + leastWidth)
        (units (indent ++ l.docStyle.line line)) ∨ (words line).length = 1 := by
  let taken := units indent + units l.docStyle.linePrefix
  let body := (rows (room taken (.ofNumber width)) (paragraphs "" text)).map unwords
  have hne : body ≠ [] := by
    simpa [body] using rows_ne_nil proper_paragraphs (paragraphs_ne_nil ht)
  have hroom : room (units "")
      (((Width.ofNumber width).minus (units indent)).minus (units l.docStyle.linePrefix)) =
        room taken (.ofNumber width) := by
    simp only [room, minus_minus, taken]
    rfl
  have hdocument : l.docStyle.document indent (.ofNumber width) text =
      l.docStyle.comment indent body := by
    rw [Style.document, layout_eq_behind proper_paragraphs, hroom]
    rw [behind_empty, List.map_id]
  obtain ⟨hends, hlead⟩ := not_mem_style hl l.docStyle (by simp)
  obtain ⟨first, rest, hall, hlines⟩ := lines_comment hi hends hlead
    (fun line hline => (unbroken_of_mem_rows proper_paragraphs line hline).1) hne
  refine ⟨body, first, rest, hall, hdocument ▸ hlines, lays_rows _ ht, ?_⟩
  refine within_of_mem_rows proper_paragraphs fun line => ?_
  have hle := units_behind_le l.docStyle.linePrefix line
  rw [units_append, line_eq_behind]
  omega

/-! ### Bodies of comments -/

/-- The text with one marker taken off each line that starts with one. -/
def unmarked (marker text : String) : String := unlines ((lines text).map (lineBody marker))

theorem paragraphs_unmarked (marker text : String) :
    paragraphs "" (unmarked marker text) = paragraphs marker text := by
  have hlines : lines (unmarked marker text) = (lines text).map (lineBody marker) := by
    refine lines_unlines (by simpa using lines_ne_nil text) fun l hl => ?_
    obtain ⟨line, hline, rfl⟩ := List.mem_map.1 hl
    exact fun hn => not_mem_of_mem_lines hline ((lineBody_isInfix marker line).subset hn)
  rw [paragraphs_eq, hlines, List.map_map, paragraphs_eq]
  simp only [Function.comp_def, words_lineBody_unmarked]

theorem commentBody_laid {l : Language} (hl : l ∈ Language.builtin) (width : Number)
    {text : String}
    (ht : words (unmarked (trim l.commentLead) (l.sanitize text)) ≠ []) :
    ∃ firstLine body,
      (lines (l.sanitize text)).find? (!isBlank ·) = some firstLine ∧
      lines (Filter.commentBody l (.ofNumber width) text) =
        body.map (behind (leadOf l.commentLead firstLine)) ++ lastLine (l.sanitize text) ∧
      Lays (unmarked (trim l.commentLead) (l.sanitize text)) body ∧
      ∀ line ∈ body, Within width (units (leadOf l.commentLead firstLine) + leastWidth)
        (units (behind (leadOf l.commentLead firstLine) line)) ∨ (words line).length = 1 := by
  obtain ⟨blanks, marker, hb, hm, hcontinuation⟩ := Filter.exists_commentLead hl
  have hps : paragraphs "" (unmarked (trim l.commentLead) (l.sanitize text)) =
      paragraphs (trim l.commentLead) (l.sanitize text) := paragraphs_unmarked _ _
  have hne : paragraphs (trim l.commentLead) (l.sanitize text) ≠ [] := hps ▸ paragraphs_ne_nil ht
  obtain ⟨firstLine, hfirst⟩ := exists_firstLine hne
  obtain ⟨blanks', hb', hlead⟩ := exists_leadOf hb hm firstLine
  rw [← hcontinuation] at hlead
  let taken := units (leadOf l.commentLead firstLine)
  let body := (rows (room taken (.ofNumber width))
    (paragraphs (trim l.commentLead) (l.sanitize text))).map unwords
  have hlines : lines (Filter.commentBody l (.ofNumber width) text) =
      body.map (behind (leadOf l.commentLead firstLine)) ++ lastLine (l.sanitize text) := by
    rw [Filter.commentBody, reflow_eq _ hfirst rfl hne, hlead,
      lines_laid hb' hm proper_paragraphs hne, layout_eq_behind proper_paragraphs, ← hlead]
  have hlays : Lays (unmarked (trim l.commentLead) (l.sanitize text)) body := by
    have h := lays_rows (room taken (.ofNumber width)) ht
    rwa [hps] at h
  refine ⟨firstLine, body, hfirst, hlines, hlays, ?_⟩
  exact within_of_mem_rows proper_paragraphs (units_behind_le _)

/-- Layouts lose no word and keep the width, for any language, width and text with a word. In the
comment for a text, the lines of the layout are behind the prefix of the language and between the
lines that open and close the comment, and all lines but the first are behind the indent. In the
body of a comment, the lines of the layout are behind the lead, and what is laid out is the text
without the marker that a line of it may start with. -/
theorem comments_lay {l : Language} (hl : l ∈ Language.builtin) (width : Number) :
    (∀ indent text, Indents indent → words text ≠ [] → ∃ body first rest,
      l.docStyle.opening.toList ++ body.map (behind l.docStyle.linePrefix) ++
        l.docStyle.closing.toList = first :: rest ∧
      lines (l.docStyle.document indent (.ofNumber width) text) =
        first :: rest.map (indent ++ ·) ∧
      Lays text body ∧
      ∀ line ∈ body,
        Within width (units indent + units l.docStyle.linePrefix + 20)
          (units (indent ++ behind l.docStyle.linePrefix line)) ∨ (words line).length = 1) ∧
    ∀ v text, v.toText = .ok text → words (unmarked (trim l.commentLead) (l.sanitize text)) ≠ [] →
      ∃ out firstLine body,
        Filter.blockComment.apply l (.ofNumber width) v = .ok out ∧
        (lines (l.sanitize text)).find? (!isBlank ·) = some firstLine ∧
        lines out =
          body.map (behind (leadOf l.commentLead firstLine)) ++ lastLine (l.sanitize text) ∧
        Lays (unmarked (trim l.commentLead) (l.sanitize text)) body ∧
        ∀ line ∈ body,
          Within width (units (leadOf l.commentLead firstLine) + 20)
            (units (behind (leadOf l.commentLead firstLine) line)) ∨ (words line).length = 1 := by
  refine ⟨fun indent text hi ht => document_laid hl hi width ht, fun v text hv ht => ?_⟩
  obtain ⟨firstLine, body, hfirst, hlines, hlays, hwithin⟩ := commentBody_laid hl width ht
  have happly : Filter.blockComment.apply l (.ofNumber width) v =
      .ok (Filter.commentBody l (.ofNumber width) text) := by
    rw [Filter.apply, hv]
    rfl
  exact ⟨_, firstLine, body, happly, hfirst, hlines, hlays, hwithin⟩

/-- A width that leaves the least room, a word that is longer, and a line that starts with two
markers. -/
theorem comments_lay_hashes :
    let text := "\n one\u00a0two \n\n \t\nthree four five six seven incomprehensibilities\n"
    let marked := "# # a\n#\n#b\n"
    let width := Number.ofNat 9
    Language.python ∈ Language.builtin ∧ Indents "\t" ∧ words text ≠ [] ∧
      words (unmarked "#" marked) ≠ [] ∧
      (∃ body first rest, body.map (behind "# ") = first :: rest ∧
        first :: rest.map ("\t" ++ ·) = ["# one two", "\t#", "\t# three four five six",
          "\t# seven", "\t# incomprehensibilities"] ∧
        Lays text body ∧
        ∀ line ∈ body, Within width 23 (units ("\t" ++ behind "# " line)) ∨
          (words line).length = 1) ∧
      ∃ out body, Filter.blockComment.apply .python (.ofNumber width) (.string marked) = .ok out ∧
        lines out = body.map (behind "# ") ++ [""] ∧ Lays (unmarked "#" marked) body := by
  intro text marked width
  have hmem : Language.python ∈ Language.builtin := by simp [Language.builtin]
  have hi : Indents "\t" := by simp [Indents, isIndent]
  have ht : words text ≠ [] := by decide +kernel
  have hm : words (unmarked "#" marked) ≠ [] := by decide +kernel
  obtain ⟨hdocument, hfilter⟩ := comments_lay hmem width
  obtain ⟨body, first, rest, hall, hlines, hlays, hwithin⟩ := hdocument "\t" text hi ht
  obtain ⟨out, firstLine, body', happly, hfirst, hlines', hlays', -⟩ :=
    hfilter (.string marked) marked rfl hm
  have htext : lines (Language.python.docStyle.document "\t" (.ofNumber width) text) =
      ["# one two", "\t#", "\t# three four five six", "\t# seven",
        "\t# incomprehensibilities"] := by
    decide +kernel
  have hone : (lines (Language.python.sanitize marked)).find? (!isBlank ·) = some "# # a" := by
    decide +kernel
  obtain rfl : "# # a" = firstLine := Option.some.inj (hone.symm.trans hfirst)
  have hlead : leadOf Language.python.commentLead "# # a" = "# " := by decide +kernel
  have hlast : lastLine (Language.python.sanitize marked) = [""] := by decide +kernel
  rw [hlead, hlast] at hlines'
  refine ⟨hmem, hi, ht, hm, ⟨body, first, rest, ?_, hlines.symm.trans htext, hlays, hwithin⟩,
    out, body', happly, hlines', hlays'⟩
  simpa [Language.python, Language.hash] using hall

end Comment
end CodeTemplate

import CodeTemplate.Proofs.Comment.Keeping
import CodeTemplate.Proofs.Render.Comment
import CodeTemplate.Proofs.Text.Lines

/-! The comment for a copyright text. Its lines are read back without the lines around them, the
indent and the prefix, and are those of the text. The text stands in the comment as it is, so a
comment in stars ends where it should if and only if no line ends one. -/

namespace CodeTemplate
namespace Comment

open Text

theorem ends_append_of_spaces {cs ds : List Char} (hd : ∀ c ∈ ds, isSpace c = true) :
    Ends (cs ++ ds) ↔ Ends cs := by
  cases ds with
  | nil => rw [List.append_nil]
  | cons d ds =>
    have hstar : d ≠ '*' := by
      rintro rfl
      exact absurd (hd '*' List.mem_cons_self) (by decide)
    have hslash : '/' ∉ d :: ds := fun h => absurd (hd '/' h) (by decide)
    rw [List.mem_cons, not_or] at hslash
    rw [ends_append_cons hstar (Ne.symm hslash.1)]
    exact or_iff_left (not_ends_of_not_mem hslash.2)

theorem ends_trimEnd_iff {s : String} : Ends (trimEnd s).toList ↔ Ends s.toList := by
  have hparts : (trimEnd s).toList ++ s.toList.rtakeWhile isSpace = s.toList := by
    rw [trimEnd, String.toList_ofList]
    exact List.rdropWhile_append_rtakeWhile
  have h : Ends ((trimEnd s).toList ++ s.toList.rtakeWhile isSpace) ↔ Ends (trimEnd s).toList :=
    ends_append_of_spaces fun c hc => List.mem_rtakeWhile_imp hc
  rw [← h, hparts]

theorem ends_iff_exists_lines {s : String} :
    Ends s.toList ↔ ∃ line ∈ lines s, Ends line.toList := by
  obtain ⟨first, rest, hlines⟩ := List.exists_cons_of_ne_nil (lines_ne_nil s)
  have hs : s.toList = first.toList ++ rest.flatMap fun l => '\n' :: l.toList := by
    rw [← toList_unlines_cons, ← hlines, unlines_lines]
  rw [hs, ends_lines_iff, hlines]
  simp

theorem ends_iff_exists_trimmedLines {s : String} :
    (∃ line ∈ trimmedLines s, Ends line.toList) ↔ Ends s.toList := by
  rw [exists_trimmedLines_iff (P := fun line => Ends line.toList) not_ends_nil,
    ends_iff_exists_lines]
  simp only [ends_trimEnd_iff]

/-! ### Comments read back -/

/-- The line behind `lead`, if it starts with that. -/
def past? (lead line : String) : Option String :=
  (after? lead.toList line.toList).map String.ofList

@[simp] theorem past?_append (lead line : String) : past? lead (lead ++ line) = some line := by
  simp [past?, after?_append]

theorem mapM_map_some {α β : Type} {f : α → β} {g : β → Option α} {xs : List α}
    (h : ∀ x ∈ xs, g (f x) = some x) : (xs.map f).mapM g = some xs := by
  induction xs with
  | nil => rfl
  | cons x xs ih =>
    have hrest := ih fun y hy => h y (List.mem_cons_of_mem _ hy)
    simp [List.mapM_cons, h x List.mem_cons_self, hrest]

namespace Style

variable {style : Style} {indent : String} {body : List String}

/-- The line behind the prefix. The prefix alone, without the blanks at its end, is an empty one. -/
def bare? (style : Style) (line : String) : Option String :=
  if line = trimEnd style.linePrefix then some "" else past? style.linePrefix line

/-- The lines of a comment without the indent, the lines that open and close it, and the prefix. -/
def body? (style : Style) (indent text : String) : Option (List String) := do
  let first ← (lines text).head?
  let rest ← (lines text).tail.mapM (past? indent)
  let opened ← (first :: rest).dropPrefix? style.opening.toList
  let body ← opened.dropSuffix? style.closing.toList
  body.mapM style.bare?

theorem bare?_line (style : Style) (body : String) : style.bare? (style.line body) = some body := by
  by_cases h : body = ""
  · rw [line, if_pos h, bare?, if_pos rfl, h]
  · have hne : style.linePrefix ++ body ≠ trimEnd style.linePrefix := by
      intro heq
      have hlen := (toList_trimEnd_isPrefix style.linePrefix).length_le
      rw [← heq, String.toList_append, List.length_append] at hlen
      have hempty : body.toList = [] := List.eq_nil_of_length_eq_zero (by omega)
      exact h (String.toList_eq_nil_iff.1 hempty)
    rw [line, if_neg h, bare?, if_neg hne, past?_append]

theorem body?_comment (hi : Indents indent)
    (hends : ∀ line ∈ style.opening.toList ++ style.closing.toList, '\n' ∉ line.toList)
    (hlead : '\n' ∉ style.linePrefix.toList) (hbody : ∀ line ∈ body, '\n' ∉ line.toList)
    (hne : body ≠ []) : style.body? indent (style.comment indent body) = some body := by
  obtain ⟨first, rest, hall, hlines⟩ := lines_comment hi hends hlead hbody hne
  have hrest : (rest.map (indent ++ ·)).mapM (past? indent) = some rest :=
    mapM_map_some fun line _ => past?_append indent line
  have hopened : (first :: rest).dropPrefix? style.opening.toList =
      some (body.map style.line ++ style.closing.toList) := by
    rw [← hall, List.append_assoc]
    exact List.dropPrefix?_append_of_beq _ (beq_self_eq_true _)
  have hclosed : (body.map style.line ++ style.closing.toList).dropSuffix? style.closing.toList =
      some (body.map style.line) :=
    List.dropSuffix?_eq_some_iff.2 ⟨_, rfl, beq_self_eq_true _⟩
  have hbare : (body.map style.line).mapM style.bare? = some body :=
    mapM_map_some fun line _ => bare?_line style line
  simp [body?, hlines, hrest, hopened, hclosed, hbare]

end Style

theorem enclosed_starBlock {indent : String} (hi : Indents indent) (body : List String) :
    let out := Language.starBlock.comment indent body
    (∃ inside, out.toList = "/*".toList ++ inside ++ "*/".toList) ∧
      ((∀ before after, out.toList = before ++ '*' :: '/' :: after → after = []) ↔
        ¬ ∃ line ∈ body, Ends line.toList) := by
  intro out
  have hout : out.toList = starFront Language.starBlock "/*" indent body ++ [' ', '*', '/'] :=
    toList_starComment rfl rfl indent body
  have hfront : Ends (starFront Language.starBlock "/*" indent body) ↔
      ∃ line ∈ body, Ends line.toList := ends_starFront_iff rfl hi (by simp [ends_cons])
  rw [hout, ← hfront]
  exact ⟨exists_starInside Language.starBlock "/*" indent body, endsOnce_iff⟩

theorem lines_hashComment {indent : String} (hi : Indents indent) {body : List String}
    (hbody : ∀ line ∈ body, '\n' ∉ line.toList) (hne : body ≠ []) :
    let out := Language.hash.comment indent body
    (∃ first rest, lines out = first :: rest.map (indent ++ ·) ∧
      ∀ line ∈ first :: rest, line.toList.head? = some '#') ∧
    ('\r' ∈ out.toList ↔ ∃ line ∈ body, '\r' ∈ line.toList) := by
  intro out
  have hends : ∀ line ∈ Language.hash.opening.toList ++ Language.hash.closing.toList,
      '\n' ∉ line.toList := by decide
  obtain ⟨first, rest, hall, hlines⟩ := lines_comment hi hends (by decide) hbody hne
  have hbodies : body.map Language.hash.line = first :: rest := by
    simpa [Language.hash] using hall
  refine ⟨⟨first, rest, hlines, ?_⟩, ?_⟩
  · intro line hline
    rw [← hbodies] at hline
    obtain ⟨b, -, rfl⟩ := List.mem_map.1 hline
    exact head?_hashLine b
  · have hindent : '\r' ∉ indent.toList := (unbroken_of_indents hi).2
    have hsigned : (∃ line ∈ first :: rest, '\r' ∈ line.toList) ↔
        ∃ line ∈ body, '\r' ∈ line.toList := by
      rw [← hbodies]
      simp [mem_hashLine_iff]
    rw [mem_iff_exists_lines (by decide), hlines, ← hsigned]
    simp [hindent]

end Comment

namespace Render

open CodeTemplate.Action Comment Text

variable {σ : Type} {l : Language} {indent s : String}

theorem blockStyle_of_mem (hl : l ∈ starLanguages) : l.blockStyle = Language.starBlock := by
  revert l
  decide

theorem copyrightText_eq (l : Language) (indent : String) (hs : isBlank s = false) :
    copyrightText l indent (some s) = l.blockStyle.comment indent (trimmedLines s) := by
  simp [copyrightText, hs, map_trimEnd_lines hs]

theorem trimmedLines_ne_nil (hs : isBlank s = false) : trimmedLines s ≠ [] := by
  rw [← map_trimEnd_lines hs]
  simpa using lines_ne_nil (trimEnd s)

theorem not_mem_trimmedLines (s : String) : ∀ line ∈ trimmedLines s, '\n' ∉ line.toList := by
  intro line hline
  obtain ⟨l, hl, rfl⟩ := mem_lines_of_mem_trimmedLines hline
  exact fun h => not_mem_of_mem_lines hl ((toList_trimEnd_isPrefix l).subset h)

/-- A copyright text is emitted as a comment whose lines, without the indent, the prefix and the
lines around them, are those of the text, trimmed at their ends and without the blank ones at the
end of the text. A comment in stars ends at its end alone if and only if the text ends none. Behind
hashes, a carriage return is left where a line of the text has one inside. -/
theorem copyright_reads_back (hl : l ∈ Language.builtin) (hi : Indents indent)
    (hs : isBlank s = false) {c : Setting σ} (hc : c.copyright = some s) (scope : Scope)
    (inList : Bool) (start : Location) (state : σ) :
    ∃ out, exec (node c scope inList l (.copyright indent start)) state =
        (.ok ⟨out, l, []⟩, state) ∧
      l.blockStyle.body? indent out = some (trimmedLines s) ∧
      (l ∈ starLanguages →
        (∃ inside, out.toList = "/*".toList ++ inside ++ "*/".toList) ∧
        ((∀ before after, out.toList = before ++ '*' :: '/' :: after → after = []) ↔
          ¬ Ends s.toList)) ∧
      (l = .python →
        (∃ first rest, lines out = first :: rest.map (indent ++ ·) ∧
          ∀ line ∈ first :: rest, line.toList.head? = some '#') ∧
        ('\r' ∈ out.toList ↔ ∃ line ∈ lines s, '\r' ∈ (trimEnd line).toList)) := by
  have hne : trimmedLines s ≠ [] := trimmedLines_ne_nil hs
  have hbreak := not_mem_trimmedLines s
  have htext := copyrightText_eq l indent hs
  obtain ⟨hends, hlead⟩ := not_mem_style hl l.blockStyle (by simp)
  refine ⟨copyrightText l indent (some s), ?_, ?_, ?_, ?_⟩
  · simp [node, hc]
  · rw [htext]
    exact Style.body?_comment hi hends hlead hbreak hne
  · intro hstar
    obtain ⟨hinside, honce⟩ := enclosed_starBlock hi (trimmedLines s)
    rw [htext, blockStyle_of_mem hstar, ← ends_iff_exists_trimmedLines]
    exact ⟨hinside, honce⟩
  · rintro rfl
    obtain ⟨hlines, hreturn⟩ := lines_hashComment hi hbreak hne
    rw [htext, ← exists_trimmedLines_iff (P := fun line => '\r' ∈ line.toList) (by decide)]
    exact ⟨hlines, hreturn⟩

/-- Lines with blanks at their ends, blank lines within and below, and the end of a comment. -/
theorem copyright_reads_back_ending :
    let s := "\n a  \n\t\nb */ c\n \n"
    let c : Setting Unit := ⟨none, Language.builtin, some s, .columns 80, none⟩
    Language.gwt ∈ Language.builtin ∧ Indents "\t" ∧ isBlank s = false ∧ c.copyright = some s ∧
      ∃ out, exec (node c [] false .gwt (.copyright "\t" ⟨1, 2⟩)) () = (.ok ⟨out, .gwt, []⟩, ()) ∧
        Language.gwt.blockStyle.body? "\t" out = some ["", " a", "", "b */ c"] := by
  intro s c
  have hmem : Language.gwt ∈ Language.builtin := by simp [Language.builtin]
  have hi : Indents "\t" := by simp [Indents, isIndent]
  have hs : isBlank s = false := by decide +kernel
  have hlines : trimmedLines s = ["", " a", "", "b */ c"] := by decide +kernel
  obtain ⟨out, hexec, hbody, -⟩ := copyright_reads_back hmem hi hs (c := c) rfl [] false ⟨1, 2⟩ ()
  exact ⟨hmem, hi, hs, rfl, out, hexec, hlines ▸ hbody⟩

/-- A text with the end of a comment is emitted as a comment that ends too early. -/
theorem copyright_ends_early :
    let c : Setting Unit := ⟨none, Language.builtin, some "a */ b", .columns 80, none⟩
    isBlank "a */ b" = false ∧
      ∃ out, exec (node c [] false .java (.copyright "" ⟨1, 1⟩)) () = (.ok ⟨out, .java, []⟩, ()) ∧
        out = "/*\n * a */ b\n */" ∧
        ¬ ∀ before after, out.toList = before ++ '*' :: '/' :: after → after = [] := by
  refine ⟨by decide +kernel, "/*\n * a */ b\n */", ?_, rfl, ?_⟩
  · have htext : copyrightText .java "" (some "a */ b") = "/*\n * a */ b\n */" := by
      decide +kernel
    simp [node, htext]
  · intro h
    have hafter := h "/*\n * a ".toList " b\n */".toList (by decide)
    exact absurd hafter (by decide)

end Render
end CodeTemplate

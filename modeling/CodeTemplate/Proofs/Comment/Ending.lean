import Mathlib.Data.List.TakeWhile
import CodeTemplate.Language.Table
import CodeTemplate.Proofs.Text.Infix

/-! Where comments end. Text that is made fit for a block comment holds no end of one, and laying it
out in lines behind stars brings none about; a comment of whole lines has its sign on each line. -/

namespace CodeTemplate
namespace Comment

open Text

/-- The text holds the end of a block comment. -/
def Ends (cs : List Char) : Prop := ['*', '/'] <:+: cs

theorem ends_cons {c : Char} {cs : List Char} :
    Ends (c :: cs) ↔ c = '*' ∧ cs.head? = some '/' ∨ Ends cs := by
  have hp : ['*', '/'] <+: c :: cs ↔ c = '*' ∧ cs.head? = some '/' := by
    rw [List.cons_prefix_cons, eq_comm]
    cases cs <;> simp [eq_comm]
  rw [Ends, List.infix_cons_iff, hp, Ends]

@[simp] theorem not_ends_nil : ¬ Ends [] := by simp [Ends]

theorem not_ends_of_infix {cs ds : List Char} (h : ¬ Ends ds) (hi : cs <:+: ds) : ¬ Ends cs :=
  fun he => h (he.trans hi)

theorem not_ends_of_not_mem {cs : List Char} (h : '/' ∉ cs) : ¬ Ends cs :=
  fun he => h (he.subset (by simp))

/-- What is neither a star nor a slash parts a text for good. -/
theorem ends_append_cons {c : Char} (hs : c ≠ '*') (hl : c ≠ '/') {cs ds : List Char} :
    Ends (cs ++ c :: ds) ↔ Ends cs ∨ Ends ds := by
  induction cs with
  | nil => simp [ends_cons, hs]
  | cons d cs ih =>
    rw [List.cons_append, ends_cons, ih, ends_cons, or_assoc]
    cases cs <;> simp [hl]

theorem ends_append_of_forall {cs ds : List Char} (h : ∀ c ∈ cs, c ≠ '*') :
    Ends (cs ++ ds) ↔ Ends ds := by
  induction cs with
  | nil => rfl
  | cons c cs ih =>
    rw [List.cons_append, ends_cons, ih fun c hc => h c (List.mem_cons_of_mem _ hc)]
    simp [h c List.mem_cons_self]

theorem head?_protect (cs : List Char) : (Language.protect cs).head? = cs.head? := by
  fun_cases Language.protect cs <;> rfl

theorem not_ends_protect (cs : List Char) : ¬ Ends (Language.protect cs) := by
  fun_induction Language.protect cs with
  | case1 cs ih => simpa [ends_cons] using ih
  | case2 c cs hne ih =>
    rw [ends_cons, head?_protect, not_or]
    refine ⟨?_, ih⟩
    rintro ⟨rfl, h⟩
    obtain ⟨ds, rfl⟩ := List.head?_eq_some_iff.1 h
    exact hne ds rfl rfl
  | case3 => simp

theorem protect_eq_self {cs : List Char} (h : ¬ Ends cs) : Language.protect cs = cs := by
  fun_induction Language.protect cs with
  | case1 cs ih => exact absurd ⟨[], cs, rfl⟩ h
  | case2 c cs hne ih => rw [ih fun he => h (ends_cons.2 (.inr he))]
  | case3 => rfl

/-! ### Lines of words -/

/-- A property of words that lines of them have, too. -/
structure Joins (P : String → Prop) : Prop where
  join : ∀ s t, P s → P t → P (s ++ " " ++ t)

theorem fillFrom_forall {P : String → Prop} (hP : Joins P) {w : Width} {words : List String}
    (hw : ∀ word ∈ words, P word) {current : String} (hc : current = "" ∨ P current) :
    ∀ line ∈ fillFrom w current words, P line := by
  induction words generalizing current with
  | nil =>
    intro line hl
    simp only [fillFrom] at hl
    split at hl
    · simp at hl
    · next hne =>
      obtain rfl := List.mem_singleton.1 hl
      exact hc.resolve_left hne
  | cons word words ih =>
    have hword := hw word List.mem_cons_self
    have hwords : ∀ v ∈ words, P v := fun v hv => hw v (List.mem_cons_of_mem _ hv)
    intro line hl
    simp only [fillFrom] at hl
    split at hl
    · exact ih hwords (.inr hword) line hl
    · next hne =>
      have hcur := hc.resolve_left hne
      split at hl
      · exact ih hwords (.inr (hP.join _ _ hcur hword)) line hl
      · rcases List.mem_cons.1 hl with rfl | hl
        · exact hcur
        · exact ih hwords (.inr hword) line hl

theorem lineBody_isInfix (marker line : String) :
    (lineBody marker line).toList <:+: line.toList := by
  simp only [lineBody]
  split
  · next rest h =>
    rw [String.toList_ofList]
    exact (trimChars_isInfix rest).trans
      ((after?_suffix h).isInfix.trans (trimChars_isInfix line.toList))
  · rw [String.toList_ofList]
    exact trimChars_isInfix line.toList

theorem mem_paragraphs {marker text : String} {paragraph : List String} {word : String}
    (hp : paragraph ∈ paragraphs marker text) (hw : word ∈ paragraph) :
    word.toList <:+: text.toList ∧ ∀ c ∈ word.toList, isSpace c = false := by
  obtain ⟨hp, -⟩ := List.mem_filter.1 hp
  obtain ⟨part, hpart, rfl⟩ := List.mem_map.1 hp
  obtain ⟨ws, hws, hword⟩ := List.mem_flatten.1 hw
  obtain ⟨line, hline, rfl⟩ := List.mem_map.1 ((infix_of_mem_splitOnP hpart).subset hws)
  obtain ⟨-, hin, hspace⟩ := mem_words hword
  refine ⟨hin.trans ((lineBody_isInfix marker line).trans (infix_of_mem_lines hline)), hspace⟩

/-- A line of a layout stands between two paragraphs, or it has words of one of them. -/
theorem mem_layout {lead : String} {w : Width} {ps : List (List String)} {line : String}
    {P : String → Prop} (hP : Joins P) (hps : ∀ p ∈ ps, ∀ word ∈ p, P word)
    (h : line ∈ layout lead w ps) : line = trimEnd lead ∨ ∃ body, P body ∧ line = lead ++ body := by
  rcases mem_intercalate h with h | ⟨ls, hls, h⟩
  · exact .inl (List.mem_singleton.1 h)
  · obtain ⟨p, hp, rfl⟩ := List.mem_map.1 hls
    obtain ⟨body, hbody, rfl⟩ := List.mem_map.1 h
    exact .inr ⟨body, fillFrom_forall hP (hps p hp) (.inl rfl) body hbody, rfl⟩

def Unbroken (s : String) : Prop := '\n' ∉ s.toList ∧ '\r' ∉ s.toList

instance (s : String) : Decidable (Unbroken s) :=
  inferInstanceAs (Decidable ('\n' ∉ s.toList ∧ '\r' ∉ s.toList))

theorem joins_unbroken : Joins Unbroken where
  join s t hs ht := by simp [Unbroken, hs.1, hs.2, ht.1, ht.2]

theorem joins_not_ends : Joins fun s => ¬ Ends s.toList where
  join s t hs ht := by
    have h : (s ++ " " ++ t).toList = s.toList ++ ' ' :: t.toList := by simp
    rw [h, ends_append_cons (by decide) (by decide), not_or]
    exact ⟨hs, ht⟩

theorem unbroken_of_forall {s : String} (h : ∀ c ∈ s.toList, isSpace c = false) : Unbroken s :=
  ⟨fun hm => absurd (h _ hm) (by decide), fun hm => absurd (h _ hm) (by decide)⟩

theorem unbroken_of_mem_paragraphs {marker text : String} :
    ∀ p ∈ paragraphs marker text, ∀ word ∈ p, Unbroken word :=
  fun _ hp _ hw => unbroken_of_forall (mem_paragraphs hp hw).2

theorem not_ends_of_mem_paragraphs {marker text : String} (h : ¬ Ends text.toList) :
    ∀ p ∈ paragraphs marker text, ∀ word ∈ p, ¬ Ends word.toList :=
  fun _ hp _ hw => not_ends_of_infix h (mem_paragraphs hp hw).1

/-- Lines one below the other end a comment if and only if one of them does. -/
theorem ends_lines_iff {first : List Char} {rest : List String} :
    Ends (first ++ rest.flatMap fun l => '\n' :: l.toList) ↔
      Ends first ∨ ∃ l ∈ rest, Ends l.toList := by
  induction rest generalizing first with
  | nil => simp
  | cons l rest ih =>
    rw [List.flatMap_cons, ← List.append_assoc, ih, ends_append_cons (by decide) (by decide)]
    simp [or_assoc]

theorem not_ends_lines {first : List Char} {rest : List String} (hf : ¬ Ends first)
    (hr : ∀ l ∈ rest, ¬ Ends l.toList) :
    ¬ Ends (first ++ rest.flatMap fun l => '\n' :: l.toList) := by
  rw [ends_lines_iff, not_or]
  refine ⟨hf, ?_⟩
  rintro ⟨l, hl, he⟩
  exact hr l hl he

/-! ### Comments -/

/-- The text is a block comment that ends where the text ends. -/
def Enclosed (text : String) : Prop :=
  (∃ body, text.toList = "/**".toList ++ body ++ "*/".toList) ∧
    ∀ before after, text.toList = before ++ '*' :: '/' :: after → after = []

/-- The text is whole lines that each start with a hash; the lines below the first one stand behind
the indent. -/
def Hashed (indent text : String) : Prop :=
  '\r' ∉ text.toList ∧ (text = "" ∨ ∃ first rest,
    lines text = first :: rest.map (indent ++ ·) ∧
      ∀ line ∈ first :: rest, line.toList.head? = some '#')

/-- Behind a blank, the end of a comment is the only one if and only if there is none before. -/
theorem endsOnce_iff {front : List Char} :
    (∀ before after, front ++ [' ', '*', '/'] = before ++ '*' :: '/' :: after → after = []) ↔
      ¬ Ends front := by
  constructor
  · rintro h ⟨before, after, rfl⟩
    have hafter := h before (after ++ [' ', '*', '/']) (by simp)
    simp at hafter
  · intro hf before after h
    rcases List.eq_nil_or_concat after with rfl | ⟨more, c, rfl⟩
    · rfl
    · have hlast : (front ++ ' ' :: ['*']) ++ ['/'] = (before ++ '*' :: '/' :: more) ++ [c] := by
        simpa using h
      obtain ⟨heq, -⟩ := List.append_inj' hlast rfl
      have he : Ends (front ++ ' ' :: ['*']) := by
        rw [heq]
        exact ⟨before, more, by simp⟩
      rw [ends_append_cons (by decide) (by decide)] at he
      exact absurd he (by simp [hf, ends_cons])

section Star

variable {style : Style} {opening indent : String} {body : List String}

theorem ends_starLine_iff (hp : style.linePrefix = " * ") (hi : Indents indent) {line : String} :
    Ends (indent ++ style.line line).toList ↔ Ends line.toList := by
  rw [String.toList_append, ends_append_of_forall (hi.ne (by decide))]
  by_cases h : line = ""
  · have hline : (style.line line).toList = [' ', '*'] := by
      rw [Style.line, if_pos h, hp]
      rfl
    rw [hline, h]
    simp [ends_cons]
  · have hline : (style.line line).toList = [' ', '*'] ++ ' ' :: line.toList := by
      rw [Style.line, if_neg h, hp]
      simp
    rw [hline, ends_append_cons (by decide) (by decide)]
    simp [ends_cons]

/-- What stands in a comment in stars before its end. -/
def starFront (style : Style) (opening indent : String) (body : List String) : List Char :=
  opening.toList ++ ((body.map fun line => indent ++ style.line line).flatMap
    fun l => '\n' :: l.toList) ++ '\n' :: indent.toList

/-- A comment in stars is its first line, its body, and the line that ends it. -/
theorem toList_starComment (ho : style.opening = some opening) (hc : style.closing = some " */")
    (indent : String) (body : List String) :
    (style.comment indent body).toList =
      starFront style opening indent body ++ [' ', '*', '/'] := by
  have hcomment : style.comment indent body =
      unlines (opening :: ((body.map fun line => indent ++ style.line line) ++
        [indent ++ " */"])) := by
    simp [Style.comment, ho, hc, Function.comp_def]
  rw [hcomment, toList_unlines_cons, List.flatMap_append]
  simp [starFront]

theorem exists_starInside (style : Style) (opening indent : String) (body : List String) :
    ∃ inside, starFront style opening indent body ++ [' ', '*', '/'] =
      opening.toList ++ inside ++ "*/".toList := by
  refine ⟨((body.map fun line => indent ++ style.line line).flatMap fun l => '\n' :: l.toList) ++
    '\n' :: indent.toList ++ [' '], ?_⟩
  simp [starFront]

theorem ends_starFront_iff (hp : style.linePrefix = " * ") (hi : Indents indent)
    (ho : ¬ Ends opening.toList) :
    Ends (starFront style opening indent body) ↔ ∃ line ∈ body, Ends line.toList := by
  have hindent : ¬ Ends indent.toList :=
    not_ends_of_not_mem fun h => hi.ne (by decide) '/' h rfl
  rw [starFront, ends_append_cons (by decide) (by decide), ends_lines_iff]
  simp only [ho, hindent, List.mem_map, exists_exists_and_eq_and, ends_starLine_iff hp hi, false_or,
    or_false]

end Star

theorem enclosed_starComment {indent : String} (hi : Indents indent) {body : List String}
    (hb : ∀ line ∈ body, ¬ Ends line.toList) : Enclosed (Language.starDoc.comment indent body) := by
  have htext : (Language.starDoc.comment indent body).toList =
      starFront Language.starDoc "/**" indent body ++ [' ', '*', '/'] :=
    toList_starComment rfl rfl indent body
  have hfront : ¬ Ends (starFront Language.starDoc "/**" indent body) := by
    rw [ends_starFront_iff rfl hi (by simp [ends_cons])]
    rintro ⟨line, hline, he⟩
    exact hb line hline he
  rw [Enclosed, htext]
  exact ⟨exists_starInside Language.starDoc "/**" indent body, endsOnce_iff.2 hfront⟩

theorem toList_hashLine (body : String) :
    ∃ blank, (Language.hash.line body).toList = '#' :: (blank ++ body.toList) ∧
      blank ⊆ [' '] := by
  by_cases h : body = ""
  · rw [Style.line, if_pos h, h]
    exact ⟨[], rfl, List.nil_subset _⟩
  · rw [Style.line, if_neg h]
    exact ⟨[' '], by simp [Language.hash], List.Subset.refl _⟩

theorem head?_hashLine (body : String) : (Language.hash.line body).toList.head? = some '#' := by
  obtain ⟨blank, hline, -⟩ := toList_hashLine body
  rw [hline, List.head?_cons]

theorem mem_hashLine_iff {c : Char} (hsign : c ≠ '#') (hblank : c ≠ ' ') {body : String} :
    c ∈ (Language.hash.line body).toList ↔ c ∈ body.toList := by
  obtain ⟨blank, hline, hsub⟩ := toList_hashLine body
  have hnot : c ∉ blank := fun h => hblank (List.mem_singleton.1 (hsub h))
  simp [hline, hsign, hnot]

theorem unbroken_hashLine {body : String} (hb : Unbroken body) :
    Unbroken (Language.hash.line body) :=
  ⟨fun h => hb.1 ((mem_hashLine_iff (by decide) (by decide)).1 h),
    fun h => hb.2 ((mem_hashLine_iff (by decide) (by decide)).1 h)⟩

/-- A comment of hashes has the lines of its body, each behind a hash. -/
theorem hashed_comment {indent : String} (hi : Indents indent) {body : List String}
    (hb : ∀ line ∈ body, Unbroken line) : Hashed indent (Language.hash.comment indent body) := by
  cases body with
  | nil =>
    have hempty : Language.hash.comment indent [] = "" := by simp [Style.comment, Language.hash]
    exact ⟨by simp [hempty], .inl hempty⟩
  | cons line body =>
    have hline := unbroken_hashLine (hb line List.mem_cons_self)
    have hrest : ∀ l ∈ body.map Language.hash.line, l.toList.head? = some '#' ∧ Unbroken l := by
      intro l hl
      obtain ⟨b, hm, rfl⟩ := List.mem_map.1 hl
      exact ⟨head?_hashLine b, unbroken_hashLine (hb b (List.mem_cons_of_mem _ hm))⟩
    have hbehind : ∀ l ∈ (body.map Language.hash.line).map (indent ++ ·), Unbroken l := by
      intro l hl
      obtain ⟨b, hm, rfl⟩ := List.mem_map.1 hl
      have hn : '\n' ∉ indent.toList := fun h => hi.ne (by decide) _ h rfl
      have hr : '\r' ∉ indent.toList := fun h => hi.ne (by decide) _ h rfl
      exact ⟨by simpa using ⟨hn, (hrest b hm).2.1⟩, by simpa using ⟨hr, (hrest b hm).2.2⟩⟩
    have hcomment : Language.hash.comment indent (line :: body) =
        unlines (Language.hash.line line ::
          (body.map Language.hash.line).map (indent ++ ·)) := by
      simp [Style.comment, Language.hash]
    have hall : ∀ l ∈ Language.hash.line line :: (body.map Language.hash.line).map (indent ++ ·),
        Unbroken l := by
      intro l hl
      rcases List.mem_cons.1 hl with rfl | hl
      · exact hline
      · exact hbehind l hl
    rw [hcomment]
    refine ⟨?_, .inr ⟨Language.hash.line line, body.map Language.hash.line, ?_, ?_⟩⟩
    · rw [toList_unlines_cons, List.mem_append, List.mem_flatMap, not_or]
      refine ⟨hline.2, ?_⟩
      rintro ⟨l, hl, hm⟩
      exact (hbehind l hl).2 ((List.mem_cons.1 hm).resolve_left (by decide))
    · exact lines_unlines (List.cons_ne_nil _ _) fun l hl => (hall l hl).1
    · intro l hl
      rcases List.mem_cons.1 hl with rfl | hl
      · exact head?_hashLine line
      · exact (hrest l hl).1

/-! ### Texts as comments -/

theorem mem_documentLines {w : Width} {text line : String} {P : String → Prop} (hP : Joins P)
    (he : P "") (hps : ∀ p ∈ paragraphs "" text, ∀ word ∈ p, P word)
    (h : line ∈ layout "" w (paragraphs "" text)) : P line := by
  rcases mem_layout hP hps h with rfl | ⟨body, hbody, rfl⟩
  · exact he
  · rwa [String.empty_append]

theorem enclosed_document {indent : String} (hi : Indents indent) (w : Width) {text : String}
    (ht : ¬ Ends text.toList) : Enclosed (Language.starDoc.document indent w text) := by
  rw [Style.document]
  refine enclosed_starComment hi fun line hl => ?_
  exact mem_documentLines joins_not_ends not_ends_nil (not_ends_of_mem_paragraphs ht) hl

theorem hashed_document {indent : String} (hi : Indents indent) (w : Width) (text : String) :
    Hashed indent (Language.hash.document indent w text) := by
  rw [Style.document]
  refine hashed_comment hi fun line hl => ?_
  exact mem_documentLines joins_unbroken ⟨by decide, by decide⟩ unbroken_of_mem_paragraphs hl

/-- What leads the lines has no slash, and it parts its star from the words. -/
theorem leadOf_star (firstLine : String) :
    ∃ front, (leadOf " * " firstLine).toList = front ++ [' '] ∧ '/' ∉ front := by
  have hindent : '/' ∉ firstLine.toList.takeWhile isIndent := fun h =>
    absurd (List.mem_takeWhile_imp h) (by decide)
  have hmarker : trimChars " * ".toList = ['*'] := by decide
  simp only [leadOf, hmarker]
  split
  · exact ⟨_, String.toList_ofList, by simp [hindent]⟩
  · exact ⟨firstLine.toList.takeWhile isIndent ++ [' ', '*'], by simp, by simp [hindent]⟩

theorem not_ends_leadOf {firstLine body : String} (hb : ¬ Ends body.toList) :
    ¬ Ends (leadOf " * " firstLine ++ body).toList := by
  obtain ⟨front, hlead, hfront⟩ := leadOf_star firstLine
  have hline : (leadOf " * " firstLine ++ body).toList = front ++ ' ' :: body.toList := by
    simp [hlead]
  rw [hline, ends_append_cons (by decide) (by decide), not_or]
  exact ⟨not_ends_of_not_mem hfront, hb⟩

theorem not_ends_trimEnd_leadOf (firstLine : String) :
    ¬ Ends (trimEnd (leadOf " * " firstLine)).toList := by
  have h : ¬ Ends (leadOf " * " firstLine ++ "").toList := not_ends_leadOf not_ends_nil
  rw [String.append_empty] at h
  exact not_ends_of_infix h (toList_trimEnd_isPrefix _).isInfix

/-- A text laid out behind stars ends a comment only if it did before. -/
theorem not_ends_reflow (w : Width) {text : String} (ht : ¬ Ends text.toList) :
    ¬ Ends (reflow " * " w text).toList := by
  simp only [reflow]
  split
  · exact not_ends_nil
  · next firstLine _ =>
    split
    · exact not_ends_nil
    · have hbody : ¬ Ends (unlines
          (layout (leadOf " * " firstLine) w (paragraphs (trim " * ") text))).toList := by
        have hline : ∀ line ∈ layout (leadOf " * " firstLine) w (paragraphs (trim " * ") text),
            ¬ Ends line.toList := by
          intro line hl
          rcases mem_layout joins_not_ends (not_ends_of_mem_paragraphs ht) hl with
            rfl | ⟨body, hb, rfl⟩
          · exact not_ends_trimEnd_leadOf firstLine
          · exact not_ends_leadOf hb
        cases hlines : layout (leadOf " * " firstLine) w (paragraphs (trim " * ") text) with
        | nil => exact not_ends_nil
        | cons first rest =>
          rw [hlines] at hline
          rw [toList_unlines_cons]
          exact not_ends_lines (hline first List.mem_cons_self) fun l hl =>
            hline l (List.mem_cons_of_mem _ hl)
      split
      · rw [String.toList_push, ends_append_cons (by decide) (by decide), not_or]
        exact ⟨hbody, not_ends_nil⟩
      · exact hbody

end Comment
end CodeTemplate

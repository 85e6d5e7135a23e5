import Mathlib.Data.List.DropRight
import CodeTemplate.Proofs.Markup.Cutting

/-! Places in template text. A location counts the lines before it and what stands before it on its
own line, and so do cursors. The pieces of a text start where their characters do; a text that
cannot be cut has its fault where something starts that does not end. -/

namespace CodeTemplate

open Outline

/-- The location of what follows a text. -/
def Location.after (before : List Char) : Location :=
  ⟨before.count '\n' + 1, Text.unitsOf (before.rtakeWhile (· != '\n')) + 1⟩

/-- The location is that of a place in the text from which on the text has the property. -/
def Location.Marks (l : Location) (cs : List Char) (P : List Char → Prop) : Prop :=
  ∃ before rest, cs = before ++ rest ∧ l = .after before ∧ P rest

theorem Location.Marks.mono {l : Location} {cs : List Char} {P Q : List Char → Prop}
    (h : l.Marks cs P) (hpq : ∀ rest, P rest → Q rest) : l.Marks cs Q := by
  obtain ⟨before, rest, hcs, hl, hp⟩ := h
  exact ⟨before, rest, hcs, hl, hpq rest hp⟩

theorem Location.Marks.line_pos {l : Location} {cs : List Char} {P : List Char → Prop}
    (h : l.Marks cs P) : 1 ≤ l.line ∧ 1 ≤ l.column := by
  obtain ⟨before, rest, -, rfl, -⟩ := h
  exact ⟨Nat.le_add_left 1 _, Nat.le_add_left 1 _⟩

/-- The place reached from the start of a text. -/
def Cursor.behind (before : List Char) : Cursor := Cursor.past {} before

theorem Cursor.behind_append (before cs : List Char) :
    behind (before ++ cs) = (behind before).past cs :=
  past_append _ _ _

theorem Cursor.location_behind (before : List Char) :
    (behind before).location = .after before := by
  induction before using List.reverseRecOn with
  | nil => rfl
  | append_singleton before c ih =>
    have hstep : behind (before ++ [c]) = (behind before).advance c := behind_append before [c]
    rw [hstep, advance]
    by_cases hc : c = '\n'
    · simp [hc, ih, Location.after, Text.unitsOf]
    · simp [hc, ih, Location.after, Text.unitsOf]
      omega

/-- What the characters of a piece of the kind start with. -/
def PieceKind.Heads : PieceKind → List Char → Prop
  | .blockOpen _, cs => ['\x7b', '%'] <+: cs
  | .blockClose skips, cs => cs = dashes skips ++ ['%', '\x7d']
  | .varOpen, cs => cs = ['\x7b', '\x7b']
  | .varClose, cs => cs = ['\x7d', '\x7d']
  | .string _, cs => ∃ quote ds, cs = quote :: ds ∧ (quote = '"' ∨ quote = '\'')
  | _, _ => True

/-- What a fault of a text that cannot be cut is found at: a comment, a region, a tag or a string
that is not closed, or a character that cannot stand in a tag. -/
inductive ScanFault.Heads : ScanFault → List Char → Prop
  | comment {cs : List Char} :
      ¬ ['#', '\x7d'] <:+: cs → Heads .unclosedComment ('\x7b' :: '#' :: cs)
  | region {strips skips : Bool} {tag cs : List Char} :
      IsBare "comment".toList strips skips tag →
      (∀ s t close, IsBare "endcomment".toList s t close → ¬ close <:+: cs) →
      Heads .unclosedCommentBlock (tag ++ cs)
  | tag {strips : Bool} {inside : List Char} :
      Inside inside → Heads .unclosedTag ('\x7b' :: '%' :: (dashes strips ++ inside))
  | variable {inside : List Char} :
      Inside inside → Heads .unclosedVariable ('\x7b' :: '\x7b' :: inside)
  | string {quote : Char} {cs : List Char} :
      quote = '"' ∨ quote = '\'' → (∀ body, Quoted quote body → body <+: cs → '\n' ∈ body) →
      Heads .unterminatedString (quote :: cs)
  | unexpected {c : Char} {cs : List Char} : Heads (.unexpected c) (c :: cs)

namespace Piece

/-! ### One piece -/

/-- What the next piece can be, by the mode. -/
inductive Next (mode : Mode) (start : Cursor) (c : Char) (cs : List Char) :
    PieceKind → Nat → Prop
  | text {n : Nat} : mode = .text → Next mode start c cs .text n
  | opened {kind : PieceKind} {n : Nat} :
      mode = .text → c = '\x7b' → Opened cs n kind → Next mode start c cs kind n
  | closed {kind : PieceKind} {n : Nat} :
      ClosedBy mode ⟨kind, c :: cs.take n, start⟩ → mode.after start.location kind = .text →
      Next mode start c cs kind n
  | inner {kind : PieceKind} {n : Nat} :
      mode ≠ .text → Piece.inner c cs = .ok (kind, n) → Next mode start c cs kind n

/-- In a tag comes its closing delimiter, or else what stands in tags. -/
theorem next_of_ne_text {mode : Mode} (hm : mode ≠ .text) (c : Char) (cs : List Char) :
    next mode c cs =
      match closing? mode (c :: cs) with
      | some piece => .ok piece
      | none => inner c cs := by
  cases mode with
  | text => exact absurd rfl hm
  | block opened => rfl
  | «variable» opened => rfl

theorem next_of_ok {mode : Mode} (start : Cursor) {c : Char} {cs : List Char} {kind : PieceKind}
    {n : Nat} (h : next mode c cs = .ok (kind, n)) : Next mode start c cs kind n := by
  by_cases hm : mode = .text
  · subst hm
    simp only [next] at h
    split at h
    · next ho =>
      obtain rfl := exists_brace ho
      exact .opened rfl rfl (opened_of_opening ho h)
    · obtain ⟨rfl, -⟩ := Prod.mk.inj (Except.ok.inj h)
      exact .text rfl
  · rw [next_of_ne_text hm] at h
    split at h
    · next piece hc =>
      obtain rfl := Except.ok.inj h
      obtain ⟨hclosed, htext⟩ := closing?_sound start hc
      exact .closed hclosed htext
    · exact .inner hm h

/-- Text is cut where no tag is open. -/
theorem mode_of_text {mode : Mode} {c : Char} {cs : List Char} {n : Nat}
    (h : next mode c cs = .ok (.text, n)) : mode = .text := by
  cases next_of_ok {} h with
  | text hm => exact hm
  | opened hm => exact hm
  | closed hc =>
    cases hc with
    | block hk => exact absurd hk (by simp)
    | «variable» hk => exact absurd hk (by simp)
  | inner _ hi => exact absurd (inner_sound hi).1 (by simp [isInner])

theorem inner_heads {c : Char} {cs : List Char} {kind : PieceKind} {n : Nat}
    (h : inner c cs = .ok (kind, n)) : kind.Heads (c :: cs.take n) := by
  simp only [inner] at h
  split at h
  · obtain ⟨rfl, rfl⟩ := Prod.mk.inj (Except.ok.inj h)
    trivial
  iterate 4
    split at h
    · obtain ⟨rfl, rfl⟩ := Prod.mk.inj (Except.ok.inj h)
      trivial
  split at h
  · next hc =>
    split at h
    · obtain ⟨rfl, rfl⟩ := Prod.mk.inj (Except.ok.inj h)
      exact ⟨c, _, rfl, hc⟩
    · simp at h
  · split at h
    · obtain ⟨rfl, rfl⟩ := Prod.mk.inj (Except.ok.inj h)
      trivial
    · simp at h

theorem Next.heads {mode : Mode} {start : Cursor} {c : Char} {cs : List Char} {kind : PieceKind}
    {n : Nat} (h : Next mode start c cs kind n) : kind.Heads (c :: cs.take n) := by
  cases h with
  | text => trivial
  | opened _ hc ho =>
    subst hc
    cases ho with
    | comment => trivial
    | «variable» htake => simp [PieceKind.Heads, htake]
    | block htake => simp [PieceKind.Heads, htake]
  | closed hc =>
    cases hc with
    | block hk hchars =>
      obtain rfl : kind = _ := hk
      exact hchars
    | «variable» hk hchars =>
      obtain rfl : kind = _ := hk
      exact hchars
  | inner _ hi => exact inner_heads hi

/-! ### All pieces -/

/-- The piece stands in the text where its cursor is. -/
def Stands (cs : List Char) (p : Piece) : Prop :=
  p.kind.Heads p.chars ∧
    ∃ before rest, cs = before ++ (p.chars ++ rest) ∧ p.start = .behind before

theorem Cuts.stands {mode : Mode} {before cs : List Char} {ps : List Piece}
    (h : Cuts mode (.behind before) cs ps) : ∀ p ∈ ps, Stands (before ++ cs) p := by
  generalize hs : Cursor.behind before = start at h
  induction h generalizing before with
  | nil => simp
  | @cons mode start c cs kind n ps hn _ ih =>
    subst hs
    rw [List.forall_mem_cons]
    refine ⟨⟨(next_of_ok (.behind before) hn).heads, before, cs.drop n, ?_, rfl⟩, ?_⟩
    · rw [List.cons_append, List.take_append_drop]
    · have hrest := ih (Cursor.behind_append before (c :: cs.take n))
      rwa [List.append_assoc, List.cons_append, List.take_append_drop] at hrest

/-! ### Faults -/

theorem through?_eq_none {close cs : List Char} (hc : close ≠ []) (h : through? close cs = none) :
    ¬ close <:+: cs := by
  induction cs with
  | nil => simpa using hc
  | cons c cs ih =>
    simp only [through?] at h
    split at h
    · simp at h
    · next hp =>
      rw [List.infix_cons_iff, not_or]
      exact ⟨fun hpre => hp (List.isPrefixOf_iff_prefix.2 hpre), ih (Option.map_eq_none_iff.1 h)⟩

theorem endComment?_eq_none {cs : List Char} (h : endComment? cs = none) {s t : Bool}
    {close : List Char} (hc : IsBare "endcomment".toList s t close) : ¬ close <:+: cs := by
  induction cs with
  | nil =>
    obtain ⟨_, _, -, rfl⟩ := hc
    simp [tagChars]
  | cons c cs ih =>
    simp only [endComment?, Option.or_eq_none_iff, Option.map_eq_none_iff] at h
    rw [List.infix_cons_iff, not_or]
    refine ⟨fun hpre => ?_, ih h.2⟩
    obtain ⟨inner, n, hopen, hn⟩ := exists_endTag hc hpre
    simp only [hopen, Option.bind_eq_bind, Option.bind_some, hn] at h
    exact absurd h.1 (Option.some_ne_none _)

theorem stringTail?_of_quoted {quote : Char} (hq : quote ≠ '\\') {body : List Char}
    (h : Quoted quote body) (hn : '\n' ∉ body) (rest : List Char) :
    ∃ r, stringTail? quote (body ++ rest) = some r := by
  induction h with
  | close =>
    have hne : quote ≠ '\n' := fun he => hn (by simp [he])
    exact ⟨([], 1), by unfold stringTail?; simp [hne]⟩
  | @plain c cs hquote hslash _ ih =>
    rw [List.mem_cons, not_or] at hn
    obtain ⟨r, hr⟩ := ih hn.2
    exact ⟨_, by unfold stringTail?; simp [hquote, hslash, Ne.symm hn.1, hr]; rfl⟩
  | @escape c cs _ ih =>
    rw [List.mem_cons, List.mem_cons, not_or, not_or] at hn
    obtain ⟨r, hr⟩ := ih hn.2.2
    exact ⟨_, by unfold stringTail?; simp [Ne.symm hq, hr]; rfl⟩

theorem opening_fault {cs : List Char} {f : ScanFault} (ho : opens ('\x7b' :: cs) = true)
    (h : opening cs = .error f) : f.Heads ('\x7b' :: cs) := by
  unfold opening at h
  split at h
  · split at h
    · simp at h
    · next hn =>
      obtain rfl := Except.error.inj h
      exact .comment (through?_eq_none (by simp) hn)
  · simp at h
  · next hc hv =>
    obtain ⟨inner, rfl⟩ := exists_percent ho hc hv
    simp only [List.drop_succ_cons, List.drop_zero] at h
    split at h
    · next t k hk =>
      split at h
      · simp at h
      · next hm =>
        obtain rfl := Except.error.inj h
        obtain ⟨tag, rest, rfl, rfl, htag⟩ := bareTag?_sound hk
        rw [List.drop_left] at hm
        exact .region htag fun s t close hclose => endComment?_eq_none hm hclose
    · simp at h

theorem inner_fault {c : Char} {cs : List Char} {f : ScanFault} (h : inner c cs = .error f) :
    f.Heads (c :: cs) := by
  simp only [inner] at h
  iterate 5
    split at h
    · simp at h
  split at h
  · next hc =>
    split at h
    · simp at h
    · next hn =>
      obtain rfl := Except.error.inj h
      have hslash : c ≠ '\\' := by
        rintro rfl
        exact absurd hc (by decide)
      refine .string hc fun body hbody hpre => ?_
      by_contra hline
      obtain ⟨rest, rfl⟩ := hpre
      obtain ⟨r, hr⟩ := stringTail?_of_quoted hslash hbody hline rest
      simp [hr] at hn
  · split at h
    · simp at h
    · obtain rfl := Except.error.inj h
      exact .unexpected

/-- What is before a place in a text: if the place is in a tag, the tag as far as it goes. -/
inductive Open : Mode → List Char → Prop
  | text {before : List Char} : Open .text before
  | block {outside inside : List Char} {strips : Bool} :
      (∀ ds, Inside ds → Inside (inside ++ ds)) →
      Open (.block (.after outside)) (outside ++ '\x7b' :: '%' :: (dashes strips ++ inside))
  | variable {outside inside : List Char} :
      (∀ ds, Inside ds → Inside (inside ++ ds)) →
      Open (.variable (.after outside)) (outside ++ '\x7b' :: '\x7b' :: inside)

theorem Open.next {mode : Mode} {before : List Char} {c : Char} {cs : List Char}
    {kind : PieceKind} {n : Nat} (h : Open mode before)
    (hn : Next mode (.behind before) c cs kind n) :
    Open (mode.after (.after before) kind) (before ++ c :: cs.take n) := by
  cases hn with
  | text hm =>
    subst hm
    exact .text
  | opened hm hc ho =>
    subst hm hc
    cases ho with
    | comment => exact .text
    | «variable» htake =>
      rw [htake]
      exact .variable fun _ hd => hd
    | @block strips htake =>
      have hopen : Open (.block (.after before))
          (before ++ '\x7b' :: '%' :: (dashes strips ++ [])) := .block fun _ hd => hd
      rw [List.append_nil] at hopen
      rwa [htake]
  | closed _ htext =>
    rw [Cursor.location_behind] at htext
    rw [htext]
    exact .text
  | inner hm hi =>
    obtain ⟨hkind, hinside⟩ := inner_sound hi
    rw [after_inner hkind]
    cases h with
    | text => exact absurd rfl hm
    | @block outside inside strips hin =>
      have hopen : Open (.block (.after outside)) (outside ++ '\x7b' :: '%' ::
          (dashes strips ++ (inside ++ c :: cs.take n))) :=
        .block fun ds hd => by simpa using hin _ (hinside ds hd)
      simpa using hopen
    | @«variable» outside inside hin =>
      have hopen : Open (.variable (.after outside)) (outside ++ '\x7b' :: '\x7b' ::
          (inside ++ c :: cs.take n)) :=
        .variable fun ds hd => by simpa using hin _ (hinside ds hd)
      simpa using hopen

theorem next_fault {mode : Mode} {c : Char} {cs : List Char} {f : ScanFault}
    (h : next mode c cs = .error f) : f.Heads (c :: cs) := by
  by_cases hm : mode = .text
  · subst hm
    simp only [next] at h
    split at h
    · next ho =>
      obtain rfl := exists_brace ho
      exact opening_fault ho h
    · simp at h
  · rw [next_of_ne_text hm] at h
    split at h
    · simp at h
    · exact inner_fault h

/-- A fault is where a piece cannot be made, or where the tag starts that the text ends in. -/
theorem cut_fault {mode : Mode} {before cs : List Char} {l : Located ScanFault}
    (hm : Open mode before) (h : cut mode (.behind before) cs = .error l) :
    l.location.Marks (before ++ cs) l.fault.Heads := by
  generalize hs : Cursor.behind before = start at h
  fun_induction cut mode start cs generalizing before with
  | case1 => simp at h
  | case2 _ opened =>
    obtain rfl := Except.error.inj h
    cases hm with
    | @block outside inside strips hin =>
      refine ⟨outside, _, List.append_nil _, rfl, .tag ?_⟩
      simpa using hin [] .nil
  | case3 _ opened =>
    obtain rfl := Except.error.inj h
    cases hm with
    | @«variable» outside inside hin =>
      refine ⟨outside, _, List.append_nil _, rfl, .variable ?_⟩
      simpa using hin [] .nil
  | case4 mode start c cs f hn =>
    obtain rfl := Except.error.inj h
    subst hs
    exact ⟨before, c :: cs, rfl, Cursor.location_behind before, next_fault hn⟩
  | case5 mode start c cs kind n hn chars f hf =>
    next ih =>
      subst hs
      obtain rfl := Except.error.inj h
      have hopen := hm.next (next_of_ok (.behind before) hn)
      rw [← Cursor.location_behind] at hopen
      have hrest := ih hopen (Cursor.behind_append before (c :: cs.take n)) hf
      rwa [List.append_assoc, List.cons_append, List.take_append_drop] at hrest
  | case6 => simp at h

end Piece
end CodeTemplate

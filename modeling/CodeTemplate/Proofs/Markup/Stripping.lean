import CodeTemplate.Proofs.Markup.Joining

/-! What a tag or a region that strips takes from the tokens before it: the blanks that end the last
text before it. Comments may stand in between, and what other tags left nothing of. The blanks are
on the line of the tag if and only if no line breaks there. -/

namespace CodeTemplate

open Piece (Cuts Mode)
open Text (isIndent)

theorem Location.line_after_append (before cs : List Char) :
    (after (before ++ cs)).line = (after before).line + cs.count '\n' := by
  simp only [after, List.count_append]
  omega

/-! ### Pieces before a piece -/

namespace PieceKind

/-- The kind, with no dash that removes the blanks before the piece. -/
def unstripped : PieceKind → PieceKind
  | .comment _ trimAfter => .comment false trimAfter
  | .blockOpen _ => .blockOpen false
  | kind => kind

/-- Whether a piece of the kind is between tags. -/
def isBetween : PieceKind → Bool
  | .text | .comment .. => true
  | _ => false

end PieceKind

namespace Piece

variable {mode : Mode} {start : Cursor} {cs : List Char} {ps qs : List Piece}

/-- The text that the pieces are cut from. -/
def written (ps : List Piece) : List Char := ps.flatMap (·.chars)

@[simp] theorem written_nil : written [] = [] := rfl

@[simp] theorem written_cons (p : Piece) (ps : List Piece) :
    written (p :: ps) = p.chars ++ written ps := List.flatMap_cons

@[simp] theorem written_append (ps qs : List Piece) :
    written (ps ++ qs) = written ps ++ written qs := List.flatMap_append

theorem Cuts.written_eq (h : Cuts mode start cs ps) : written ps = cs := by
  induction h with
  | nil => rfl
  | cons _ _ ih => rw [written_cons, ih, List.cons_append, List.take_append_drop]

theorem Cuts.exists_suffix {init : List Piece} (h : Cuts mode start cs (init ++ qs)) :
    ∃ mid, Cuts mid (start.past (written init)) (written qs) qs := by
  induction init generalizing mode start cs with
  | nil => exact ⟨mode, h.written_eq.symm ▸ h⟩
  | cons p init ih =>
    cases h with
    | cons _ hps =>
      obtain ⟨mid, hmid⟩ := ih hps
      rw [← Cursor.past_append] at hmid
      exact ⟨mid, hmid⟩

theorem Cuts.start_eq {init : List Piece} {p : Piece} (h : Cuts mode start cs (init ++ p :: ps)) :
    p.start = start.past (written init) := by
  obtain ⟨_, hrest⟩ := h.exists_suffix
  generalize written (p :: ps) = rest at hrest
  cases hrest with
  | cons => rfl

/-- Pieces that make no token but text are between tags if they are not in a tag. -/
theorem Cuts.isBetween_of_text (h : Cuts .text start cs (ps ++ qs))
    (hps : ∀ p ∈ ps, Token.ofPiece? p = none) : ∀ p ∈ ps, p.kind.isBetween = true := by
  induction ps generalizing start cs with
  | nil => simp
  | cons p ps ih =>
    cases h with
    | @cons _ _ c cs kind n _ hn hqs =>
      obtain ⟨hp, hrest⟩ := List.forall_mem_cons.1 hps
      have hkind : kind.isBetween = true ∧ Mode.text.after start.location kind = .text := by
        cases next_of_ok start hn with
        | text => exact ⟨rfl, rfl⟩
        | opened _ _ ho =>
          cases ho with
          | comment => exact ⟨rfl, rfl⟩
          | «variable» | block => simp [Token.ofPiece?] at hp
        | closed hc => cases hc
        | inner hm => exact absurd rfl hm
      rw [hkind.2] at hqs
      exact List.forall_mem_cons.2 ⟨hkind.1, ih hqs hrest⟩

theorem Cuts.isBetween {p : Piece} (h : Cuts mode start cs (p :: (ps ++ qs))) (hp : p.kind = .text)
    (hps : ∀ p ∈ ps, Token.ofPiece? p = none) : ∀ p ∈ ps, p.kind.isBetween = true := by
  cases h with
  | cons hn hqs =>
    obtain rfl : _ = PieceKind.text := hp
    obtain rfl := mode_of_text hn
    exact hqs.isBetween_of_text hps

end Piece

namespace Token

open Piece (written written_append written_cons)

variable {t : Token} {ts : List Token} {q : Piece} {ps gap : List Piece}

/-! ### Texts before a place -/

/-- Blanks that start a line or the text are dropped. -/
theorem withoutBlankTail_append {kept removed : List Char}
    (hk : kept = [] ∨ kept.getLast? = some '\n') (hr : ∀ c ∈ removed, isIndent c = true) :
    withoutBlankTail (kept ++ removed) = kept := by
  have hdrop : Text.dropEndWhile isIndent removed = [] := by
    simpa [Text.dropEndWhile] using hr
  have hkept : Text.dropEndWhile isIndent (kept ++ removed) = kept := by
    rcases hk with rfl | hline
    · exact hdrop
    · have hne : kept ≠ [] := List.ne_nil_of_mem (List.mem_of_getLast? hline)
      rw [Text.dropEndWhile_append hne (by simp [hline, isIndent]), hdrop, List.append_nil]
  rw [withoutBlankTail, hkept]
  rcases hk with rfl | hline
  · rfl
  · simp [hline]

/-- The token of a text at the location. -/
def textAt (l : Location) (value : List Char) : Token := ⟨.text, some (String.ofList value), l, ""⟩

theorem trimLast_textAt (l : Location) (cs : List Char) (ts : List Token) :
    trimLast (textAt l cs :: ts) =
      if withoutBlankTail cs = [] then ts else textAt l (withoutBlankTail cs) :: ts := by
  split
  · next hnil => exact trimLast_text_nil rfl rfl hnil ts
  · next hne => exact trimLast_text rfl rfl hne ts

/-- The token is what is left of a piece of text. If blanks were removed from its end, they were
behind a line break. -/
inductive Leaves (q : Piece) : Token → Prop
  | mk {front kept back : List Char} : q.kind = .text → q.chars = front ++ (kept ++ back) →
      kept ≠ [] → (back ≠ [] → kept.getLast? = some '\n') →
      Leaves q (textAt (q.start.past front).location kept)

theorem Leaves.kind_eq (h : Leaves q t) : q.kind = .text := by
  cases h with
  | mk hq => exact hq

theorem leaves_ofText? (hq : q.kind = .text) (n : Nat) : ∀ t ∈ ofText? q n, Leaves q t := by
  intro t ht
  have hchars : q.chars = q.chars.take n ++ (q.chars.drop n ++ []) := by simp
  simp only [ofText?, Option.mem_def] at ht
  split at ht
  · contradiction
  · next hne =>
    obtain rfl := Option.some.inj ht
    exact .mk hq hchars hne (by simp)

/-- A text loses nothing, or blanks at the end of its piece, behind a line break or as a whole. -/
theorem Leaves.trimLast_cases (h : Leaves q t) (ts : List Token) :
    trimLast (t :: ts) = t :: ts ∨ ∃ front left removed, q.chars = front ++ (left ++ removed) ∧
      removed ≠ [] ∧ (∀ c ∈ removed, isIndent c = true) ∧
      t = textAt (q.start.past front).location (left ++ removed) ∧
      (left = [] ∧ trimLast (t :: ts) = ts ∨ left.getLast? = some '\n' ∧
        trimLast (t :: ts) = textAt (q.start.past front).location left :: ts) := by
  cases h with
  | @mk front kept back hq hchars hne hback =>
    rw [trimLast_textAt]
    obtain ⟨removed, hkept, hblank, hline⟩ := exists_back kept
    generalize withoutBlankTail kept = left at hkept hline
    by_cases hr : removed = []
    · rw [hr, List.append_nil] at hkept
      rw [← hkept, if_neg hne]
      exact .inl rfl
    · -- What was removed before would be behind a line break, so the text would not end in blanks.
      have hend : back = [] := by
        by_contra hb
        have hlast := hback hb
        rw [hkept, List.getLast?_append_of_ne_nil _ hr] at hlast
        exact absurd (hblank _ (List.mem_of_getLast? hlast)) (by decide)
      rw [hend, List.append_nil] at hchars
      refine .inr ⟨front, left, removed, hkept ▸ hchars, hr, hblank, by rw [hkept], ?_⟩
      by_cases hl : left = []
      · exact .inl ⟨hl, if_pos hl⟩
      · exact .inr ⟨(hline hr).resolve_left hl, if_neg hl⟩

/-- Tokens, the last first, and the pieces that they are made of. Each text among them that no tag
is behind is what is left of a piece, and the pieces behind that one make no token, but for texts. -/
inductive Trail : List Piece → List Token → Prop
  | nil {ps : List Piece} : Trail ps []
  | tag {ps : List Piece} {t : Token} {ts : List Token} : t.kind ≠ .text → Trail ps (t :: ts)
  | text {front gap : List Piece} {q : Piece} {t : Token} {ts : List Token} :
      Leaves q t → (∀ p ∈ gap, ofPiece? p = none) → Trail front ts →
      Trail (front ++ q :: gap) (t :: ts)

theorem ofPiece?_text (hq : q.kind = .text) : ofPiece? q = none := by
  simp [ofPiece?, hq]

theorem Trail.append (h : Trail ps ts) (hgap : ∀ p ∈ gap, ofPiece? p = none) :
    Trail (ps ++ gap) ts := by
  cases h with
  | nil => exact .nil
  | tag ht => exact .tag ht
  | text hq hps hts =>
    rw [List.append_assoc, List.cons_append]
    exact .text hq (List.forall_mem_append.2 ⟨hps, hgap⟩) hts

theorem Trail.trimLast (h : Trail ps ts) : Trail ps (trimLast ts) := by
  cases h with
  | nil => exact .nil
  | tag ht =>
    rw [Token.trimLast, if_neg ht]
    exact .tag ht
  | @text front gap q t ts hq hgap hts =>
    rcases hq.trimLast_cases ts with heq |
      ⟨lead, left, removed, hchars, -, -, -, ⟨-, heq⟩ | ⟨hline, heq⟩⟩
    · rw [heq]
      exact .text hq hgap hts
    · rw [heq]
      exact hts.append (List.forall_mem_cons.2 ⟨ofPiece?_text hq.kind_eq, hgap⟩)
    · rw [heq]
      have hne : left ≠ [] := List.ne_nil_of_mem (List.mem_of_getLast? hline)
      exact .text (.mk hq.kind_eq hchars hne fun _ => hline) hgap hts

theorem Trail.add (h : Trail ps ts) (p : Piece) :
    Trail (ps ++ [p]) ((Token.ofPiece? p).toList ++ ts) := by
  cases hp : Token.ofPiece? p with
  | none => exact h.append (by simp [hp])
  | some t => exact .tag (ofPiece?_ne_text p t (by simp [hp]))

/-- What one piece does to the tokens before it. -/
theorem Trail.emit {s : List Token × Bool} (h : Trail ps s.1) (atEnd : Bool) (p : Piece) :
    Trail (ps ++ [p]) (emit atEnd s p).1 := by
  have htrim : ∀ trim : Bool, Trail ps (if trim then Token.trimLast s.1 else s.1) := by
    rintro (_ | _)
    · exact h
    · exact h.trimLast
  cases hk : p.kind with
  | text =>
    simp only [Token.emit, hk]
    generalize (if s.2 then _ else _) = n
    cases hn : ofText? p n with
    | none => exact h.append (by simp [ofPiece?_text hk])
    | some t => exact .text (leaves_ofText? hk n t hn) (List.forall_mem_nil _) h
  | comment trimBefore trimAfter =>
    simp only [Token.emit, hk]
    exact (htrim trimBefore).append (by simp [Token.ofPiece?, hk])
  | blockOpen trim =>
    simp only [Token.emit, hk]
    exact (htrim trim).add p
  | _ =>
    simp only [Token.emit, hk]
    exact h.add p

theorem trail_emitAll (ps : List Piece) : Trail ps (emitAll ([], false) ps).1 := by
  induction ps using List.reverseRecOn with
  | nil => exact .nil
  | append_singleton ps p ih =>
    rw [emitAll, List.foldl_concat]
    exact ih.emit false p

/-! ### What is removed -/

/-- The last text of the tokens, which come the last first, loses `removed`, which is behind `front`
in the template text. What is left of it ends with a line break, unless nothing is left. -/
inductive Loses (front removed : List Char) : List Token → List Token → Prop
  | shortened {lead kept : List Char} {ts : List Token} :
      front = lead ++ kept → kept.getLast? = some '\n' →
      Loses front removed (textAt (.after lead) (kept ++ removed) :: ts)
        (textAt (.after lead) kept :: ts)
  | dropped {ts : List Token} : Loses front removed (textAt (.after front) removed :: ts) ts

/-- All blanks that can be removed are. -/
theorem Loses.trimLast_eq {front removed : List Char} {us : List Token}
    (h : Loses front removed ts us) (hr : ∀ c ∈ removed, isIndent c = true) : trimLast ts = us := by
  cases h with
  | @shortened lead kept ts _ hline =>
    have hne : kept ≠ [] := List.ne_nil_of_mem (List.mem_of_getLast? hline)
    rw [trimLast_textAt, withoutBlankTail_append (.inr hline) hr, if_neg hne]
  | dropped =>
    have hnil : withoutBlankTail removed = [] := withoutBlankTail_append (.inl rfl) hr
    rw [trimLast_textAt, if_pos hnil]

theorem Leaves.loses {lead : List Char} (h : Leaves q t) (hstart : q.start = .behind lead)
    (ts : List Token) : Token.trimLast (t :: ts) = t :: ts ∨
      ∃ front removed, lead ++ q.chars = front ++ removed ∧ removed ≠ [] ∧
        (∀ c ∈ removed, isIndent c = true) ∧
        Loses front removed (t :: ts) (Token.trimLast (t :: ts)) := by
  refine (h.trimLast_cases ts).imp_right ?_
  rintro ⟨front, left, removed, hchars, hne, hblank, rfl, htrim⟩
  have hplace : (q.start.past front).location = .after (lead ++ front) := by
    rw [hstart, ← Cursor.behind_append, Cursor.location_behind]
  rw [hplace] at htrim ⊢
  refine ⟨lead ++ front ++ left, removed, by simp [hchars], hne, hblank, ?_⟩
  rcases htrim with ⟨rfl, htrim⟩ | ⟨hline, htrim⟩
  · rw [htrim, List.append_nil]
    exact .dropped
  · rw [htrim]
    exact .shortened rfl hline

/-- The text that a stripping tag removes blanks from, and what is behind it. -/
theorem exists_loses (h : Trail ps ts)
    (hstart : ∀ first q gap, ps = first ++ q :: gap → q.start = .behind (written first)) :
    trimLast ts = ts ∨ ∃ first q gap front removed, ps = first ++ q :: gap ∧ q.kind = .text ∧
      (∀ p ∈ gap, ofPiece? p = none) ∧ written first ++ q.chars = front ++ removed ∧
      removed ≠ [] ∧ (∀ c ∈ removed, isIndent c = true) ∧ Loses front removed ts (trimLast ts) := by
  cases h with
  | nil => exact .inl rfl
  | tag ht => exact .inl (trimLast_of_ne ht _ 1)
  | @text first gap q t ts hq hgap hts =>
    rcases hq.loses (hstart first q gap rfl) ts with heq | ⟨front, removed, hloses⟩
    · exact .inl heq
    · exact .inr ⟨first, q, gap, front, removed, rfl, hq.kind_eq, hgap, hloses⟩

/-! ### What a tag removes -/

/-- The tokens of the pieces, the last first, as a piece behind them finds them. -/
def found (ps : List Piece) : List Token := (emitAll ([], false) ps).1

/-- A piece that strips trims the tokens before it, and does nothing else that it would not do
without its dash. -/
theorem exists_emit {p : Piece} (hp : p.kind.strips = true) : ∃ skip, ∀ atEnd s,
    emit atEnd s p = ((ofPiece? p).toList ++ trimLast s.1, skip) ∧
      emit atEnd s { p with kind := p.kind.unstripped } = ((ofPiece? p).toList ++ s.1, skip) := by
  obtain ⟨kind, chars, start⟩ := p
  cases kind with
  | comment trimBefore trimAfter =>
    obtain rfl : trimBefore = true := hp
    exact ⟨trimAfter, fun _ _ => ⟨rfl, rfl⟩⟩
  | blockOpen trim =>
    obtain rfl : trim = true := hp
    exact ⟨false, fun _ _ => ⟨rfl, rfl⟩⟩
  | _ => simp [PieceKind.strips] at hp

theorem ofPieces_found {p : Piece} (hp : p.kind.strips = true) (init qs : List Piece) :
    ∃ skip, ofPieces [] false (init ++ p :: qs) =
        ofPieces ((ofPiece? p).toList ++ trimLast (found init)) skip qs ∧
      ofPieces [] false (init ++ { p with kind := p.kind.unstripped } :: qs) =
        ofPieces ((ofPiece? p).toList ++ found init) skip qs := by
  obtain ⟨skip, hemit⟩ := exists_emit hp
  have hinit : ∀ q, ofPieces [] false (init ++ q :: qs) = _ := fun q =>
    ofPieces_append ([], false) init (List.cons_ne_nil q qs)
  refine ⟨skip, ?_, ?_⟩
  · rw [hinit, ofPieces_cons, (hemit _ _).1]
    rfl
  · rw [hinit, ofPieces_cons, (hemit _ _).2]
    rfl

/-- A tag or a region that strips removes the blanks that end the last text before it, if what is
left of that text ends with a line break or nothing is left; and it removes nothing else. Behind the
blanks there are comments and texts that other tags left nothing of, up to the tag; the blanks are
on its line if and only if no line breaks there. -/
theorem ofText_strips {text : String} {init qs : List Piece} {p : Piece}
    (h : Piece.cut .text {} text.toList = .ok (init ++ p :: qs)) (hp : p.kind.strips = true) :
    (∃ skip, ofPieces [] false (init ++ p :: qs) =
        ofPieces ((ofPiece? p).toList ++ trimLast (found init)) skip qs ∧
      ofPieces [] false (init ++ { p with kind := p.kind.unstripped } :: qs) =
        ofPieces ((ofPiece? p).toList ++ found init) skip qs) ∧
    (∀ front removed after, (∀ c ∈ removed, isIndent c = true) →
      Loses front removed (found init) after → trimLast (found init) = after) ∧
    (trimLast (found init) = found init ∨ ∃ front removed gap,
      Loses front removed (found init) (trimLast (found init)) ∧
      removed ≠ [] ∧ (∀ c ∈ removed, isIndent c = true) ∧
      text.toList = front ++ (removed ++ (written gap ++ (p.chars ++ written qs))) ∧
      gap <:+ init ∧ (∀ g ∈ gap, g.kind.isBetween = true) ∧
      p.start.location = .after (front ++ (removed ++ written gap)) ∧
      ((Location.after front).line = p.start.location.line ↔ ∀ g ∈ gap, '\n' ∉ g.chars)) := by
  refine ⟨ofPieces_found hp init qs, fun _ _ _ hr hloses => hloses.trimLast_eq hr, ?_⟩
  have hcuts := Piece.cuts_of_cut h
  have hwritten := hcuts.written_eq
  have hstart : ∀ first q gap, init = first ++ q :: gap → q.start = .behind (written first) := by
    rintro first q gap rfl
    rw [List.append_assoc] at hcuts
    exact hcuts.start_eq
  rcases exists_loses (trail_emitAll init) hstart with hnone |
    ⟨first, q, gap, front, removed, rfl, hq, hgap, hchars, hne, hblank, hloses⟩
  · exact .inl hnone
  have hinit : written (first ++ q :: gap) = front ++ (removed ++ written gap) := by
    rw [written_append, written_cons, ← List.append_assoc, hchars, List.append_assoc]
  have hplace : p.start.location = .after (front ++ (removed ++ written gap)) := by
    rw [← hinit, ← Cursor.location_behind]
    exact congrArg Cursor.location hcuts.start_eq
  refine .inr ⟨front, removed, gap, hloses, hne, hblank, ?_, ?_, ?_, hplace, ?_⟩
  · rw [← hwritten, written_append, hinit, written_cons]
    simp
  · exact ⟨first ++ [q], by simp⟩
  · rw [List.append_assoc] at hcuts
    obtain ⟨mid, hrest⟩ := hcuts.exists_suffix
    exact hrest.isBetween hq hgap
  · have hcount : removed.count '\n' = 0 :=
      List.count_eq_zero.2 fun hmem => absurd (hblank _ hmem) (by decide)
    rw [hplace, Location.line_after_append, List.count_append, hcount]
    simp [written, List.count_eq_zero]

/-- The blanks before a comment that ends on the line of the tag. -/
theorem ofText_strips_comment :
    let lead := "x\n  "
    let comment := "\x7b# a\nb #\x7d"
    let init := [⟨.text, lead.toList, {}⟩,
      ⟨.comment false false, comment.toList, .behind lead.toList⟩]
    let p : Piece := ⟨.blockOpen true, "\x7b%-".toList, .behind (lead ++ comment).toList⟩
    let qs := [⟨.blockClose false, "%\x7d".toList, .behind (lead ++ comment ++ "\x7b%-").toList⟩]
    Piece.cut .text {} (lead ++ comment ++ "\x7b%-%\x7d").toList = .ok (init ++ p :: qs) ∧
      p.kind.strips = true ∧ ∃ front removed gap,
        Loses front removed (found init) (trimLast (found init)) ∧ removed ≠ [] ∧ gap <:+ init ∧
        ((Location.after front).line = p.start.location.line ↔ ∀ g ∈ gap, '\n' ∉ g.chars) := by
  intro lead comment init p qs
  have hcut : Piece.cut .text {} (lead ++ comment ++ "\x7b%-%\x7d").toList =
      .ok (init ++ p :: qs) := by decide +kernel
  have hsome : trimLast (found init) ≠ found init := by decide +kernel
  obtain ⟨front, removed, gap, hloses, hne, -, -, hgap, -, -, hline⟩ :=
    (ofText_strips hcut rfl).2.2.resolve_left hsome
  exact ⟨hcut, rfl, front, removed, gap, hloses, hne, hgap, hline⟩

/-- The tag is on the third line, and removes blanks from the second. -/
theorem texts_stripped_above :
    let front := "x\n"
    let gap := "\x7b# a\nb #\x7d"
    (Location.after front.toList).line = 2 ∧
      (Location.after (front ++ "  " ++ gap).toList).line = 3 ∧
      (ofText (front ++ "  " ++ gap ++ "\x7b%- if c %\x7dd\x7b% endif %\x7d")).toOption.map texts =
        some [some front, some "d"] ∧
      (ofText (front ++ "  " ++ gap ++ "\x7b% if c %\x7dd\x7b% endif %\x7d")).toOption.map texts =
        some [some (front ++ "  "), some "d"] := by
  decide +kernel

end Token
end CodeTemplate

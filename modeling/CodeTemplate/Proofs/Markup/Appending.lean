import CodeTemplate.Proofs.Markup.Place

/-! Text behind template text that ends with a line break. What was cut of the text before stays as
it is, except that a stretch of text may go on; and the text behind is cut as if it stood alone. -/

namespace CodeTemplate

namespace Outline

open Text (isSpace)

/-- What stands first still does if more follows, if it begins only where it is found. -/
theorem First.append {P : List Char → Prop} {before found rest : List Char}
    (h : First P before found rest)
    (hp : ∀ ds, P ds → ∀ b, b ≠ [] → ¬ b ++ found <+: ds) (more : List Char) :
    First P before found (rest ++ more) := by
  refine ⟨h.here, fun a b hab hb ds hds hpre => ?_⟩
  rw [← List.append_assoc found, ← List.append_assoc] at hpre
  rcases List.prefix_or_prefix_of_prefix hpre
    (List.prefix_append (b ++ (found ++ rest)) more) with hshort | hlong
  · exact h.notBefore a b hab hb ds hds hshort
  · refine hp ds hds b hb ?_
    rw [← List.append_assoc] at hlong
    exact (List.prefix_append _ _).trans hlong

/-- A tag of one word opens nothing inside. -/
theorem IsBare.not_mem_tail {word tag : List Char} {strips skips : Bool} (hb : '\x7b' ∉ word)
    (h : IsBare word strips skips tag) : '\x7b' ∉ tag.tail := by
  obtain ⟨before, after, hs, rfl⟩ := h
  have hblank : ∀ c ∈ before ++ after, c ≠ '\x7b' := by
    rintro c hc rfl
    exact absurd (hs _ hc) (by decide)
  have hbefore : '\x7b' ∉ before := fun h => hblank _ (List.mem_append_left _ h) rfl
  have hafter : '\x7b' ∉ after := fun h => hblank _ (List.mem_append_right _ h) rfl
  cases strips <;> cases skips <;> simp [tagChars, dashes, hb, hbefore, hafter]

end Outline

namespace Piece

open Outline
open Text (isSpace after?)

variable {cs : List Char} {n : Nat}

/-! ### Nothing that was found is found elsewhere -/

theorem through?_bounds {close : List Char} (hc : close ≠ []) (h : through? close cs = some n) :
    close.length ≤ n ∧ n ≤ cs.length := by
  obtain ⟨before, rest, rfl, rfl, -⟩ := through?_sound hc h
  simp only [List.length_append]
  omega

theorem through?_append {close : List Char} (hc : close ≠ []) (h : through? close cs = some n)
    (ds : List Char) : through? close (cs ++ ds) = some n := by
  induction cs generalizing n with
  | nil => simp [through?, hc] at h
  | cons c cs ih =>
    simp only [through?, List.cons_append] at h ⊢
    split at h
    · next hp =>
      have hp' : close.isPrefixOf (c :: (cs ++ ds)) = true := by
        rw [List.isPrefixOf_iff_prefix] at hp ⊢
        exact hp.trans (List.prefix_append (c :: cs) ds)
      rw [if_pos hp', h]
    · next hp =>
      obtain ⟨m, hm, rfl⟩ := Option.map_eq_some_iff.1 h
      have hlength := through?_bounds hc hm
      have hp' : ¬ close.isPrefixOf (c :: (cs ++ ds)) = true := by
        rw [List.isPrefixOf_iff_prefix] at hp ⊢
        intro hpre
        refine hp (List.prefix_of_prefix_length_le hpre (List.prefix_append (c :: cs) ds) ?_)
        rw [List.length_cons]
        omega
      rw [if_neg hp', ih hm]
      rfl

theorem stringTail?_append {quote : Char} {value : List Char}
    (h : stringTail? quote cs = some (value, n)) (ds : List Char) :
    stringTail? quote (cs ++ ds) = some (value, n) ∧ n ≤ cs.length := by
  fun_induction stringTail? quote cs generalizing value n with
  | case1 | case2 | case4 => simp at h
  | case3 cs hn =>
    obtain ⟨rfl, rfl⟩ := Prod.mk.inj (Option.some.inj h)
    refine ⟨?_, by simp⟩
    rw [List.cons_append, stringTail?.eq_def]
    simp [hn]
  | case5 e cs hn hq ih =>
    obtain ⟨⟨v, m⟩, hm, heq⟩ := Option.map_eq_some_iff.1 h
    obtain ⟨rfl, rfl⟩ := Prod.mk.inj heq
    obtain ⟨happ, hle⟩ := ih hm
    refine ⟨?_, by simpa using hle⟩
    rw [List.cons_append, List.cons_append, stringTail?.eq_def]
    simp [hn, hq, happ]
  | case6 c cs hn hq hs ih =>
    obtain ⟨⟨v, m⟩, hm, heq⟩ := Option.map_eq_some_iff.1 h
    obtain ⟨rfl, rfl⟩ := Prod.mk.inj heq
    obtain ⟨happ, hle⟩ := ih hm
    refine ⟨?_, by simpa using hle⟩
    rw [List.cons_append, stringTail?.eq_def]
    simp [hn, hq, hs, happ]

theorem bareTag?_append {word : List Char} (hw : IsWord word) {skips : Bool}
    (h : bareTag? word cs = some (skips, n)) (ds : List Char) :
    bareTag? word (cs ++ ds) = some (skips, n) ∧ n ≤ cs.length := by
  obtain ⟨tag, rest, rfl, rfl, htag⟩ := bareTag?_sound h
  have hpre : '\x7b' :: '%' :: tag <+: '\x7b' :: '%' :: (tag ++ rest ++ ds) :=
    ⟨rest ++ ds, by simp⟩
  obtain ⟨m, hm⟩ := bareTag?_complete hw htag hpre
  obtain ⟨tag', rest', heq, rfl, htag'⟩ := bareTag?_sound hm
  have heq : '\x7b' :: '%' :: tag ++ (rest ++ ds) = '\x7b' :: '%' :: tag' ++ rest' := by
    simp [← heq]
  obtain ⟨-, -, htags⟩ := htag.unique hw hw htag' heq
  obtain rfl := (List.cons.inj (List.cons.inj htags).2).2
  exact ⟨hm, by simp⟩

theorem endComment?_append {skips : Bool} (h : endComment? cs = some (skips, n)) (ds : List Char) :
    endComment? (cs ++ ds) = some (skips, n) ∧ n ≤ cs.length := by
  obtain ⟨body, close, rest, s, rfl, rfl, hclose, hfirst⟩ := endComment?_sound h
  refine ⟨?_, by simp⟩
  have hinfix : close <:+: body ++ (close ++ rest) ++ ds := ⟨body, rest ++ ds, by simp⟩
  cases hext : endComment? (body ++ (close ++ rest) ++ ds) with
  | none => exact absurd hinfix (endComment?_eq_none hext hclose)
  | some found =>
    obtain ⟨skips', m⟩ := found
    obtain ⟨body', close', rest', s', heq, rfl, hclose', hfirst'⟩ := endComment?_sound hext
    have hmore := hfirst.append (fun tag ⟨_, _, htag⟩ b hb hpre => by
      obtain ⟨inside, -, -, rfl⟩ := hclose.exists_inside isWord_endcomment
      obtain ⟨c, b, rfl⟩ := List.exists_cons_of_ne_nil hb
      obtain ⟨more, rfl⟩ := hpre
      exact htag.not_mem_tail (by decide) (by simp [tagChars])) ds
    have heq : body ++ (close ++ (rest ++ ds)) = body' ++ (close' ++ rest') := by
      simpa using heq
    obtain rfl := hmore.unique hfirst' heq
    obtain ⟨-, rfl, rfl⟩ := hclose.unique isWord_endcomment isWord_endcomment hclose'
      (List.append_cancel_left heq)
    rfl

theorem opens_cons_append {c : Char} (h : cs ≠ []) (ds : List Char) :
    opens (c :: (cs ++ ds)) = opens (c :: cs) := by
  obtain ⟨d, cs, rfl⟩ := List.exists_cons_of_ne_nil h
  by_cases hc : c = '\x7b' <;> simp [opens, hc]

theorem stretch_append_of_opens (h : cs.drop (stretch cs) ≠ []) (ds : List Char) :
    stretch (cs ++ ds) = stretch cs := by
  induction cs with
  | nil => simp at h
  | cons c cs ih =>
    by_cases ho : opens (c :: cs) = true
    · have hne : cs ≠ [] := by
        rintro rfl
        by_cases hc : c = '\x7b' <;> simp [opens, hc] at ho
      simp [stretch, ho, opens_cons_append hne]
    · simp only [stretch, ho, Bool.false_eq_true, ↓reduceIte, List.drop_succ_cons] at h
      have hne : cs ≠ [] := by
        rintro rfl
        simp at h
      simp [stretch, ho, opens_cons_append hne, ih h]

theorem dash_append (h : cs ≠ []) (ds : List Char) :
    dash (cs ++ ds) = ((dash cs).1, (dash cs).2 ++ ds) := by
  obtain ⟨c, cs, rfl⟩ := List.exists_cons_of_ne_nil h
  by_cases hc : c = '-' <;> simp [dash, hc]

/-- A tag that ends in the text is no start of a comment block, whatever follows. -/
theorem bareTag?_comment_none {inside rest : List Char} {skips : Bool} (hi : Inside inside)
    (hcs : (dash cs).2 = inside ++ (dashes skips ++ ['%', '\x7d'] ++ rest))
    (h : bareTag? "comment".toList cs = none) (ds : List Char) :
    bareTag? "comment".toList (cs ++ ds) = none := by
  cases hb : bareTag? "comment".toList (cs ++ ds) with
  | none => rfl
  | some found =>
    obtain ⟨skips', n⟩ := found
    obtain ⟨tag, rest', heq, -, htag⟩ := bareTag?_sound hb
    obtain ⟨inside', hi', hne, hinside⟩ := htag.exists_inside isWord_comment
    have hempty : inside = [] → skips = true → (dash cs).1 = true := by
      rintro rfl rfl
      by_contra hd
      exact head?_dash (by simpa using hd) (by rw [hcs]; rfl)
    have hchars : '\x7b' :: '%' :: cs = tagChars (dash cs).1 skips inside ++ rest := by
      rw [tagChars_append]
      conv_lhs => rw [dash_eq cs, hcs]
      simp
    have hboth : tagChars (dash (cs ++ ds)).1 skips' inside' ++ rest' =
        tagChars (dash cs).1 skips inside ++ (rest ++ ds) := by
      rw [← hinside, ← List.append_assoc, ← hchars, List.cons_append, List.cons_append,
        List.cons_append, List.cons_append, heq]
    -- Both tags start together, so they end together, and the comment would start in the text.
    obtain ⟨hstrips, rfl, rfl⟩ := tagChars_unique hi' hi (fun h => absurd h hne) hempty hboth
    have hpre : '\x7b' :: '%' :: tag <+: '\x7b' :: '%' :: cs :=
      ⟨rest, by rw [hinside, hstrips, hchars]⟩
    obtain ⟨m, hm⟩ := bareTag?_complete isWord_comment htag hpre
    exact absurd (h.symm.trans hm) (Option.some_ne_none _).symm

theorem opening_percent (cs : List Char) :
    opening ('%' :: cs) =
      match bareTag? "comment".toList cs with
      | some (_, n) =>
        match endComment? (cs.drop n) with
        | some (trimAfter, m) => .ok (.comment (dash cs).1 trimAfter, 1 + n + m)
        | none => .error .unclosedCommentBlock
      | none => .ok (.blockOpen (dash cs).1, if (dash cs).1 then 2 else 1) :=
  rfl

/-- What a delimiter opens in the text, and is closed there, it opens there whatever follows. -/
theorem opening_append {kind : PieceKind} {opened : Location} {start : Cursor} {ps : List Piece}
    (ho : opens ('\x7b' :: cs) = true) (h : opening cs = .ok (kind, n))
    (hp : Cuts (Mode.text.after opened kind) start (cs.drop n) ps) (ds : List Char) :
    opening (cs ++ ds) = .ok (kind, n) ∧ n ≤ cs.length := by
  unfold opening at h
  split at h
  · split at h
    · next inner m hm =>
      obtain ⟨rfl, rfl⟩ := Prod.mk.inj (Except.ok.inj h)
      have hle := (through?_bounds (by decide) hm).2
      exact ⟨by simp [opening, through?_append (by decide) hm], by simpa using hle⟩
    · simp at h
  · obtain ⟨rfl, rfl⟩ := Prod.mk.inj (Except.ok.inj h)
    exact ⟨by simp [opening], by simp⟩
  · next hc hv =>
    obtain ⟨inner, rfl⟩ := exists_percent ho hc hv
    simp only [List.drop_succ_cons, List.drop_zero] at h
    split at h
    · next t k hk =>
      obtain ⟨hkapp, hkle⟩ := bareTag?_append isWord_comment hk ds
      have hne : inner ≠ [] := by
        rintro rfl
        simp [bareTag?, dash, after?] at hk
      split at h
      · next skips m hm =>
        obtain ⟨rfl, rfl⟩ := Prod.mk.inj (Except.ok.inj h)
        obtain ⟨hmapp, hmle⟩ := endComment?_append hm ds
        rw [List.length_drop] at hmle
        refine ⟨?_, by rw [List.length_cons]; omega⟩
        simp only [List.cons_append, opening_percent, hkapp, List.drop_append_of_le_length hkle,
          hmapp, dash_append hne]
      · simp at h
    · next hk =>
      obtain ⟨rfl, rfl⟩ := Prod.mk.inj (Except.ok.inj h)
      obtain ⟨_, last, _, inside, rest, _, -, -, hi, hdrop, hclosed, -⟩ :=
        Cuts.inside hp (by simp [Mode.after])
      have hlead : '%' :: inner = '%' :: dashes (dash inner).1 ++ (dash inner).2 :=
        congrArg _ (dash_eq inner)
      have hlength : (if (dash inner).1 then 2 else 1) = ('%' :: dashes (dash inner).1).length := by
        cases (dash inner).1 <;> rfl
      have hdash := (take_drop_of_eq hlead hlength).2
      cases hclosed with
      | @block _ _ skips _ hchars =>
        rw [hdash, hchars] at hdrop
        have hne : inner ≠ [] := by
          rintro rfl
          simp [dash] at hdrop
        have hnone := bareTag?_comment_none hi hdrop hk ds
        refine ⟨by simp only [List.cons_append, opening_percent, hnone, dash_append hne], ?_⟩
        rw [hlength, hlead, List.length_append]
        exact Nat.le_add_right _ _

theorem takeWhile_append {p : Char → Bool} (h : cs.drop (cs.takeWhile p).length ≠ [])
    (ds : List Char) : (cs ++ ds).takeWhile p = cs.takeWhile p := by
  rw [List.takeWhile_append, if_neg]
  intro he
  simp [he] at h

theorem inner_append {c : Char} {kind : PieceKind} (h : inner c cs = .ok (kind, n))
    (hrest : cs.drop n ≠ []) (ds : List Char) : inner c (cs ++ ds) = .ok (kind, n) := by
  simp only [inner] at h ⊢
  split at h
  · next hc =>
    obtain ⟨rfl, rfl⟩ := Prod.mk.inj (Except.ok.inj h)
    rw [if_pos hc, takeWhile_append hrest]
  next hc =>
  rw [if_neg hc]
  iterate 4
    split at h
    · next hc =>
      rw [if_pos hc]
      exact h
    rename_i hc
    rw [if_neg hc]
  split at h
  · next hc =>
    rw [if_pos hc]
    split at h
    · next value m hm =>
      rw [(stringTail?_append hm ds).1]
      exact h
    · simp at h
  next hc =>
  rw [if_neg hc]
  split at h
  · next hc =>
    obtain ⟨rfl, rfl⟩ := Prod.mk.inj (Except.ok.inj h)
    rw [if_pos hc, takeWhile_append hrest]
  · simp at h

theorem closing?_append {mode : Mode} {kind : PieceKind} (h : closing? mode cs = some (kind, n))
    (ds : List Char) : closing? mode (cs ++ ds) = some (kind, n) ∧ n < cs.length := by
  unfold closing? at h
  split at h
  iterate 3
    · obtain ⟨rfl, rfl⟩ := Prod.mk.inj (Option.some.inj h)
      exact ⟨rfl, by simp⟩
  · simp at h

/-- Where a piece of a tag starts, the tag does not end, whatever follows. -/
theorem closing?_of_inner {mode : Mode} {c : Char} {kind : PieceKind}
    (h : inner c cs = .ok (kind, n)) (ds : List Char) : closing? mode (c :: ds) = none := by
  have hc : c ≠ '-' ∧ c ≠ '%' ∧ c ≠ '\x7d' := by
    refine ⟨?_, ?_, ?_⟩ <;> rintro rfl <;> simp [inner, isTagBlank, isNameStart] at h
  unfold closing?
  split
  · next heq => exact absurd (List.cons.inj heq).1 hc.1
  · next heq => exact absurd (List.cons.inj heq).1 hc.2.1
  · next heq => exact absurd (List.cons.inj heq).1 hc.2.2
  · rfl

/-! ### Cutting what goes on -/

theorem length_le_of_drop {cs : List Char} {n : Nat} (h : cs.drop n ≠ []) : n ≤ cs.length := by
  by_contra hn
  exact h (List.drop_of_length_le (by omega))

theorem tag_next_append {mode : Mode} {c : Char} {kind : PieceKind} (hm : mode ≠ .text)
    (h : next mode c cs = .ok (kind, n)) (hrest : cs.drop n ≠ []) (ds : List Char) :
    next mode c (cs ++ ds) = .ok (kind, n) := by
  rw [next_of_ne_text hm] at h ⊢
  split at h
  · next piece hc =>
    obtain rfl := Except.ok.inj h
    rw [← List.cons_append, (closing?_append hc ds).1]
  · rw [closing?_of_inner h]
    exact inner_append h hrest ds

/-- A piece that does not reach the end of the text stays as it is. -/
theorem next_append {mode : Mode} {start : Cursor} {c : Char} {kind : PieceKind} {ps : List Piece}
    (h : next mode c cs = .ok (kind, n)) (hrest : cs.drop n ≠ [])
    (hp : Cuts (mode.after start.location kind) (start.past (c :: cs.take n)) (cs.drop n) ps)
    (ds : List Char) : next mode c (cs ++ ds) = .ok (kind, n) := by
  have hne : cs ≠ [] := by
    rintro rfl
    simp at hrest
  by_cases hm : mode = .text
  · subst hm
    simp only [next, opens_cons_append hne] at h ⊢
    split at h
    · next ho =>
      obtain rfl := exists_brace ho
      rw [if_pos ho]
      exact (opening_append ho h hp ds).1
    · next ho =>
      obtain ⟨rfl, rfl⟩ := Prod.mk.inj (Except.ok.inj h)
      rw [if_neg ho, stretch_append_of_opens hrest]
  · exact tag_next_append hm h hrest ds

/-- A comment ends with the end of a tag. -/
theorem getLast?_of_comment {p : Outline.Part} {rest : List Char} (hc : p.isComment = true)
    (h : Written p rest) : p.chars.getLast? = some '\x7d' := by
  cases h with
  | comment => simp [Part.chars, List.getLast?_append, List.getLast?_cons]
  | region _ _ hclose =>
    obtain ⟨inside, -, -, rfl⟩ := hclose.exists_inside isWord_endcomment
    simp [Part.chars, tagChars, List.getLast?_append, List.getLast?_cons]
  | block => simp [Part.isComment] at hc
  | «variable» => simp [Part.isComment] at hc

/-- A last piece that ends with a line break is text. -/
theorem text_of_last {mode : Mode} {start : Cursor} {c : Char} {kind : PieceKind}
    (h : next mode c cs = .ok (kind, n)) (hnil : cs.drop n = [])
    (hm : mode.after start.location kind = .text) (hl : (c :: cs).getLast? = some '\n') :
    mode = .text ∧ opens (c :: cs) = false := by
  have htake : cs.take n = cs := List.take_of_length_le (List.drop_eq_nil_iff.1 hnil)
  by_cases hmode : mode = .text
  · subst hmode
    refine ⟨rfl, ?_⟩
    by_contra ho
    have ho : opens (c :: cs) = true := by simpa using ho
    obtain rfl := exists_brace ho
    have hopening : opening cs = .ok (kind, n) := by simpa [next, ho] using h
    cases opened_of_opening ho hopening with
    | comment hp hc hw =>
      rw [htake] at hc
      have hlast := getLast?_of_comment hp hw
      rw [hc, hl] at hlast
      simp at hlast
    | «variable» => simp [Mode.after] at hm
    | block => simp [Mode.after] at hm
  · cases next_of_ok start h with
    | text ht => exact absurd ht hmode
    | opened ht => exact absurd ht hmode
    | closed hc =>
      rw [htake] at hc
      cases hc with
      | @block _ _ skips _ hchars =>
        rw [show c :: cs = _ from hchars] at hl
        cases skips <;> simp [dashes] at hl
      | «variable» _ hchars =>
        rw [show c :: cs = _ from hchars] at hl
        simp at hl
    | inner _ hi =>
      have hmode' : mode.after start.location kind = mode := after_inner (inner_sound hi).1
      exact absurd (hmode'.symm.trans hm) hmode

theorem stretch_append (hs : cs.drop (stretch cs) = []) (hl : cs.getLast? ≠ some '\x7b')
    (ds : List Char) : stretch (cs ++ ds) = cs.length + stretch ds := by
  induction cs with
  | nil => simp
  | cons c cs ih =>
    have ho : opens (c :: cs) = false := by
      by_contra ho
      have ho : opens (c :: cs) = true := by simpa using ho
      simp [stretch, ho] at hs
    simp only [stretch, ho, Bool.false_eq_true, ↓reduceIte, List.drop_succ_cons] at hs
    have hnext : opens (c :: (cs ++ ds)) = false ∧ cs.getLast? ≠ some '\x7b' := by
      cases cs with
      | nil =>
        have hc : c ≠ '\x7b' := by simpa using hl
        simp [opens, hc]
      | cons d cs =>
        rw [opens_cons_append (List.cons_ne_nil d cs)]
        exact ⟨ho, by simpa using hl⟩
    rw [List.cons_append, stretch, hnext.1, if_neg Bool.false_ne_true, ih hs hnext.2,
      List.length_cons]
    omega

/-- A piece of text and the pieces behind it, which it may go on into. -/
def goOn (last : Piece) : List Piece → List Piece
  | [] => [last]
  | q :: qs =>
    if q.kind = .text then { last with chars := last.chars ++ q.chars } :: qs
    else last :: q :: qs

theorem kind_ne_text {c : Char} {kind : PieceKind} (ho : opens (c :: cs) = true)
    (h : next .text c cs = .ok (kind, n)) : kind ≠ .text := by
  obtain rfl := exists_brace ho
  have hopening : opening cs = .ok (kind, n) := by simpa [next, ho] using h
  cases opened_of_opening ho hopening <;> simp

/-- Text that ends with a line break goes on with the text behind it. -/
theorem cuts_goOn {start : Cursor} {c : Char} {ds : List Char} {qs : List Piece}
    (ho : opens (c :: cs) = false) (hs : cs.drop (stretch cs) = [])
    (hl : (c :: cs).getLast? = some '\n') (hq : Cuts .text (start.past (c :: cs)) ds qs) :
    Cuts .text start (c :: cs ++ ds) (goOn ⟨.text, c :: cs, start⟩ qs) := by
  -- Nothing opens across the seam, because a line break stands before it.
  have hopens : opens (c :: (cs ++ ds)) = false := by
    cases cs with
    | nil =>
      obtain rfl : c = '\n' := by simpa using hl
      simp [opens]
    | cons d cs => rwa [opens_cons_append (List.cons_ne_nil d cs)]
  have hstretch : stretch (cs ++ ds) = cs.length + stretch ds := by
    refine stretch_append hs ?_ ds
    cases cs with
    | nil => simp
    | cons d cs =>
      have hl : (d :: cs).getLast? = some '\n' := by simpa using hl
      simp [hl]
  have hnext : next .text c (cs ++ ds) = .ok (.text, cs.length + stretch ds) := by
    simp [next, hopens, hstretch]
  have hpiece : ∀ {ps : List Piece},
      Cuts .text (start.past (c :: (cs ++ ds.take (stretch ds)))) (ds.drop (stretch ds)) ps →
      Cuts .text start (c :: (cs ++ ds))
        (⟨.text, c :: (cs ++ ds.take (stretch ds)), start⟩ :: ps) := by
    intro ps hps
    have htake : (cs ++ ds).take (cs.length + stretch ds) = cs ++ ds.take (stretch ds) := by
      rw [List.take_append, List.take_of_length_le (Nat.le_add_right _ _), Nat.add_sub_cancel_left]
    have hdrop : (cs ++ ds).drop (cs.length + stretch ds) = ds.drop (stretch ds) := by
      rw [List.drop_append, List.drop_of_length_le (Nat.le_add_right _ _), Nat.add_sub_cancel_left,
        List.nil_append]
    rw [← htake]
    refine .cons hnext ?_
    rwa [htake, hdrop]
  cases hq with
  | nil =>
    have hlast := @hpiece [] (by simpa [stretch] using Cuts.nil)
    simpa [goOn, stretch] using hlast
  | @cons _ _ d ds kind n qs hn hqs =>
    by_cases hd : opens (d :: ds) = true
    · have hstop : stretch (d :: ds) = 0 := by simp [stretch, hd]
      simp only [goOn, kind_ne_text hd hn, ↓reduceIte]
      have hlast := @hpiece (⟨kind, d :: ds.take n, start.past (c :: cs)⟩ :: qs)
      simp only [hstop, List.take_zero, List.append_nil, List.drop_zero] at hlast
      exact hlast (.cons hn hqs)
    · obtain ⟨rfl, rfl⟩ : kind = .text ∧ n = stretch ds := by
        simpa [next, hd, eq_comm] using hn
      have hgo : stretch (d :: ds) = stretch ds + 1 := by simp [stretch, hd]
      have hlast := @hpiece qs
      simp only [hgo, List.take_succ_cons, List.drop_succ_cons] at hlast
      have hpast : start.past (c :: (cs ++ d :: ds.take (stretch ds))) =
          (start.past (c :: cs)).past (d :: ds.take (stretch ds)) := by
        rw [← Cursor.past_append]
        rfl
      simp only [goOn, ↓reduceIte]
      exact hlast (hpast ▸ hqs)

/-- A text that ends with a line break ends with a piece of text. Text behind it changes no piece
but this one. -/
theorem Cuts.extend {mode : Mode} {start : Cursor} {ps : List Piece} (h : Cuts mode start cs ps)
    (hl : cs.getLast? = some '\n') :
    ∃ init last, ps = init ++ [last] ∧ last.kind = .text ∧ last.chars.getLast? = some '\n' ∧
      last.start.past last.chars = start.past cs ∧
      ∀ ds qs, Cuts .text (start.past cs) ds qs →
        Cuts mode start (cs ++ ds) (init ++ goOn last qs) := by
  -- The induction is on the pieces. Only the last one reaches the seam.
  induction h with
  | nil => simp at hl
  | @cons mode start c cs kind n ps hn hps ih =>
    by_cases hrest : cs.drop n = []
    · rw [hrest] at hps
      have htake : cs.take n = cs := List.take_of_length_le (List.drop_eq_nil_iff.1 hrest)
      generalize hmode : mode.after start.location kind = after at hps
      cases hps with
      | nil =>
        obtain ⟨rfl, ho⟩ := text_of_last hn hrest hmode hl
        obtain ⟨rfl, rfl⟩ : kind = .text ∧ n = stretch cs := by
          simpa [next, ho, eq_comm] using hn
        rw [htake]
        exact ⟨[], _, rfl, rfl, hl, rfl, fun ds qs hq => cuts_goOn ho hrest hl hq⟩
    · have hl' : (cs.drop n).getLast? = some '\n' := by
        have hne : (cs.drop n).getLast? ≠ none := by simpa using hrest
        obtain ⟨d, hd⟩ := Option.ne_none_iff_exists'.1 hne
        rw [← List.take_append_drop n cs, ← List.cons_append, List.getLast?_append, hd,
          Option.some_or] at hl
        rw [hd, hl]
      obtain ⟨init, last, rfl, hkind, hlast, hpast, hmore⟩ := ih hl'
      have hall : (start.past (c :: cs.take n)).past (cs.drop n) = start.past (c :: cs) := by
        rw [← Cursor.past_append, List.cons_append, List.take_append_drop]
      rw [hall] at hpast hmore
      refine ⟨_ :: init, last, rfl, hkind, hlast, hpast, fun ds qs hq => ?_⟩
      have hle := length_le_of_drop hrest
      have htake : (cs ++ ds).take n = cs.take n := List.take_append_of_le_length hle
      have hdrop : (cs ++ ds).drop n = cs.drop n ++ ds := List.drop_append_of_le_length hle
      have hcuts := hmore ds qs hq
      rw [← htake, ← hdrop] at hcuts
      rw [← htake]
      exact .cons (next_append hn hrest hps ds) hcuts

end Piece
end CodeTemplate

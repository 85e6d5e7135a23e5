import CodeTemplate.Proofs.Markup.Strings

/-! Texts that end in a tag. What stands there is read by itself when a string follows, so strings
of all values can be put into all tags; and before each string of a text there is such a text. -/

namespace CodeTemplate

open Outline

namespace Piece

variable {quote : Char} {cs inside value : List Char} {n : Nat}

/-- The text is cut up to its end, where the mode is `stop`. -/
inductive Reaches : Mode → Cursor → List Char → List Piece → Mode → Prop
  | nil {mode : Mode} {start : Cursor} : Reaches mode start [] [] mode
  | cons {mode stop : Mode} {start : Cursor} {c : Char} {cs : List Char} {kind : PieceKind}
      {n : Nat} {ps : List Piece} : next mode c cs = .ok (kind, n) →
      Reaches (mode.after start.location kind) (start.past (c :: cs.take n)) (cs.drop n) ps stop →
      Reaches mode start (c :: cs) (⟨kind, c :: cs.take n, start⟩ :: ps) stop

/-- What is wrong with a text at whose end the mode is this one. -/
def Mode.unclosed? : Mode → Option (Located ScanFault)
  | .text => none
  | .block opened => some ⟨.unclosedTag, opened⟩
  | .variable opened => some ⟨.unclosedVariable, opened⟩

variable {mode stop : Mode} {start : Cursor} {ps qs : List Piece} {l : Located ScanFault}

/-- Only the end of a text tells that a tag is not closed. -/
theorem next_ne_unclosed {c : Char} {f : ScanFault} {l : Location}
    (h : next mode c cs = .error f) : ⟨f, l⟩ ∉ stop.unclosed? := by
  have hf : f ≠ .unclosedTag ∧ f ≠ .unclosedVariable := by
    by_cases hm : mode = .text
    · subst hm
      simp only [next, opening] at h
      repeat' split at h
      all_goals first | contradiction | (obtain rfl := Except.error.inj h; simp)
    · simp only [next_of_ne_text hm, inner] at h
      repeat' split at h
      all_goals first | contradiction | (obtain rfl := Except.error.inj h; simp)
  intro hl
  cases stop with
  | text => simp [Mode.unclosed?] at hl
  | block => exact hf.1 (congrArg Located.fault (Option.some.inj hl)).symm
  | «variable» => exact hf.2 (congrArg Located.fault (Option.some.inj hl)).symm

theorem Mode.eq_of_unclosed? {mode : Mode} (h : l ∈ mode.unclosed?) (hs : l ∈ stop.unclosed?) :
    mode = stop := by
  cases mode with
  | text => simp [unclosed?] at h
  | block opened | «variable» opened =>
    obtain rfl := Option.some.inj h
    cases stop <;> simp_all [unclosed?]

/-- A text fails for a tag that is not closed if and only if its end is in that tag. -/
theorem exists_reaches_iff (hl : l ∈ stop.unclosed?) :
    cut mode start cs = .error l ↔ ∃ ps, Reaches mode start cs ps stop := by
  constructor
  · intro h
    fun_induction cut mode start cs with
    | case1 => simp at h
    | case2 _ opened =>
      obtain rfl := Except.error.inj h
      have hmode : ⟨.unclosedTag, opened⟩ ∈ (Mode.block opened).unclosed? := rfl
      obtain rfl := Mode.eq_of_unclosed? hmode hl
      exact ⟨[], .nil⟩
    | case3 _ opened =>
      obtain rfl := Except.error.inj h
      have hmode : ⟨.unclosedVariable, opened⟩ ∈ (Mode.variable opened).unclosed? := rfl
      obtain rfl := Mode.eq_of_unclosed? hmode hl
      exact ⟨[], .nil⟩
    | case4 mode start c cs f hn =>
      obtain rfl := Except.error.inj h
      exact absurd hl (next_ne_unclosed hn)
    | case5 mode start c cs kind n hn chars f hf ih =>
      obtain ⟨ps, hps⟩ := ih (hf.trans h)
      exact ⟨_, .cons hn hps⟩
    | case6 => simp at h
  · rintro ⟨ps, h⟩
    induction h with
    | @nil mode => cases mode <;> simp_all [cut, Mode.unclosed?]
    | cons hn _ ih => simp only [cut, hn, ih hl]

theorem Reaches.ne_nil (h : Reaches .text start cs ps stop) (hs : stop ≠ .text) :
    cs ≠ [] ∧ ps ≠ [] := by
  cases h with
  | nil => exact absurd rfl hs
  | cons => exact ⟨List.cons_ne_nil _ _, List.cons_ne_nil _ _⟩

/-- A piece of text is not the last one of a text whose end is in a tag. -/
theorem Reaches.text_lt {c : Char} (hn : next mode c cs = .ok (.text, n))
    (h : Reaches (mode.after start.location .text) (start.past (c :: cs.take n)) (cs.drop n) ps
      stop) (hs : stop ≠ .text) : n < cs.length ∧ ps ≠ [] := by
  obtain rfl := mode_of_text hn
  obtain ⟨hrest, hps⟩ := h.ne_nil hs
  exact ⟨by simpa using hrest, hps⟩

theorem Reaches.last_ne (h : Reaches mode start cs ps stop) (hs : stop ≠ .text) :
    ∀ last ∈ ps.getLast?, last.kind ≠ .text := by
  induction h with
  | nil => simp
  | @cons mode stop start c cs kind n ps hn hps ih =>
    intro last hlast
    cases ps with
    | nil =>
      obtain rfl := Option.some.inj hlast
      rintro rfl
      exact (hps.text_lt hn hs).2 rfl
    | cons p ps =>
      rw [List.getLast?_cons_cons] at hlast
      exact ih hs last hlast

/-- What follows a text that ends in a tag is cut by itself, if it starts with a quote. -/
theorem Reaches.cut_append (h : Reaches mode start cs ps stop) (hs : stop ≠ .text)
    (hq : IsQuote quote) (rest : List Char) :
    cut mode start (cs ++ quote :: rest) =
      (cut stop (start.past cs) (quote :: rest)).map (ps ++ ·) := by
  induction h with
  | @nil mode start =>
    have hpast : start.past [] = start := rfl
    rw [List.nil_append, hpast]
    cases cut mode start (quote :: rest) <;> rfl
  | @cons mode stop start c cs kind n ps hn hps ih =>
    have hle := next_le hn
    have htext : kind = .text → n < cs.length := by
      rintro rfl
      exact (hps.text_lt hn hs).1
    have hpast : start.past (c :: cs) = (start.past (c :: cs.take n)).past (cs.drop n) := by
      rw [← Cursor.past_append, List.cons_append, List.take_append_drop]
    rw [List.cons_append, cut]
    simp only [(next_quote hq hle htext).2 hn, List.take_append_of_le_length hle,
      List.drop_append_of_le_length hle, ih hs, hpast]
    cases cut stop _ (quote :: rest) <;> rfl

/-- A string is one piece, and stands in a tag. -/
theorem next_string_iff {c : Char} {text : String} : next mode c cs = .ok (.string text, n) ↔
    mode ≠ .text ∧ IsQuote c ∧ stringTail? c cs = some (text.toList, n) := by
  constructor
  · intro h
    cases next_of_ok {} h with
    | opened _ _ ho => nomatch ho
    | closed hc =>
      cases hc with
      | block hk => exact absurd hk (by simp)
      | «variable» hk => exact absurd hk (by simp)
    | inner hm hi =>
      obtain ⟨quote, ds, heq, hq⟩ := inner_heads hi
      obtain ⟨rfl, -⟩ := List.cons.inj heq
      obtain ⟨value, hv, hkind⟩ := (inner_string_iff hq).1 hi
      obtain rfl := PieceKind.string.inj hkind
      exact ⟨hm, hq, by rwa [String.toList_ofList]⟩
  · rintro ⟨hm, hq, hv⟩
    have hi : inner c cs = .ok (.string text, n) :=
      (inner_string_iff hq).2 ⟨_, hv, by rw [String.ofList_toList]⟩
    rw [next_of_ne_text hm, closing?_of_inner hi]
    exact hi

theorem take_drop_string (inside : List Char) (quote : Char) (rest : List Char) :
    (inside ++ quote :: rest).take (inside.length + 1) = inside ++ [quote] ∧
      (inside ++ quote :: rest).drop (inside.length + 1) = rest :=
  take_drop_of_eq (by simp) (by simp)

/-- The text between two quotes is read as a string, and reading goes on behind the second one. -/
theorem cut_string (hm : mode ≠ .text) (hq : IsQuote quote) (h : Decodes quote inside value)
    (rest : List Char) : cut mode start (quote :: (inside ++ quote :: rest)) =
      (cut mode (start.past (quote :: (inside ++ [quote]))) rest).map
        (⟨.string (String.ofList value), quote :: (inside ++ [quote]), start⟩ :: ·) := by
  have hn : next mode quote (inside ++ quote :: rest) =
      .ok (.string (String.ofList value), inside.length + 1) := by
    rw [next_string_iff, stringTail?_eq_some_iff hq, String.toList_ofList]
    exact ⟨hm, hq, inside, rest, rfl, rfl, h⟩
  obtain ⟨htake, hdrop⟩ := take_drop_string inside quote rest
  rw [cut]
  simp only [hn, htake, hdrop, Mode.after]
  cases cut mode _ rest <;> rfl

/-- Where a string stands among the pieces of a text: the text before ends in a tag. -/
theorem Cuts.split {init : List Piece} {p : Piece} {text : String}
    (h : Cuts mode start cs (init ++ p :: qs)) (hp : p.kind = .string text) :
    ∃ before stop quote inside rest, cs = before ++ quote :: (inside ++ quote :: rest) ∧
      Reaches mode start before init stop ∧ stop ≠ .text ∧ IsQuote quote ∧
      Decodes quote inside text.toList ∧
      p = ⟨.string text, quote :: (inside ++ [quote]), start.past before⟩ ∧
      Cuts stop (p.start.past p.chars) rest qs := by
  induction init generalizing mode start cs with
  | nil =>
    cases h with
    | @cons _ _ c cs kind n _ hn hqs =>
      obtain rfl : kind = .string text := hp
      obtain ⟨hm, hq, hv⟩ := next_string_iff.1 hn
      obtain ⟨inside, rest, rfl, rfl, hd⟩ := (stringTail?_eq_some_iff hq).1 hv
      obtain ⟨htake, hdrop⟩ := take_drop_string inside c rest
      rw [htake, hdrop] at hqs
      rw [htake]
      exact ⟨[], mode, c, inside, rest, rfl, .nil, hm, hq, hd, rfl, hqs⟩
  | cons first init ih =>
    cases h with
    | @cons _ _ c cs kind n _ hn hps =>
      obtain ⟨before, stop, quote, inside, rest, heq, hinit, hs, hq, hd, rfl, hqs⟩ := ih hps
      have hlength : (cs.take n).length = n := List.length_take_of_le (next_le hn)
      have hcs : cs = (cs.take n ++ before) ++ quote :: (inside ++ quote :: rest) := by
        rw [List.append_assoc, ← heq, List.take_append_drop]
      have htext : kind = .text → n < (cs.take n ++ before).length := by
        rintro rfl
        obtain rfl := mode_of_text hn
        have hpos := List.length_pos_of_ne_nil (hinit.ne_nil hs).1
        rw [List.length_append, hlength]
        omega
      rw [hcs, next_quote hq (by rw [List.length_append, hlength]; omega) htext] at hn
      have htake : (cs.take n ++ before).take n = cs.take n := List.take_left' hlength
      have hdrop : (cs.take n ++ before).drop n = before := List.drop_left' hlength
      have hrest : Reaches (mode.after start.location kind)
          (start.past (c :: (cs.take n ++ before).take n)) ((cs.take n ++ before).drop n) init
          stop := by
        rwa [htake, hdrop]
      refine ⟨c :: (cs.take n ++ before), stop, quote, inside, rest, congrArg _ hcs, ?_, hs, hq, hd,
        ?_, hqs⟩
      · have hreach := Reaches.cons hn hrest
        rwa [htake] at hreach
      · rw [← Cursor.past_append, List.cons_append]

end Piece

namespace Token

open Piece (Mode Reaches Decodes quoted)

variable {t : Token} {ts us : List Token} {ps : List Piece}

/-! ### Tokens -/

theorem trimLast_append (ht : t.kind ≠ .text) (ts us : List Token) :
    trimLast (ts ++ t :: us) = trimLast ts ++ t :: us := by
  cases ts with
  | nil => simp [trimLast, ht]
  | cons x ts =>
    rw [List.cons_append, trimLast, trimLast]
    split
    · split <;> rfl
    · rfl

/-- What is before a token that is no text stays as it is. -/
theorem emit_append (ht : t.kind ≠ .text) (atEnd : Bool) (s : List Token × Bool)
    (us : List Token) (p : Piece) :
    emit atEnd (s.1 ++ t :: us, s.2) p = ((emit atEnd s p).1 ++ t :: us, (emit atEnd s p).2) := by
  have htrim : ∀ trim : Bool, (if trim then trimLast (s.1 ++ t :: us) else s.1 ++ t :: us) =
      (if trim then trimLast s.1 else s.1) ++ t :: us := by
    rintro (_ | _)
    · rfl
    · exact trimLast_append ht s.1 us
  obtain ⟨kind, chars, start⟩ := p
  cases kind with
  | comment | blockOpen => simp [emit, htrim]
  | _ => simp [emit]

theorem ofPieces_append_cons (ht : t.kind ≠ .text) (s : List Token × Bool) (us : List Token)
    (ps : List Piece) :
    ofPieces (s.1 ++ t :: us) s.2 ps = ofPieces s.1 s.2 ps ++ t :: us := by
  induction ps generalizing s with
  | nil => rfl
  | cons p ps ih =>
    have hcons := ofPieces_cons (s.1 ++ t :: us, s.2) p ps
    rw [emit_append ht, ih] at hcons
    rw [hcons, ofPieces_cons]

/-- It is only of a text that it matters whether it is the last piece. -/
theorem emitAll_fst (h : ∀ last ∈ ps.getLast?, last.kind ≠ .text) (s : List Token × Bool) :
    (emitAll s ps).1 = ofPieces s.1 s.2 ps := by
  rcases List.eq_nil_or_concat' ps with rfl | ⟨init, last, rfl⟩
  · rfl
  · have hlast : last.kind ≠ .text := h last (by simp)
    rw [ofPieces_append s init (List.cons_ne_nil last []), ofPieces_cons, emitAll, emitAll,
      List.foldl_concat]
    obtain ⟨kind, chars, start⟩ := last
    cases kind with
    | text => exact absurd rfl hlast
    | _ => rfl

/-- What a piece adds to the tokens, and to which. -/
theorem emit_cases (atEnd : Bool) (s : List Token × Bool) (p : Piece) :
    ∃ new base, (emit atEnd s p).1 = new ++ base ∧ (base = s.1 ∨ base = trimLast s.1) ∧
      ∀ x ∈ new, x.kind = .string → ofPiece? p = some x ∧ new = [x] ∧ base = s.1 := by
  have htrim : ∀ trim : Bool, (if trim then trimLast s.1 else s.1) = s.1 ∨
      (if trim then trimLast s.1 else s.1) = trimLast s.1 := by
    rintro (_ | _)
    · exact .inl rfl
    · exact .inr rfl
  obtain ⟨kind, chars, start⟩ := p
  cases kind with
  | text =>
    refine ⟨_, s.1, rfl, .inl rfl, fun x hx hk => ?_⟩
    simp only [ofText?, Option.mem_toList] at hx
    split at hx
    · simp at hx
    · obtain rfl := Option.some.inj hx
      simp at hk
  | comment trimBefore trimAfter => exact ⟨[], _, rfl, htrim trimBefore, by simp⟩
  | blockOpen trim => exact ⟨_, _, rfl, htrim trim, by simp [ofPiece?]⟩
  | _ =>
    refine ⟨_, s.1, rfl, .inl rfl, fun x hx _ => ?_⟩
    rw [Option.mem_toList] at hx
    exact ⟨hx, by rw [hx]; rfl, rfl⟩

theorem suffix_of_append {new base : List Token} (hnew : ∀ x ∈ new, x ≠ t)
    (h : t :: us <:+ new ++ base) : t :: us <:+ base := by
  induction new with
  | nil => exact h
  | cons x new ih =>
    obtain ⟨hx, hnew⟩ := List.forall_mem_cons.1 hnew
    rcases List.suffix_cons_iff.1 h with heq | hs
    · exact absurd (List.cons.inj heq).1.symm hx
    · exact ih hnew hs

theorem suffix_of_trimLast (ht : t.kind ≠ .text) (h : t :: us <:+ trimLast ts) :
    t :: us <:+ ts := by
  cases ts with
  | nil => exact h
  | cons x ts =>
    rw [trimLast] at h
    split at h
    · next hx =>
      refine List.suffix_cons_iff.2 (.inr ?_)
      split at h
      · exact h
      · rcases List.suffix_cons_iff.1 h with heq | hs
        · exact absurd ((List.cons.inj heq).1 ▸ hx) ht
        · exact hs
    · exact h

theorem exists_string_of_ofPiece? {p : Piece} (ht : t.kind = .string) (h : ofPiece? p = some t) :
    ∃ text, p.kind = .string text ∧ t = ⟨.string, some text, p.start.location, ""⟩ := by
  obtain ⟨kind, chars, start⟩ := p
  cases kind with
  | string text => exact ⟨text, rfl, (Option.some.inj h).symm⟩
  | text | comment | blanks => simp [ofPiece?] at h
  | _ =>
    obtain rfl := Option.some.inj h
    simp at ht

/-- A string among the tokens is that of a piece, and the tokens before it are those of the pieces
before. -/
theorem exists_piece (ht : t.kind = .string) {s : List Token × Bool}
    (h : t :: us <:+ ofPieces s.1 s.2 ps) :
    t :: us <:+ s.1 ∨ ∃ init p qs, ps = init ++ p :: qs ∧ ofPiece? p = some t ∧
      us = (emitAll s init).1 := by
  have hne : t.kind ≠ .text := by simp [ht]
  induction ps generalizing s with
  | nil => exact .inl h
  | cons p ps ih =>
    rw [ofPieces_cons] at h
    rcases ih h with hs | ⟨init, q, qs, rfl, hq, rfl⟩
    · obtain ⟨new, base, hemit, hbase, hnew⟩ := emit_cases ps.isEmpty s p
      rw [hemit] at hs
      by_cases hm : t ∈ new
      · obtain ⟨hp, rfl, rfl⟩ := hnew t hm ht
        rcases List.suffix_cons_iff.1 hs with heq | hs
        · exact .inr ⟨[], p, ps, rfl, hp, (List.cons.inj heq).2⟩
        · exact .inl hs
      · have hs : t :: us <:+ base := suffix_of_append (fun _ hx => ne_of_mem_of_not_mem hx hm) hs
        rcases hbase with rfl | rfl
        · exact .inl hs
        · exact .inl (suffix_of_trimLast hne hs)
    · have hempty : (init ++ q :: qs).isEmpty = false := by simp
      rw [hempty]
      exact .inr ⟨p :: init, q, qs, rfl, hq, rfl⟩

/-! ### Strings of all values -/

/-- The text before ends in the mode, and these are its tokens. -/
def Enters (before : List Char) (mode : Mode) (ts : List Token) : Prop :=
  ∃ ps, Reaches .text {} before ps mode ∧ ts = (ofPieces [] false ps).reverse

/-- The tokens of what follows a text that ends in the mode. -/
def resume (mode : Mode) (before after : List Char) :
    Except (Located ScanFault) (List Token) :=
  (Piece.cut mode (.behind before) after).map fun ps =>
    (⟨.eof, none, .after (before ++ after), ""⟩ :: ofPieces [] false ps).reverse

/-- The tokens of a string, and of what is before it and behind it. -/
theorem ofPieces_string {init qs : List Piece} {p : Piece}
    (h : ∀ last ∈ init.getLast?, last.kind ≠ .text) (ht : t.kind = .string)
    (hp : ofPiece? p = some t) :
    ofPieces [] false (init ++ p :: qs) = ofPieces [] false qs ++ t :: ofPieces [] false init := by
  obtain ⟨text, hkind, -⟩ := exists_string_of_ofPiece? ht hp
  have hne : t.kind ≠ .text := by simp [ht]
  have hstate : ∀ s, emit qs.isEmpty s p = (t :: s.1, false) := by
    intro s
    simp [emit, hkind, hp]
  have hinit := ofPieces_append ([], false) init (List.cons_ne_nil p qs)
  rw [ofPieces_cons, hstate, emitAll_fst h] at hinit
  rw [hinit]
  exact ofPieces_append_cons hne ([], false) _ qs

theorem ofText_error_iff {text : String} {mode : Mode} {l : Located ScanFault}
    (hl : l ∈ mode.unclosed?) :
    ofText text = .error l ↔ ∃ ts, Enters text.toList mode ts := by
  have hmap : ofText text = .error l ↔ Piece.cut .text {} text.toList = .error l := by
    simp only [ofText]
    cases Piece.cut .text {} text.toList <;> simp [Except.map]
  rw [hmap, Piece.exists_reaches_iff hl]
  constructor
  · rintro ⟨ps, h⟩
    exact ⟨_, ps, h, rfl⟩
  · rintro ⟨_, ps, h, -⟩
    exact ⟨ps, h⟩

theorem ofText_string {before inside value after : List Char} {mode : Mode} {quote : Char}
    (h : Enters before mode ts) (hm : mode ≠ .text) (hq : IsQuote quote)
    (hd : Decodes quote inside value) :
    ofText (String.ofList (before ++ quote :: (inside ++ quote :: after))) =
      (resume mode (before ++ quote :: (inside ++ [quote])) after).map
        (ts ++ ⟨.string, some (String.ofList value), .after before, ""⟩ :: ·) := by
  obtain ⟨ps, hps, rfl⟩ := h
  have hcursor : (Cursor.past {} before).past (quote :: (inside ++ [quote])) =
      .behind (before ++ quote :: (inside ++ [quote])) := (Cursor.behind_append _ _).symm
  have hend : before ++ quote :: (inside ++ quote :: after) =
      before ++ quote :: (inside ++ [quote]) ++ after := by simp
  have heof : (Cursor.past {} (before ++ quote :: (inside ++ quote :: after))).location =
      .after (before ++ quote :: (inside ++ [quote]) ++ after) := by
    rw [hend]
    exact Cursor.location_behind _
  simp only [ofText, String.toList_ofList, resume, hps.cut_append hm hq, Piece.cut_string hm hq hd,
    hcursor, heof]
  cases Piece.cut mode _ after with
  | error l => rfl
  | ok qs =>
    have htoken : ofPiece? ⟨.string (String.ofList value), quote :: (inside ++ [quote]),
        Cursor.past {} before⟩ = some ⟨.string, some (String.ofList value), .after before, ""⟩ := by
      rw [← Cursor.location_behind]
      rfl
    simp only [Except.map, ofPieces_string (hps.last_ne hm) rfl htoken]
    simp

theorem exists_ofText_string {text : String} (h : ofText text = .ok (ts ++ t :: us))
    (ht : t.kind = .string) :
    ∃ before mode quote inside value after,
      text.toList = before ++ quote :: (inside ++ quote :: after) ∧ Enters before mode ts ∧
      mode ≠ .text ∧ IsQuote quote ∧ Decodes quote inside value ∧
      t = ⟨.string, some (String.ofList value), .after before, ""⟩ ∧
      resume mode (before ++ quote :: (inside ++ [quote])) after = .ok us := by
  obtain ⟨ps, hps, heq⟩ := map_ok.1 h
  have hend : (Cursor.past {} text.toList).location = .after text.toList :=
    Cursor.location_behind _
  rw [hend] at heq
  have hreverse := congrArg List.reverse heq
  rw [List.reverse_reverse, List.reverse_append, List.reverse_cons, List.append_assoc,
    List.singleton_append] at hreverse
  generalize hus : us.reverse = vs at hreverse
  cases vs with
  | nil =>
    obtain ⟨rfl, -⟩ := List.cons.inj hreverse
    simp at ht
  | cons x ws =>
    obtain ⟨rfl, hws⟩ := List.cons.inj hreverse
    obtain hnil | ⟨init, p, qs, rfl, hp, hinit⟩ := exists_piece ht (s := ([], false)) ⟨ws, hws.symm⟩
    · simp at hnil
    obtain ⟨name, hkind, rfl⟩ := exists_string_of_ofPiece? ht hp
    obtain ⟨before, mode, quote, inside, after, htext, hreach, hm, hq, hd, rfl, hqs⟩ :=
      (Piece.cuts_of_cut hps).split hkind
    have hts : ts.reverse = ofPieces [] false init :=
      hinit.trans (emitAll_fst (hreach.last_ne hm) _)
    have hqs' : ws = ofPieces [] false qs := by
      rw [ofPieces_string (hreach.last_ne hm) rfl hp, ← hts] at hws
      exact (List.append_cancel_right hws).symm
    have hcursor : (Cursor.past {} before).past (quote :: (inside ++ [quote])) =
        .behind (before ++ quote :: (inside ++ [quote])) := (Cursor.behind_append _ _).symm
    have hwhole : before ++ quote :: (inside ++ [quote]) ++ after = text.toList := by
      simp [htext]
    rw [hcursor] at hqs
    refine ⟨before, mode, quote, inside, name.toList, after, htext,
      ⟨init, hreach, by rw [← hts, List.reverse_reverse]⟩, hm, hq, hd, ?_, ?_⟩
    · rw [String.ofList_toList, ← Cursor.location_behind]
      rfl
    · rw [resume, Piece.cut_of_cuts hqs, hwhole, ← List.reverse_reverse us, hus, hqs']
      rfl

/-- A text ends in a tag if and only if it fails for that tag. There each value can be written as a
string, in either kind of quotes: it is read as one token, and reading goes on behind it, whatever
is there. And each string of a text is written so: it ends with the first quote of its kind that is
behind no backslash, with no line break before that but behind a backslash, and its value is what is
between the quotes, with each pair of a backslash and a character decoded. -/
theorem ofText_strings :
    (∀ (text : String) (l : Located ScanFault) (mode : Mode), l ∈ mode.unclosed? →
      (ofText text = .error l ↔ ∃ ts, Enters text.toList mode ts)) ∧
    (∀ before mode ts, Enters before mode ts → mode ≠ .text → ∀ quote, IsQuote quote →
      ∀ value after, ofText (String.ofList (before ++ (quoted quote value ++ after))) =
        (resume mode (before ++ quoted quote value) after).map
          (ts ++ ⟨.string, some (String.ofList value), .after before, ""⟩ :: ·)) ∧
    ∀ text ts t us, ofText text = .ok (ts ++ t :: us) → t.kind = .string →
      ∃ before mode quote inside value after,
        text.toList = before ++ quote :: (inside ++ quote :: after) ∧ Enters before mode ts ∧
        mode ≠ .text ∧ IsQuote quote ∧ Decodes quote inside value ∧
        t = ⟨.string, some (String.ofList value), .after before, ""⟩ ∧
        resume mode (before ++ quote :: (inside ++ [quote])) after = .ok us := by
  refine ⟨fun text l mode hl => ofText_error_iff hl, ?_, fun text ts t us h ht =>
    exists_ofText_string h ht⟩
  intro before mode ts h hm quote hq value after
  have hquoted : quoted quote value ++ after =
      quote :: (value.flatMap (Piece.escapeChar quote) ++ quote :: after) := by
    simp [quoted]
  rw [hquoted]
  exact ofText_string h hm hq (Piece.decodes_escape hq value)

/-- A value with quotes, a backslash, a line break and the end of a tag. -/
theorem ofText_strings_call :
    let before := "\x7b% call_template item n="
    let value := "a\"\\\n%\x7d'"
    let written := "\"a\\\"\\\\\\n%\x7d'\""
    let string : Token := ⟨.string, some value, ⟨1, 25⟩, ""⟩
    let text := before ++ (written ++ " %\x7d")
    ofText before = .error ⟨.unclosedTag, ⟨1, 1⟩⟩ ∧ quoted '"' value.toList = written.toList ∧
      (∃ ts us, ofText text = .ok (ts ++ string :: us) ∧ us.length = 2) ∧
      ∃ quote inside, quote :: (inside ++ [quote]) <:+: text.toList ∧
        Decodes quote inside value.toList := by
  intro before value written string text
  have hbefore : ofText before = .error ⟨.unclosedTag, ⟨1, 1⟩⟩ := by decide +kernel
  have hwritten : quoted '"' value.toList = written.toList := by decide +kernel
  have hafter : resume (.block ⟨1, 1⟩) (before.toList ++ written.toList) " %\x7d".toList = .ok
      [⟨.blockClose, some Delimiter.blockClose, ⟨1, 38⟩, ""⟩, ⟨.eof, none, ⟨1, 40⟩, ""⟩] := by
    decide +kernel
  have hplace : Location.after before.toList = ⟨1, 25⟩ := by decide +kernel
  obtain ⟨hends, hstrings, hback⟩ := ofText_strings
  obtain ⟨ts, hts⟩ := (hends before _ (.block ⟨1, 1⟩) rfl).1 hbefore
  have hall := hstrings _ _ _ hts (by decide) '"' (.inl rfl) value.toList " %\x7d".toList
  rw [hwritten, hafter, hplace, ← String.toList_append, ← String.toList_append,
    String.ofList_toList, String.ofList_toList] at hall
  obtain ⟨front, _, quote, inside, value', after, htext, -, -, -, hd, hstring, -⟩ :=
    hback text ts string _ hall rfl
  have hvalue : value = String.ofList value' := Option.some.inj (congrArg Token.value hstring)
  refine ⟨hbefore, hwritten, ⟨ts, _, hall, rfl⟩, quote, inside, ?_, ?_⟩
  · rw [htext]
    exact ⟨front, after, by simp⟩
  · rwa [hvalue, String.toList_ofList]

end Token
end CodeTemplate

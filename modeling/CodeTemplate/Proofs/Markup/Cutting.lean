import Mathlib.Data.List.TakeWhile
import CodeTemplate.Proofs.Markup.Outline
import CodeTemplate.Proofs.Text.Infix

/-! The pieces that template text is cut into lie in its layout: a stretch, a comment and a
commented region are one piece each, and a tag has its delimiters and what is between them. -/

namespace CodeTemplate.Piece

open Outline
open Text (isSpace after? after?_append dropWhile_lead)

/-- The pieces of a text that can be cut. -/
inductive Cuts : Mode → Cursor → List Char → List Piece → Prop
  | nil {start : Cursor} : Cuts .text start [] []
  | cons {mode : Mode} {start : Cursor} {c : Char} {cs : List Char} {kind : PieceKind} {n : Nat}
      {ps : List Piece} :
      next mode c cs = .ok (kind, n) →
      Cuts (mode.after start.location kind) (start.past (c :: cs.take n)) (cs.drop n) ps →
      Cuts mode start (c :: cs) (⟨kind, c :: cs.take n, start⟩ :: ps)

theorem cuts_of_cut {mode : Mode} {start : Cursor} {cs : List Char} {ps : List Piece}
    (h : cut mode start cs = .ok ps) : Cuts mode start cs ps := by
  fun_induction cut mode start cs generalizing ps with
  | case1 start =>
    obtain rfl := Except.ok.inj h
    exact .nil
  | case2 | case3 | case4 | case5 => simp at h
  | case6 _ _ _ _ _ _ hn _ _ hqs =>
    next ih =>
      obtain rfl := Except.ok.inj h
      exact .cons hn (ih hqs)

/-! ### Text -/

theorem stretch_plain (cs : List Char) :
    ∀ a b, cs.take (stretch cs) = a ++ b → b ≠ [] → opens (b ++ cs.drop (stretch cs)) = false := by
  induction cs with
  | nil =>
    intro a b h hb
    have hnil : a = [] ∧ b = [] := by simpa [stretch] using h
    exact absurd hnil.2 hb
  | cons c cs ih =>
    intro a b h hb
    by_cases ho : opens (c :: cs) = true
    · have hnil : a = [] ∧ b = [] := by simpa [stretch, ho] using h
      exact absurd hnil.2 hb
    · simp only [stretch, ho, Bool.false_eq_true, ↓reduceIte, List.take_succ_cons,
        List.drop_succ_cons] at h ⊢
      cases a with
      | nil =>
        obtain rfl : c :: cs.take (stretch cs) = b := h
        rw [List.cons_append, List.take_append_drop]
        simpa using ho
      | cons d a => exact ih a b (List.cons.inj h).2 hb

theorem stretch_stops (cs : List Char) :
    cs.drop (stretch cs) = [] ∨ opens (cs.drop (stretch cs)) = true := by
  induction cs with
  | nil => exact .inl rfl
  | cons c cs ih =>
    by_cases ho : opens (c :: cs) = true
    · exact .inr (by simp [stretch, ho])
    · simpa [stretch, ho] using ih

theorem isStretch_stretch {c : Char} {cs : List Char} (h : opens (c :: cs) = false) :
    IsStretch (c :: cs.take (stretch cs)) (cs.drop (stretch cs)) := by
  have hstretch : stretch (c :: cs) = stretch cs + 1 := by simp [stretch, h]
  have hplain := stretch_plain (c :: cs)
  rw [hstretch, List.take_succ_cons, List.drop_succ_cons] at hplain
  exact ⟨List.cons_ne_nil _ _, hplain, stretch_stops cs⟩

/-! ### Comments and regions -/

theorem through?_sound {close cs : List Char} {n : Nat} (hc : close ≠ [])
    (h : through? close cs = some n) :
    ∃ before rest, cs = before ++ (close ++ rest) ∧ n = (before ++ close).length ∧
      First (· = close) before close rest := by
  induction cs generalizing n with
  | nil => simp [through?, hc] at h
  | cons c cs ih =>
    simp only [through?] at h
    split at h
    · next hp =>
      obtain ⟨rest, heq⟩ := List.isPrefixOf_iff_prefix.1 hp
      obtain rfl := Option.some.inj h
      refine ⟨[], rest, heq.symm, rfl, rfl, ?_⟩
      intro a b hab hb
      exact absurd (List.append_eq_nil_iff.1 hab.symm).2 hb
    · next hp =>
      obtain ⟨m, hm, rfl⟩ := Option.map_eq_some_iff.1 h
      obtain ⟨before, rest, rfl, rfl, hf⟩ := ih hm
      refine ⟨c :: before, rest, rfl, rfl, rfl, ?_⟩
      intro a b hab hb ds hds
      cases a with
      | nil =>
        obtain rfl : c :: before = b := hab
        subst hds
        exact fun hpre => hp (List.isPrefixOf_iff_prefix.2 hpre)
      | cons d a => exact hf.notBefore a b (List.cons.inj hab).2 hb ds hds

theorem dash_eq (cs : List Char) : cs = dashes (dash cs).1 ++ (dash cs).2 := by
  fun_cases dash cs <;> rfl

theorem dash_dashes {b : Bool} {cs : List Char} (h : cs.head? ≠ some '-') :
    dash (dashes b ++ cs) = (b, cs) := by
  cases b with
  | true => rfl
  | false =>
    cases cs with
    | nil => rfl
    | cons c cs =>
      have hc : c ≠ '-' := by simpa using h
      simp [dashes, dash, hc]

theorem head?_dash {cs : List Char} (h : (dash cs).1 = false) : (dash cs).2.head? ≠ some '-' := by
  cases cs with
  | nil => simp [dash]
  | cons c cs =>
    by_cases hc : c = '-'
    · simp [dash, hc] at h
    · simp [dash, hc]

theorem bareTag?_sound {word cs : List Char} {skips : Bool} {n : Nat}
    (h : bareTag? word cs = some (skips, n)) :
    ∃ tag rest, cs = tag ++ rest ∧ n = tag.length ∧
      IsBare word (dash cs).1 skips ('\x7b' :: '%' :: tag) := by
  simp only [bareTag?, Option.bind_eq_bind, Option.bind_eq_some_iff, Option.some.injEq,
    Prod.mk.injEq] at h
  obtain ⟨behind, hword, rest, hend, rfl, rfl⟩ := h
  have hword := Text.after?_eq_some hword
  have hend := Text.after?_eq_some hend
  let before := (dash cs).2.takeWhile isSpace
  let after := behind.takeWhile isSpace
  let skips := (dash (behind.dropWhile isSpace)).1
  let tag := dashes (dash cs).1 ++
    (before ++ (word ++ after) ++ (dashes skips ++ ['%', '\x7d']))
  have hcs : cs = tag ++ rest := by
    calc cs = dashes (dash cs).1 ++ (before ++ (dash cs).2.dropWhile isSpace) := by
          rw [List.takeWhile_append_dropWhile, ← dash_eq]
      _ = dashes (dash cs).1 ++ (before ++ (word ++ (after ++ behind.dropWhile isSpace))) := by
          rw [hword, List.takeWhile_append_dropWhile]
      _ = tag ++ rest := by
          rw [dash_eq (behind.dropWhile isSpace), hend]
          simp [tag, skips]
  refine ⟨tag, rest, hcs, ?_, before, after, ?_, rfl⟩
  · have hlength : cs.length = tag.length + rest.length := by
      rw [← List.length_append, ← hcs]
    omega
  · intro c hc
    rcases List.mem_append.1 hc with hc | hc
    · exact List.mem_takeWhile_imp hc
    · exact List.mem_takeWhile_imp hc

theorem bareTag?_complete {word tag cs : List Char} {strips skips : Bool} (hw : IsWord word)
    (h : IsBare word strips skips tag) (ht : tag <+: '\x7b' :: '%' :: cs) :
    ∃ n, bareTag? word cs = some (skips, n) := by
  obtain ⟨before, after, hs, rfl⟩ := h
  obtain ⟨rest, heq⟩ := ht
  obtain ⟨c, word', rfl⟩ := List.exists_cons_of_ne_nil hw.ne_nil
  have hbefore : ∀ d ∈ before, isSpace d = true := fun d hd => hs d (List.mem_append_left _ hd)
  have hafter : ∀ d ∈ after, isSpace d = true := fun d hd => hs d (List.mem_append_right _ hd)
  let behind := after ++ (dashes skips ++ '%' :: '\x7d' :: rest)
  have hcs : cs = dashes strips ++ (before ++ (c :: word' ++ behind)) := by
    rw [tagChars_append] at heq
    have hcs := (List.cons.inj (List.cons.inj heq).2).2
    rw [← hcs]
    simp [behind]
  have hfirst : dash cs = (strips, before ++ (c :: word' ++ behind)) := by
    rw [hcs]
    refine dash_dashes ?_
    intro hd
    have hplain : '-' ∉ ['"', '\'', '-', '%', '\x7d'] := by
      cases before with
      | nil =>
        obtain rfl : c = '-' := by simpa using hd
        exact hw.plain _ List.mem_cons_self
      | cons d before =>
        obtain rfl : d = '-' := by simpa using hd
        exact plain_of_isSpace (hbefore _ List.mem_cons_self)
    exact hplain (by decide)
  have hword : (before ++ (c :: word' ++ behind)).dropWhile isSpace = c :: word' ++ behind := by
    refine dropWhile_lead hbefore ?_
    rintro d ⟨rfl⟩
    exact hw.unspaced c List.mem_cons_self
  have hend : behind.dropWhile isSpace = dashes skips ++ '%' :: '\x7d' :: rest := by
    refine dropWhile_lead hafter ?_
    cases skips <;> rintro d ⟨rfl⟩ <;> decide
  have hlast : dash (dashes skips ++ '%' :: '\x7d' :: rest) = (skips, '%' :: '\x7d' :: rest) :=
    dash_dashes (by simp)
  refine ⟨cs.length - rest.length, ?_⟩
  simp only [bareTag?, hfirst, hword, after?_append, Option.bind_eq_bind, Option.bind_some, hend,
    hlast]
  rfl

/-- Where an end tag of a comment block starts, it is found. -/
theorem exists_endTag {cs tag : List Char} {strips skips : Bool}
    (h : IsBare "endcomment".toList strips skips tag) (ht : tag <+: cs) :
    ∃ inner n, after? ['\x7b', '%'] cs = some inner ∧
      bareTag? "endcomment".toList inner = some (skips, n) := by
  obtain ⟨inner, rfl⟩ : ∃ inner, cs = '\x7b' :: '%' :: inner := by
    obtain ⟨_, _, -, rfl⟩ := h
    obtain ⟨rest, rfl⟩ := ht
    exact ⟨_, tagChars_append⟩
  obtain ⟨n, hn⟩ := bareTag?_complete isWord_endcomment h ht
  exact ⟨inner, n, after?_append ['\x7b', '%'] inner, hn⟩

/-- The first tag that ends a comment block. -/
theorem endComment?_sound {cs : List Char} {skips : Bool} {n : Nat}
    (h : endComment? cs = some (skips, n)) :
    ∃ body close rest s, cs = body ++ (close ++ rest) ∧ n = (body ++ close).length ∧
      IsBare "endcomment".toList s skips close ∧
      First (fun cs => ∃ s t, IsBare "endcomment".toList s t cs) body close rest := by
  induction cs generalizing n with
  | nil => simp [endComment?] at h
  | cons c cs ih =>
    rw [endComment?, Option.or_eq_some_iff] at h
    rcases h with h | ⟨hnone, h⟩
    · simp only [Option.bind_eq_bind, Option.bind_eq_some_iff, Option.some.injEq, Prod.mk.injEq,
        Prod.exists] at h
      obtain ⟨inner, hopen, _, m, hbare, rfl, rfl⟩ := h
      obtain ⟨tag, rest, rfl, rfl, htag⟩ := bareTag?_sound hbare
      have hcs : c :: cs = '\x7b' :: '%' :: (tag ++ rest) := Text.after?_eq_some hopen
      refine ⟨[], '\x7b' :: '%' :: tag, rest, _, hcs, rfl, htag, ⟨_, _, htag⟩, ?_⟩
      intro a b hab hb
      exact absurd (List.append_eq_nil_iff.1 hab.symm).2 hb
    · obtain ⟨⟨_, m⟩, hm, heq⟩ := Option.map_eq_some_iff.1 h
      obtain ⟨rfl, rfl⟩ := Prod.mk.inj heq
      obtain ⟨body, close, rest, s, rfl, rfl, hclose, hf⟩ := ih hm
      refine ⟨c :: body, close, rest, s, rfl, rfl, hclose, hf.here, ?_⟩
      intro a b hab hb ds hds
      cases a with
      | cons d a => exact hf.notBefore a b (List.cons.inj hab).2 hb ds hds
      | nil =>
        -- A tag that starts here would have been found.
        obtain rfl : c :: body = b := hab
        intro (hpre : ds <+: c :: (body ++ (close ++ rest)))
        obtain ⟨s', t', hbare⟩ := hds
        obtain ⟨inner, m, hopen, hm⟩ := exists_endTag hbare hpre
        simp only [hopen, hm, Option.bind_eq_bind, Option.bind_some] at hnone
        exact absurd hnone (Option.some_ne_none _)

/-- What an opening delimiter starts: a comment, up to its end, or a tag. `cs` follows the brace,
and `n` characters of it belong to the piece. -/
inductive Opened (cs : List Char) (n : Nat) : PieceKind → Prop
  | comment {p : Part} :
      p.isComment = true → p.chars = '\x7b' :: cs.take n → Written p (cs.drop n) →
      Opened cs n (.comment p.strips p.skips)
  | variable : cs.take n = ['\x7b'] → Opened cs n .varOpen
  | block {strips : Bool} :
      cs.take n = '%' :: dashes strips → (strips = false → (cs.drop n).head? ≠ some '-') →
      (∀ s t tag, IsBare "comment".toList s t tag → ¬ tag <+: '\x7b' :: cs) →
      Opened cs n (.blockOpen strips)

/-- A text of known length at the start of another one. -/
theorem take_drop_of_eq {cs xs rest : List Char} {n : Nat} (h : cs = xs ++ rest)
    (hn : n = xs.length) : cs.take n = xs ∧ cs.drop n = rest := by
  subst h hn
  exact ⟨List.take_left, List.drop_left⟩

theorem Opened.of_written {cs xs rest : List Char} {n : Nat} {p : Part} (h : cs = xs ++ rest)
    (hn : n = xs.length) (hp : p.isComment = true) (hc : p.chars = '\x7b' :: xs)
    (hw : Written p rest) : Opened cs n (.comment p.strips p.skips) := by
  obtain ⟨htake, hdrop⟩ := take_drop_of_eq h hn
  exact .comment hp (by rw [hc, htake]) (by rwa [hdrop])

theorem opened_comment {cs : List Char} {n : Nat} (h : through? ['#', '\x7d'] cs = some n) :
    Opened ('#' :: cs) (n + 1) (.comment false false) := by
  obtain ⟨body, rest, rfl, rfl, hf⟩ := through?_sound (by decide) h
  let p : Part := .comment ('\x7b' :: '#' :: (body ++ ['#', '\x7d']))
  have htext : '#' :: (body ++ (['#', '\x7d'] ++ rest)) =
      '#' :: (body ++ ['#', '\x7d']) ++ rest := by
    simp
  have hwritten : Written p rest := .comment hf
  exact .of_written htext rfl rfl rfl hwritten

theorem opened_region {cs : List Char} {t skips : Bool} {n m : Nat}
    (hn : bareTag? "comment".toList cs = some (t, n))
    (hm : endComment? (cs.drop n) = some (skips, m)) :
    Opened ('%' :: cs) (1 + n + m) (.comment (dash cs).1 skips) := by
  obtain ⟨tag, behind, hcs, hlength, htag⟩ := bareTag?_sound hn
  obtain ⟨-, hdrop⟩ := take_drop_of_eq hcs hlength
  rw [hdrop] at hm
  obtain ⟨body, close, rest, s, hbehind, rfl, hclose, hf⟩ := endComment?_sound hm
  let p : Part := .region (dash cs).1 skips ('\x7b' :: '%' :: tag ++ (body ++ close))
  have htext : '%' :: cs = '%' :: (tag ++ (body ++ close)) ++ rest := by
    simp [hcs, hbehind]
  have hsum : 1 + n + (body ++ close).length = ('%' :: (tag ++ (body ++ close))).length := by
    simp only [hlength, List.length_cons, List.length_append]
    omega
  have hwritten : Written p rest := .region htag hf hclose
  exact .of_written htext hsum rfl rfl hwritten

theorem opened_block {cs : List Char} (h : bareTag? "comment".toList cs = none) :
    Opened ('%' :: cs) (if (dash cs).1 then 2 else 1) (.blockOpen (dash cs).1) := by
  have htext : '%' :: cs = '%' :: dashes (dash cs).1 ++ (dash cs).2 := congrArg _ (dash_eq cs)
  have hlength : (if (dash cs).1 then 2 else 1) = ('%' :: dashes (dash cs).1).length := by
    cases (dash cs).1 <;> rfl
  obtain ⟨htake, hdrop⟩ := take_drop_of_eq htext hlength
  refine .block htake (fun hd => hdrop ▸ head?_dash hd) ?_
  intro s t tag htag ht
  obtain ⟨n, hn⟩ := bareTag?_complete isWord_comment htag ht
  exact absurd (h.symm.trans hn) (Option.some_ne_none _).symm

/-- What opens something and is neither a comment nor a variable is a block tag. -/
theorem exists_percent {cs : List Char} (ho : opens ('\x7b' :: cs) = true)
    (hc : ∀ inner, cs ≠ '#' :: inner) (hv : ∀ inner, cs ≠ '\x7b' :: inner) :
    ∃ inner, cs = '%' :: inner := by
  cases cs with
  | nil => simp [opens] at ho
  | cons c inner =>
    have hne : c ≠ '#' ∧ c ≠ '\x7b' :=
      ⟨fun h => hc inner (by rw [h]), fun h => hv inner (by rw [h])⟩
    have hpercent : c = '%' := by simpa [opens, hne] using ho
    exact ⟨inner, by rw [hpercent]⟩

theorem opened_of_opening {cs : List Char} {kind : PieceKind} {n : Nat}
    (ho : opens ('\x7b' :: cs) = true) (h : opening cs = .ok (kind, n)) : Opened cs n kind := by
  unfold opening at h
  split at h
  · split at h
    · next m hm =>
      obtain ⟨rfl, rfl⟩ := Prod.mk.inj (Except.ok.inj h)
      exact opened_comment hm
    · simp at h
  · obtain ⟨rfl, rfl⟩ := Prod.mk.inj (Except.ok.inj h)
    exact .variable rfl
  · next hc hv =>
    obtain ⟨inner, rfl⟩ := exists_percent ho hc hv
    simp only [List.drop_succ_cons, List.drop_zero] at h
    split at h
    · next t k hk =>
      split at h
      · next skips m hm =>
        obtain ⟨rfl, rfl⟩ := Prod.mk.inj (Except.ok.inj h)
        exact opened_region hk hm
      · simp at h
    · next hk =>
      obtain ⟨rfl, rfl⟩ := Prod.mk.inj (Except.ok.inj h)
      exact opened_block hk

/-! ### Tags -/

/-- Whether pieces of the kind stand between the delimiters of a tag. -/
def isInner : PieceKind → Bool
  | .blanks | .ident | .string _ | .dot | .pipe | .equal | .slash => true
  | _ => false

theorem quoted_of_stringTail? {quote : Char} {cs value : List Char} {n : Nat}
    (h : stringTail? quote cs = some (value, n)) : Quoted quote (cs.take n) := by
  fun_induction stringTail? quote cs generalizing value n with
  | case1 | case2 | case4 => simp at h
  | case3 =>
    obtain ⟨-, rfl⟩ := Prod.mk.inj (Option.some.inj h)
    exact .close
  | case5 _ _ _ _ ih =>
    obtain ⟨⟨v, m⟩, hm, heq⟩ := Option.map_eq_some_iff.1 h
    obtain ⟨-, rfl⟩ := Prod.mk.inj heq
    exact .escape (ih hm)
  | case6 _ _ _ hquote hslash ih =>
    obtain ⟨⟨v, m⟩, hm, heq⟩ := Option.map_eq_some_iff.1 h
    obtain ⟨-, rfl⟩ := Prod.mk.inj heq
    exact .plain hquote hslash (ih hm)

theorem take_length_takeWhile (p : Char → Bool) (cs : List Char) :
    cs.take (cs.takeWhile p).length = cs.takeWhile p :=
  (List.prefix_iff_eq_take.1 (List.takeWhile_prefix p)).symm

/-- What is no string in a tag consists of characters that close none. -/
theorem inside_of_run {p : Char → Bool} (hp : ∀ c, p c = true → c ∉ ['"', '\'', '-', '%', '\x7d'])
    {c : Char} (hc : c ∉ ['"', '\'', '-', '%', '\x7d']) (cs ds : List Char) (hd : Inside ds) :
    Inside (c :: cs.take (cs.takeWhile p).length ++ ds) := by
  rw [take_length_takeWhile]
  refine .plain hc (hd.append ?_)
  intro d hm
  exact hp d (List.mem_takeWhile_imp hm)

theorem inner_sound {c : Char} {cs : List Char} {kind : PieceKind} {n : Nat}
    (h : inner c cs = .ok (kind, n)) :
    isInner kind = true ∧ ∀ ds, Inside ds → Inside (c :: cs.take n ++ ds) := by
  have plain : ∀ {p : Char → Bool}, ['"', '\'', '-', '%', '\x7d'].any p = false →
      ∀ d, p d = true → d ∉ ['"', '\'', '-', '%', '\x7d'] := by
    intro p hp d hd hm
    exact absurd hd (by simpa using List.any_eq_false.1 hp d hm)
  have hblank := plain (p := isTagBlank) rfl
  have hrest := plain (p := isNameRest) rfl
  simp only [inner] at h
  split at h
  · next hc =>
    obtain ⟨rfl, rfl⟩ := Prod.mk.inj (Except.ok.inj h)
    exact ⟨rfl, inside_of_run hblank (hblank c hc) cs⟩
  iterate 4
    split at h
    · next hc =>
      obtain ⟨rfl, rfl⟩ := Prod.mk.inj (Except.ok.inj h)
      exact ⟨rfl, fun ds hd => .plain (by simp [hc]) hd⟩
  split at h
  · next hc =>
    split at h
    · next value m hm =>
      obtain ⟨rfl, rfl⟩ := Prod.mk.inj (Except.ok.inj h)
      exact ⟨rfl, fun ds hd => .string hc (quoted_of_stringTail? hm) hd⟩
    · simp at h
  · split at h
    · next hc =>
      obtain ⟨rfl, rfl⟩ := Prod.mk.inj (Except.ok.inj h)
      exact ⟨rfl, inside_of_run hrest (plain (p := isNameStart) rfl c hc) cs⟩
    · simp at h

/-- The last piece of a tag, by what the tag is. -/
inductive ClosedBy : Mode → Piece → Prop
  | block {opened : Location} {p : Piece} {skips : Bool} :
      p.kind = .blockClose skips → p.chars = dashes skips ++ ['%', '\x7d'] →
      ClosedBy (.block opened) p
  | variable {opened : Location} {p : Piece} :
      p.kind = .varClose → p.chars = ['\x7d', '\x7d'] → ClosedBy (.variable opened) p

theorem closing?_sound {mode : Mode} (start : Cursor) {c : Char} {cs : List Char} {kind : PieceKind}
    {n : Nat} (h : closing? mode (c :: cs) = some (kind, n)) :
    ClosedBy mode ⟨kind, c :: cs.take n, start⟩ ∧ mode.after start.location kind = .text := by
  unfold closing? at h
  split at h
  · next hcs =>
    obtain ⟨rfl, rfl⟩ := Prod.mk.inj (Option.some.inj h)
    obtain ⟨rfl, rfl⟩ := List.cons.inj hcs
    exact ⟨.block rfl rfl, rfl⟩
  · next hcs =>
    obtain ⟨rfl, rfl⟩ := Prod.mk.inj (Option.some.inj h)
    obtain ⟨rfl, rfl⟩ := List.cons.inj hcs
    exact ⟨.block rfl rfl, rfl⟩
  · next hcs =>
    obtain ⟨rfl, rfl⟩ := Prod.mk.inj (Option.some.inj h)
    obtain ⟨rfl, rfl⟩ := List.cons.inj hcs
    exact ⟨.variable rfl rfl, rfl⟩
  · simp at h

theorem after_inner {mode : Mode} {start : Location} {kind : PieceKind} (h : isInner kind = true) :
    mode.after start kind = mode := by
  cases kind <;> first | rfl | simp [isInner] at h

/-- The pieces of a text that starts inside a tag: those up to the end of the tag, and the pieces of
the text after it. -/
theorem Cuts.inside {mode : Mode} {start : Cursor} {cs : List Char} {ps : List Piece}
    (h : Cuts mode start cs ps) (hm : mode ≠ .text) :
    ∃ inner last more inside rest start', ps = inner ++ last :: more ∧
      (∀ p ∈ inner, isInner p.kind = true) ∧ Inside inside ∧ cs = inside ++ (last.chars ++ rest) ∧
      ClosedBy mode last ∧ Cuts .text start' rest more := by
  induction h with
  | nil => exact absurd rfl hm
  | @cons mode start c cs kind n ps hn hps ih =>
    have hnext : closing? mode (c :: cs) = some (kind, n) ∨ Piece.inner c cs = .ok (kind, n) := by
      cases hc : closing? mode (c :: cs) with
      | none =>
        right
        cases mode with
        | text => exact absurd rfl hm
        | block opened => simpa only [next, hc] using hn
        | «variable» opened => simpa only [next, hc] using hn
      | some piece =>
        left
        cases mode with
        | text => exact absurd rfl hm
        | block opened => simpa [next, hc] using hn
        | «variable» opened => simpa [next, hc] using hn
    rcases hnext with hc | hi
    · obtain ⟨hclosed, htext⟩ := closing?_sound start hc
      rw [htext] at hps
      exact ⟨[], _, ps, [], cs.drop n, _, rfl, by simp, .nil, by simp, hclosed, hps⟩
    · obtain ⟨hkind, hinside⟩ := inner_sound hi
      rw [after_inner hkind] at hps ih
      obtain ⟨inner, last, more, inside, rest, start', rfl, hall, hins, hcs, hclosed, hmore⟩ :=
        ih hm
      refine ⟨_ :: inner, last, more, c :: cs.take n ++ inside, rest, start', rfl, ?_,
        hinside inside hins, ?_, hclosed, hmore⟩
      · exact List.forall_mem_cons.2 ⟨hkind, hall⟩
      · rw [List.append_assoc, ← hcs, List.cons_append, List.take_append_drop]

/-- The pieces that parts are made of, when all of each stretch is kept. -/
inductive Made : List Piece → List Part → Prop
  | nil : Made [] []
  | text {p : Piece} {ps : List Piece} {parts : List Part} :
      p.kind = .text → Made ps parts → Made (p :: ps) (.text ⟨[], p.chars, []⟩ :: parts)
  | comment {p : Piece} {ps : List Piece} {part : Part} {parts : List Part} :
      p.kind = .comment part.strips part.skips → part.isComment = true → Made ps parts →
      Made (p :: ps) (part :: parts)
  | block {first last : Piece} {inner ps : List Piece} {strips skips : Bool} {cs : List Char}
      {parts : List Part} :
      first.kind = .blockOpen strips → (∀ p ∈ inner, isInner p.kind = true) →
      last.kind = .blockClose skips → Made ps parts →
      Made (first :: (inner ++ last :: ps)) (.block strips skips cs :: parts)
  | variable {first last : Piece} {inner ps : List Piece} {cs : List Char} {parts : List Part} :
      first.kind = .varOpen → (∀ p ∈ inner, isInner p.kind = true) → last.kind = .varClose →
      Made ps parts → Made (first :: (inner ++ last :: ps)) (.variable cs :: parts)

theorem exists_brace {c : Char} {cs : List Char} (h : opens (c :: cs) = true) : c = '\x7b' := by
  by_contra hc
  simp [opens, hc] at h

/-- A tag and the layout after it. -/
theorem layout_block {cs inside rest : List Char} {n : Nat} {strips skips : Bool}
    {parts : List Part} (htake : cs.take n = '%' :: dashes strips)
    (hdrop : cs.drop n = inside ++ (dashes skips ++ ['%', '\x7d'] ++ rest))
    (hdash : strips = false → (cs.drop n).head? ≠ some '-')
    (hbare : ∀ s t tag, IsBare "comment".toList s t tag → ¬ tag <+: '\x7b' :: cs)
    (hi : Inside inside) (hl : Layout parts rest) :
    Layout (.block strips skips (tagChars strips skips inside) :: parts) ('\x7b' :: cs) := by
  have hcs : '\x7b' :: cs = tagChars strips skips inside ++ rest := by
    rw [← List.take_append_drop n cs, htake, hdrop]
    simp [tagChars]
  have hwritten : Written (.block strips skips (tagChars strips skips inside)) rest := by
    refine .block hi ?_ fun s t h => hbare s t _ h ⟨rest, hcs.symm⟩
    rintro rfl rfl
    by_contra hs
    have hhead : (cs.drop n).head? = some '-' := by rw [hdrop]; rfl
    exact hdash (by simpa using hs) hhead
  rw [hcs]
  exact .mark hwritten hl

theorem layout_variable {cs inside rest : List Char} {n : Nat} {parts : List Part}
    (htake : cs.take n = ['\x7b']) (hdrop : cs.drop n = inside ++ (['\x7d', '\x7d'] ++ rest))
    (hi : Inside inside) (hl : Layout parts rest) :
    Layout (.variable ('\x7b' :: '\x7b' :: (inside ++ ['\x7d', '\x7d'])) :: parts)
      ('\x7b' :: cs) := by
  let p : Part := .variable ('\x7b' :: '\x7b' :: (inside ++ ['\x7d', '\x7d']))
  have hcs : '\x7b' :: cs = p.chars ++ rest := by
    rw [← List.take_append_drop n cs, htake, hdrop]
    simp [p, Part.chars]
  rw [hcs]
  exact .mark (.variable hi) hl

/-- A text that can be cut has a layout, and its pieces are those of the layout. -/
theorem Cuts.layout {start : Cursor} {cs : List Char} {ps : List Piece}
    (h : Cuts .text start cs ps) : ∃ parts, Layout parts cs ∧ Made ps parts := by
  -- After a tag the pieces go on behind its end, so the induction is on their number.
  induction hlen : ps.length using Nat.strong_induction_on generalizing start cs ps with
  | _ len ih =>
    cases h with
    | nil => exact ⟨[], .nil, .nil⟩
    | @cons _ _ c cs kind n ps hn hps =>
      rw [List.length_cons] at hlen
      by_cases ho : opens (c :: cs) = true
      · obtain rfl := exists_brace ho
        have hopening : opening cs = .ok (kind, n) := by simpa [next, ho] using hn
        cases opened_of_opening ho hopening with
        | @comment p hp hc hw =>
          obtain ⟨parts, hl, hm⟩ := ih ps.length (by omega) hps rfl
          have hcs : '\x7b' :: cs = p.chars ++ cs.drop n := by
            rw [hc, List.cons_append, List.take_append_drop]
          exact ⟨p :: parts, hcs ▸ .mark hw hl, .comment rfl hp hm⟩
        | «variable» htake =>
          obtain ⟨inner, last, more, inside, rest, start', rfl, hall, hi, hdrop, hclosed, hmore⟩ :=
            Cuts.inside hps (by simp [Mode.after])
          rw [List.length_append, List.length_cons] at hlen
          obtain ⟨parts, hl, hm⟩ := ih more.length (by omega) hmore rfl
          cases hclosed with
          | «variable» hkind hchars =>
            rw [hchars] at hdrop
            exact ⟨_, layout_variable htake hdrop hi hl, .variable rfl hall hkind hm⟩
        | @block strips htake hdash hbare =>
          obtain ⟨inner, last, more, inside, rest, start', rfl, hall, hi, hdrop, hclosed, hmore⟩ :=
            Cuts.inside hps (by simp [Mode.after])
          rw [List.length_append, List.length_cons] at hlen
          obtain ⟨parts, hl, hm⟩ := ih more.length (by omega) hmore rfl
          cases hclosed with
          | block hkind hchars =>
            rw [hchars] at hdrop
            exact ⟨_, layout_block htake hdrop hdash hbare hi hl, .block rfl hall hkind hm⟩
      · have ho : opens (c :: cs) = false := by simpa using ho
        obtain ⟨rfl, rfl⟩ : kind = .text ∧ n = stretch cs := by simpa [next, ho, eq_comm] using hn
        obtain ⟨parts, hl, hm⟩ := ih ps.length (by omega) hps rfl
        let s : Stretch := ⟨[], c :: cs.take (stretch cs), []⟩
        have hchars : s.chars = c :: cs.take (stretch cs) := by simp [s, Stretch.chars]
        have hcs : c :: cs = s.chars ++ cs.drop (stretch cs) := by
          rw [hchars, List.cons_append, List.take_append_drop]
        have hs : IsStretch s.chars (cs.drop (stretch cs)) := hchars ▸ isStretch_stretch ho
        exact ⟨.text s :: parts, hcs ▸ .text hs hl, .text rfl hm⟩

end CodeTemplate.Piece

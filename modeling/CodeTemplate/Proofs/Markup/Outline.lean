import CodeTemplate.Markup.Piece

/-! How template text is laid out: stretches of text, each as long as it can be, and between them
comments, commented regions and tags, each up to the first end that it can have. A text has one such
layout at most. -/

namespace CodeTemplate.Outline

open Piece (opens)
open Text (isSpace)

/-- A stretch of text: what is kept of it, and what is dropped before and after that. -/
structure Stretch where
  front : List Char
  kept : List Char
  back : List Char

def Stretch.chars (s : Stretch) : List Char := s.front ++ (s.kept ++ s.back)

/-- What template text is made of. The flags tell whether a dash after the opening delimiter removes
the blanks before it, and whether one before the closing delimiter removes the rest of the line. -/
inductive Part where
  | text (s : Stretch)
  | comment (cs : List Char)
  | region (strips skips : Bool) (cs : List Char)
  | block (strips skips : Bool) (cs : List Char)
  | variable (cs : List Char)

namespace Part

def chars : Part → List Char
  | text s => s.chars
  | comment cs | region _ _ cs | block _ _ cs | «variable» cs => cs

def strips : Part → Bool
  | region strips _ _ | block strips _ _ => strips
  | _ => false

def skips : Part → Bool
  | region _ skips _ | block _ skips _ => skips
  | _ => false

/-- Whether the part is a comment or a commented region. -/
def isComment : Part → Bool
  | comment _ | region .. => true
  | _ => false

/-- The part with all of a stretch kept. -/
def uncut : Part → Part
  | text s => text ⟨[], s.chars, []⟩
  | p => p

end Part

/-- A dash, if there is one. -/
def dashes (b : Bool) : List Char := if b then ['-'] else []

/-- A tag from its opening to its closing delimiter. -/
def tagChars (strips skips : Bool) (inside : List Char) : List Char :=
  '\x7b' :: '%' :: (dashes strips ++ (inside ++ (dashes skips ++ ['%', '\x7d'])))

/-- A tag that has one word and maybe spaces around it. -/
def IsBare (word : List Char) (strips skips : Bool) (cs : List Char) : Prop :=
  ∃ before after, (∀ c ∈ before ++ after, isSpace c = true) ∧
    cs = tagChars strips skips (before ++ (word ++ after))

/-- The inside of a string and the quote that closes it. -/
inductive Quoted (quote : Char) : List Char → Prop
  | close : Quoted quote [quote]
  | plain {c : Char} {cs : List Char} :
      c ≠ quote → c ≠ '\\' → Quoted quote cs → Quoted quote (c :: cs)
  | escape {c : Char} {cs : List Char} : Quoted quote cs → Quoted quote ('\\' :: c :: cs)

/-- The inside of a tag: strings, and characters that close no tag. -/
inductive Inside : List Char → Prop
  | nil : Inside []
  | plain {c : Char} {cs : List Char} :
      c ∉ ['"', '\'', '-', '%', '\x7d'] → Inside cs → Inside (c :: cs)
  | string {quote : Char} {body cs : List Char} :
      quote = '"' ∨ quote = '\'' → Quoted quote body → Inside cs → Inside (quote :: (body ++ cs))

/-- Between `before` and `rest` stands the first text that has `P`: none starts in `before`. -/
structure First (P : List Char → Prop) (before found rest : List Char) : Prop where
  here : P found
  notBefore : ∀ a b, before = a ++ b → b ≠ [] → ∀ cs, P cs → ¬ cs <+: b ++ (found ++ rest)

/-- A part that is no text, as it is written before `rest`. A dash in an empty tag belongs to the
opening delimiter. -/
inductive Written : Part → List Char → Prop
  | comment {body rest : List Char} :
      First (· = ['#', '\x7d']) body ['#', '\x7d'] rest →
      Written (.comment ('\x7b' :: '#' :: (body ++ ['#', '\x7d']))) rest
  | region {strips skips s t : Bool} {tag body close rest : List Char} :
      IsBare "comment".toList strips s tag →
      First (fun cs => ∃ s t, IsBare "endcomment".toList s t cs) body close rest →
      IsBare "endcomment".toList t skips close →
      Written (.region strips skips (tag ++ (body ++ close))) rest
  | block {strips skips : Bool} {inside rest : List Char} :
      Inside inside → (inside = [] → skips = true → strips = true) →
      (∀ s t, ¬ IsBare "comment".toList s t (tagChars strips skips inside)) →
      Written (.block strips skips (tagChars strips skips inside)) rest
  | variable {inside rest : List Char} :
      Inside inside → Written (.variable ('\x7b' :: '\x7b' :: (inside ++ ['\x7d', '\x7d']))) rest

/-- Text before `rest`, as much as can be: no delimiter opens anything in it, and `rest` is nothing
or starts with a delimiter that does. -/
structure IsStretch (cs rest : List Char) : Prop where
  ne_nil : cs ≠ []
  plain : ∀ a b, cs = a ++ b → b ≠ [] → opens (b ++ rest) = false
  stops : rest = [] ∨ opens rest = true

/-- The parts that make up a text. -/
inductive Layout : List Part → List Char → Prop
  | nil : Layout [] []
  | text {s : Stretch} {ps : List Part} {rest : List Char} :
      IsStretch s.chars rest → Layout ps rest → Layout (.text s :: ps) (s.chars ++ rest)
  | mark {p : Part} {ps : List Part} {rest : List Char} :
      Written p rest → Layout ps rest → Layout (p :: ps) (p.chars ++ rest)

/-! ### Where tags end -/

theorem Quoted.unique {quote : Char} (hq : quote ≠ '\\') {as bs xs ys : List Char}
    (ha : Quoted quote as) (hb : Quoted quote bs) (h : as ++ xs = bs ++ ys) : as = bs := by
  induction ha generalizing bs with
  | close =>
    cases hb with
    | close => rfl
    | plain hc _ _ => exact absurd (List.cons.inj h).1.symm hc
    | escape _ => exact absurd (List.cons.inj h).1 hq
  | plain hc hs _ ih =>
    cases hb with
    | close => exact absurd (List.cons.inj h).1 hc
    | plain _ _ hb =>
      obtain ⟨rfl, htail⟩ := List.cons.inj h
      rw [ih hb htail]
    | escape _ => exact absurd (List.cons.inj h).1 hs
  | escape _ ih =>
    cases hb with
    | close => exact absurd (List.cons.inj h).1.symm hq
    | plain _ hs _ => exact absurd (List.cons.inj h).1.symm hs
    | escape hb =>
      obtain ⟨rfl, htail⟩ := List.cons.inj (List.cons.inj h).2
      rw [ih hb htail]

/-- The text starts with what closes a tag. -/
def Closes (cs : List Char) : Prop := ∃ c ds, cs = c :: ds ∧ c ∈ ['-', '%', '\x7d']

theorem closes_dashes {b : Bool} {cs : List Char} (h : Closes cs) : Closes (dashes b ++ cs) := by
  cases b with
  | false => exact h
  | true => exact ⟨'-', cs, rfl, by decide⟩

/-- What is inside of a tag does not start as what closes it. -/
theorem Inside.not_closes {cs xs : List Char} (h : Inside cs) (hc : Closes (cs ++ xs)) :
    cs = [] := by
  obtain ⟨c, ds, heq, hm⟩ := hc
  cases h with
  | nil => rfl
  | plain hn _ =>
    obtain ⟨rfl, -⟩ := List.cons.inj heq
    simp only [List.mem_cons, List.not_mem_nil, or_false, not_or] at hm hn
    rcases hm with h | h | h
    · exact absurd h hn.2.2.1
    · exact absurd h hn.2.2.2.1
    · exact absurd h hn.2.2.2.2
  | string hq _ _ =>
    obtain ⟨rfl, -⟩ := List.cons.inj heq
    rcases hq with rfl | rfl <;> exact absurd hm (by decide)

theorem Inside.unique {as bs xs ys : List Char} (ha : Inside as) (hb : Inside bs)
    (hx : Closes xs) (hy : Closes ys) (h : as ++ xs = bs ++ ys) : as = bs := by
  induction ha generalizing bs with
  | nil =>
    have hbs : Closes (bs ++ ys) := h ▸ hx
    exact (hb.not_closes hbs).symm
  | @plain c cs hc ha ih =>
    cases hb with
    | nil =>
      have hcs : Closes (c :: cs ++ xs) := h ▸ hy
      exact Inside.not_closes (.plain hc ha) hcs
    | plain _ hb =>
      obtain ⟨rfl, htail⟩ := List.cons.inj h
      rw [ih hb htail]
    | string hq _ _ =>
      obtain ⟨rfl, -⟩ := List.cons.inj h
      rcases hq with rfl | rfl <;> exact absurd hc (by decide)
  | @string quote body cs hq ha hi ih =>
    cases hb with
    | nil =>
      have hcs : Closes (quote :: (body ++ cs) ++ xs) := h ▸ hy
      exact Inside.not_closes (.string hq ha hi) hcs
    | plain hc _ =>
      obtain ⟨rfl, -⟩ := List.cons.inj h
      rcases hq with rfl | rfl <;> exact absurd hc (by decide)
    | @string _ body' cs' _ hb hi' =>
      obtain ⟨rfl, htail⟩ := List.cons.inj h
      have htail : body ++ (cs ++ xs) = body' ++ (cs' ++ ys) := by simpa using htail
      have hne : quote ≠ '\\' := by
        rintro rfl
        exact absurd hq (by decide)
      obtain rfl := ha.unique hne hb htail
      rw [ih hi' (List.append_cancel_left htail)]

theorem closes_end (b : Bool) (rest : List Char) :
    Closes (dashes b ++ ('%' :: '\x7d' :: rest)) :=
  closes_dashes ⟨'%', _, rfl, by decide⟩

theorem tagChars_append {strips skips : Bool} {inside rest : List Char} :
    tagChars strips skips inside ++ rest = '\x7b' :: '%' ::
      (dashes strips ++ (inside ++ (dashes skips ++ '%' :: '\x7d' :: rest))) := by
  simp [tagChars]

/-- One tag starts a text, at most. -/
theorem tagChars_unique {strips strips' skips skips' : Bool} {as bs xs ys : List Char}
    (ha : Inside as) (hb : Inside bs) (hea : as = [] → skips = true → strips = true)
    (heb : bs = [] → skips' = true → strips' = true)
    (h : tagChars strips skips as ++ xs = tagChars strips' skips' bs ++ ys) :
    strips = strips' ∧ skips = skips' ∧ as = bs := by
  rw [tagChars_append, tagChars_append] at h
  have h := (List.cons.inj (List.cons.inj h).2).2
  have hs : strips = strips' := by
    cases strips with
    | false =>
      cases strips' with
      | false => rfl
      | true =>
        have hc : Closes (as ++ (dashes skips ++ '%' :: '\x7d' :: xs)) :=
          h ▸ ⟨'-', _, rfl, by decide⟩
        obtain rfl := ha.not_closes hc
        cases skips with
        | false => simp [dashes] at h
        | true => simpa using hea rfl rfl
    | true =>
      cases strips' with
      | true => rfl
      | false =>
        have hc : Closes (bs ++ (dashes skips' ++ '%' :: '\x7d' :: ys)) :=
          h ▸ ⟨'-', _, rfl, by decide⟩
        obtain rfl := hb.not_closes hc
        cases skips' with
        | false => simp [dashes] at h
        | true => simpa using heb rfl rfl
  subst hs
  have h := List.append_cancel_left h
  obtain rfl := ha.unique hb (closes_end _ _) (closes_end _ _) h
  have h := List.append_cancel_left h
  refine ⟨rfl, ?_, rfl⟩
  cases skips <;> cases skips' <;> simp [dashes] at h ⊢

theorem Inside.append {cs ds : List Char} (h : ∀ c ∈ cs, c ∉ ['"', '\'', '-', '%', '\x7d'])
    (hd : Inside ds) : Inside (cs ++ ds) := by
  induction cs with
  | nil => exact hd
  | cons c cs ih =>
    exact .plain (h c List.mem_cons_self) (ih fun d hd => h d (List.mem_cons_of_mem _ hd))

theorem plain_of_isSpace {c : Char} (h : isSpace c = true) : c ∉ ['"', '\'', '-', '%', '\x7d'] := by
  intro hm
  simp only [List.mem_cons, List.not_mem_nil, or_false] at hm
  rcases hm with rfl | rfl | rfl | rfl | rfl <;> exact absurd h (by decide)

/-- A word that a tag can be made of. -/
structure IsWord (word : List Char) : Prop where
  ne_nil : word ≠ []
  plain : ∀ c ∈ word, c ∉ ['"', '\'', '-', '%', '\x7d']
  unspaced : ∀ c ∈ word, isSpace c = false

theorem isWord_comment : IsWord "comment".toList where
  ne_nil := by simp
  plain := by simp
  unspaced c hc := by
    simpa using List.any_eq_false.1 (rfl : "comment".toList.any isSpace = false) c hc

theorem isWord_endcomment : IsWord "endcomment".toList where
  ne_nil := by simp
  plain := by simp
  unspaced c hc := by
    simpa using List.any_eq_false.1 (rfl : "endcomment".toList.any isSpace = false) c hc

theorem IsWord.plain_spaced {word before after : List Char} (hw : IsWord word)
    (hs : ∀ c ∈ before ++ after, isSpace c = true) :
    ∀ c ∈ before ++ (word ++ after), c ∉ ['"', '\'', '-', '%', '\x7d'] := by
  intro c hc
  rw [List.mem_append, List.mem_append] at hc
  rcases hc with hc | hc | hc
  · exact plain_of_isSpace (hs c (List.mem_append_left _ hc))
  · exact hw.plain c hc
  · exact plain_of_isSpace (hs c (List.mem_append_right _ hc))

theorem IsBare.exists_inside {word cs : List Char} {strips skips : Bool} (hw : IsWord word)
    (h : IsBare word strips skips cs) :
    ∃ inside, Inside inside ∧ inside ≠ [] ∧ cs = tagChars strips skips inside := by
  obtain ⟨before, after, hs, rfl⟩ := h
  refine ⟨_, ?_, ?_, rfl⟩
  · rw [← List.append_nil (before ++ (word ++ after))]
    exact Inside.append (hw.plain_spaced hs) .nil
  · simp [hw.ne_nil]

/-- One tag of one word starts a text, at most. -/
theorem IsBare.unique {word word' cs ds xs ys : List Char} {strips skips strips' skips' : Bool}
    (hw : IsWord word) (hw' : IsWord word') (hc : IsBare word strips skips cs)
    (hd : IsBare word' strips' skips' ds) (h : cs ++ xs = ds ++ ys) :
    strips = strips' ∧ skips = skips' ∧ cs = ds := by
  obtain ⟨as, ha, hna, rfl⟩ := hc.exists_inside hw
  obtain ⟨bs, hb, hnb, rfl⟩ := hd.exists_inside hw'
  obtain ⟨rfl, rfl, rfl⟩ :=
    tagChars_unique ha hb (fun h => absurd h hna) (fun h => absurd h hnb) h
  exact ⟨rfl, rfl, rfl⟩

theorem First.unique {P : List Char → Prop} {as bs cs ds xs ys : List Char} (hx : First P as cs xs)
    (hy : First P bs ds ys) (h : as ++ (cs ++ xs) = bs ++ (ds ++ ys)) : as = bs := by
  rcases List.append_eq_append_iff.1 h with ⟨more, rfl, heq⟩ | ⟨more, rfl, heq⟩
  · by_cases hm : more = []
    · simp [hm]
    · exact absurd ⟨xs, heq⟩ (hy.notBefore as more rfl hm cs hx.here)
  · by_cases hm : more = []
    · simp [hm]
    · exact absurd ⟨ys, heq⟩ (hx.notBefore bs more rfl hm ds hy.here)

/-! ### One layout -/

/-- One part that is no text starts a text, at most. -/
theorem Written.unique {p q : Part} {xs ys : List Char} (hp : Written p xs) (hq : Written q ys)
    (h : p.chars ++ xs = q.chars ++ ys) : p = q := by
  cases hp with
  | @comment body _ hf =>
    cases hq with
    | @comment body' _ hf' =>
      have h : body ++ (['#', '\x7d'] ++ xs) = body' ++ (['#', '\x7d'] ++ ys) := by
        simpa [Part.chars] using h
      rw [hf.unique hf' h]
    | region ht _ _ =>
      obtain ⟨_, _, -, rfl⟩ := ht
      simp [Part.chars, tagChars] at h
    | block => simp [Part.chars, tagChars] at h
    | «variable» => simp [Part.chars] at h
  | @region strips skips _ _ tag body close _ ht hf hc =>
    cases hq with
    | comment =>
      obtain ⟨_, _, -, rfl⟩ := ht
      simp [Part.chars, tagChars] at h
    | @region strips' skips' _ _ tag' body' close' _ ht' hf' hc' =>
      simp only [Part.chars, List.append_assoc] at h
      obtain ⟨rfl, -, rfl⟩ := ht.unique isWord_comment isWord_comment ht' h
      have h := List.append_cancel_left h
      obtain rfl := hf.unique hf' h
      have h := List.append_cancel_left h
      obtain ⟨-, rfl, rfl⟩ := hc.unique isWord_endcomment isWord_endcomment hc' h
      rfl
    | block hi he hn =>
      obtain ⟨inside, hi', hne, rfl⟩ := ht.exists_inside isWord_comment
      simp only [Part.chars, List.append_assoc] at h
      obtain ⟨rfl, rfl, rfl⟩ := tagChars_unique hi' hi (fun h => absurd h hne) he h
      exact absurd ht (hn _ _)
    | «variable» =>
      obtain ⟨_, _, -, rfl⟩ := ht
      simp [Part.chars, tagChars] at h
  | block hi he hn =>
    cases hq with
    | comment => simp [Part.chars, tagChars] at h
    | region ht _ _ =>
      obtain ⟨inside, hi', hne, rfl⟩ := ht.exists_inside isWord_comment
      simp only [Part.chars, List.append_assoc] at h
      obtain ⟨rfl, rfl, rfl⟩ := tagChars_unique hi hi' he (fun h => absurd h hne) h
      exact absurd ht (hn _ _)
    | block hi' he' _ =>
      obtain ⟨rfl, rfl, rfl⟩ := tagChars_unique hi hi' he he' h
      rfl
    | «variable» => simp [Part.chars, tagChars] at h
  | @«variable» inside _ hi =>
    cases hq with
    | comment => simp [Part.chars] at h
    | region ht _ _ =>
      obtain ⟨_, _, -, rfl⟩ := ht
      simp [Part.chars, tagChars] at h
    | block => simp [Part.chars, tagChars] at h
    | @«variable» inside' _ hi' =>
      have h : inside ++ ('\x7d' :: '\x7d' :: xs) = inside' ++ ('\x7d' :: '\x7d' :: ys) := by
        simpa [Part.chars] using h
      have hcloses : ∀ rest, Closes ('\x7d' :: '\x7d' :: rest) := fun rest =>
        ⟨'\x7d', _, rfl, by decide⟩
      rw [hi.unique hi' (hcloses xs) (hcloses ys) h]

theorem Written.opens {p : Part} {rest : List Char} (h : Written p rest) :
    Piece.opens (p.chars ++ rest) = true := by
  cases h with
  | comment => rfl
  | region ht _ _ =>
    obtain ⟨_, _, -, rfl⟩ := ht
    rfl
  | block => rfl
  | «variable» => rfl

theorem IsStretch.unique {as bs xs ys : List Char} (ha : IsStretch as xs) (hb : IsStretch bs ys)
    (h : as ++ xs = bs ++ ys) : as = bs := by
  rcases List.append_eq_append_iff.1 h with ⟨more, rfl, rfl⟩ | ⟨more, rfl, rfl⟩
  · by_cases hm : more = []
    · simp [hm]
    · have hopens := hb.plain as more rfl hm
      rcases ha.stops with hs | hs
      · simp [hm] at hs
      · simp [hs] at hopens
  · by_cases hm : more = []
    · simp [hm]
    · have hopens := ha.plain bs more rfl hm
      rcases hb.stops with hs | hs
      · simp [hm] at hs
      · simp [hs] at hopens

theorem IsStretch.not_opens {cs rest : List Char} (h : IsStretch cs rest) :
    opens (cs ++ rest) = false :=
  h.plain [] cs rfl h.ne_nil

/-- A text has one layout at most, whatever is dropped of its stretches. -/
theorem Layout.unique {ps qs : List Part} {cs ds : List Char} (hp : Layout ps cs)
    (hq : Layout qs ds) (h : cs = ds) : ps.map Part.uncut = qs.map Part.uncut := by
  induction hp generalizing qs ds with
  | nil =>
    cases hq with
    | nil => rfl
    | text hs _ => exact absurd h.symm (by simp [hs.ne_nil])
    | mark hw _ =>
      have hopens := hw.opens
      simp [← h, opens] at hopens
  | @text s ps rest hs _ ih =>
    cases hq with
    | nil => exact absurd h (by simp [hs.ne_nil])
    | @text s' ps' rest' hs' hl' =>
      have hchars := hs.unique hs' h
      rw [hchars] at h
      simp only [List.map_cons, Part.uncut, hchars, ih hl' (List.append_cancel_left h)]
    | mark hw _ => exact absurd (hs.not_opens.symm.trans (h ▸ hw.opens)) (by decide)
  | mark hw _ ih =>
    cases hq with
    | nil =>
      have hopens := hw.opens
      simp [h, opens] at hopens
    | text hs _ => exact absurd (hs.not_opens.symm.trans (h ▸ hw.opens)) (by decide)
    | mark hw' hl' =>
      obtain rfl := hw.unique hw' h
      simp only [List.map_cons, ih hl' (List.append_cancel_left h)]

/-- What is dropped of the stretches does not matter to the layout. -/
theorem Layout.of_uncut {ps qs : List Part} {cs : List Char} (h : Layout ps cs)
    (heq : qs.map Part.uncut = ps.map Part.uncut) : Layout qs cs := by
  induction h generalizing qs with
  | nil =>
    obtain rfl : qs = [] := by simpa using heq
    exact .nil
  | @text s ps rest hs _ ih =>
    obtain ⟨q, qs, rfl, hq, hqs⟩ := List.map_eq_cons_iff.1 heq
    cases q with
    | text s' =>
      have hchars : s'.chars = s.chars := by simpa [Part.uncut] using hq
      rw [← hchars] at hs ⊢
      exact .text hs (ih hqs)
    | _ => simp [Part.uncut] at hq
  | @mark p ps rest hw _ ih =>
    obtain ⟨q, qs, rfl, hq, hqs⟩ := List.map_eq_cons_iff.1 heq
    have hp : p.uncut = p := by cases hw <;> rfl
    rw [hp] at hq
    cases q with
    | text s =>
      obtain rfl := hq
      cases hw
    | _ =>
      obtain rfl := hq
      exact .mark hw (ih hqs)

/-! ### Dashes -/

theorem infix_tagChars_strips (skips : Bool) (inside : List Char) :
    ['\x7b', '%', '-'] <:+: tagChars true skips inside :=
  ⟨[], inside ++ (dashes skips ++ ['%', '\x7d']), rfl⟩

theorem infix_tagChars_skips (strips : Bool) (inside : List Char) :
    ['-', '%', '\x7d'] <:+: tagChars strips true inside :=
  ⟨'\x7b' :: '%' :: (dashes strips ++ inside), [], by simp [tagChars, dashes]⟩

theorem Written.infix_strips {p : Part} {rest : List Char} (h : Written p rest)
    (hs : p.strips = true) : ['\x7b', '%', '-'] <:+: p.chars := by
  cases h with
  | comment => simp [Part.strips] at hs
  | region ht _ _ =>
    obtain ⟨before, after, -, rfl⟩ := ht
    obtain rfl : _ = true := hs
    exact (infix_tagChars_strips _ _).trans (List.prefix_append _ _).isInfix
  | block =>
    obtain rfl : _ = true := hs
    exact infix_tagChars_strips _ _
  | «variable» => simp [Part.strips] at hs

theorem Written.infix_skips {p : Part} {rest : List Char} (h : Written p rest)
    (hs : p.skips = true) : ['-', '%', '\x7d'] <:+: p.chars := by
  cases h with
  | comment => simp [Part.skips] at hs
  | @region _ _ _ _ tag body close _ _ _ hc =>
    have hclose : ['-', '%', '\x7d'] <:+: close := by
      obtain ⟨before, after, -, rfl⟩ := hc
      obtain rfl : _ = true := hs
      exact infix_tagChars_skips _ _
    have hbody : body ++ close <:+: tag ++ (body ++ close) := (List.suffix_append _ _).isInfix
    exact (hclose.trans (List.suffix_append _ _).isInfix).trans hbody
  | block =>
    obtain rfl : _ = true := hs
    exact infix_tagChars_skips _ _
  | «variable» => simp [Part.skips] at hs

/-- Each part of a layout is in the text. A part with a dash is no text, and is written so. -/
theorem Layout.mem {ps : List Part} {cs : List Char} (h : Layout ps cs) {p : Part} (hp : p ∈ ps) :
    p.chars <:+: cs ∧ ((∃ s, p = .text s ∧ s.chars ≠ []) ∨ ∃ rest, Written p rest) := by
  induction h with
  | nil => simp at hp
  | @text s ps rest hs _ ih =>
    rcases List.mem_cons.1 hp with rfl | hp
    · exact ⟨(List.prefix_append _ _).isInfix, .inl ⟨s, rfl, hs.ne_nil⟩⟩
    · obtain ⟨hi, hw⟩ := ih hp
      exact ⟨hi.trans (List.suffix_append _ _).isInfix, hw⟩
  | @mark q ps rest hw _ ih =>
    rcases List.mem_cons.1 hp with rfl | hp
    · exact ⟨(List.prefix_append _ _).isInfix, .inr ⟨rest, hw⟩⟩
    · obtain ⟨hi, hw⟩ := ih hp
      exact ⟨hi.trans (List.suffix_append _ _).isInfix, hw⟩

/-- A text without an opening delimiter with a dash has no part that strips. -/
theorem Layout.not_strips {ps : List Part} {cs : List Char} (h : Layout ps cs)
    (hd : ¬ ['\x7b', '%', '-'] <:+: cs) {p : Part} (hp : p ∈ ps) : p.strips = false := by
  obtain ⟨hi, ⟨s, rfl, -⟩ | ⟨rest, hw⟩⟩ := h.mem hp
  · rfl
  · refine Bool.eq_false_iff.2 fun hs => ?_
    exact hd ((hw.infix_strips hs).trans hi)

theorem Layout.not_skips {ps : List Part} {cs : List Char} (h : Layout ps cs)
    (hd : ¬ ['-', '%', '\x7d'] <:+: cs) {p : Part} (hp : p ∈ ps) : p.skips = false := by
  obtain ⟨hi, ⟨s, rfl, -⟩ | ⟨rest, hw⟩⟩ := h.mem hp
  · rfl
  · refine Bool.eq_false_iff.2 fun hs => ?_
    exact hd ((hw.infix_skips hs).trans hi)

end CodeTemplate.Outline

import Mathlib.Data.List.Forall2
import CodeTemplate.Proofs.Markup.Bracket

/-! Offsets of tokens. The tokens of a text stand one behind the other where their locations say,
each at what it is made of, and a block tag has the blanks that start its line. Offsets count 16-bit
units. -/

namespace CodeTemplate

/-- The blanks that start the line which a text ends in. -/
def indentAfter (before : List Char) : String :=
  String.ofList ((before.rtakeWhile (· != '\n')).takeWhile Text.isIndent)

theorem indentAfter_newline (before : List Char) : indentAfter (before ++ ['\n']) = "" := by
  simp [indentAfter]

theorem indentAfter_concat {before : List Char} {c : Char} (hc : c ≠ '\n') :
    indentAfter (before ++ [c]) =
      if (before.rtakeWhile (· != '\n')).all Text.isIndent && Text.isIndent c
      then (indentAfter before).push c else indentAfter before := by
  have hline : (before ++ [c]).rtakeWhile (· != '\n') = before.rtakeWhile (· != '\n') ++ [c] :=
    List.rtakeWhile_concat_pos _ _ _ (by simpa using hc)
  simp only [indentAfter, hline, List.takeWhile_append, List.takeWhile_cons, List.takeWhile_nil]
  by_cases hall : (before.rtakeWhile (· != '\n')).all Text.isIndent = true
  · have hself := List.takeWhile_eq_self_iff.2 (List.all_eq_true.1 hall)
    rw [hall, hself, if_pos rfl, Bool.true_and]
    split
    · exact String.toList_inj.1 (by simp)
    · rw [List.append_nil]
  · have hlength : ¬ ((before.rtakeWhile (· != '\n')).takeWhile Text.isIndent).length =
        (before.rtakeWhile (· != '\n')).length := fun he =>
      hall (List.all_eq_true.2 (List.takeWhile_eq_self_iff.1
        ((List.takeWhile_prefix _).eq_of_length he)))
    rw [if_neg hlength, if_neg (by simp [hall])]

/-- A further blank belongs to the indent if the line has nothing but blanks. -/
theorem Cursor.indent_behind (before : List Char) :
    (behind before).indent = indentAfter before ∧
      (behind before).leading = (before.rtakeWhile (· != '\n')).all Text.isIndent := by
  induction before using List.reverseRecOn with
  | nil => exact ⟨rfl, by simp [behind, past]⟩
  | append_singleton before c ih =>
    have hstep : behind (before ++ [c]) = (behind before).advance c := behind_append before [c]
    obtain ⟨hindent, hleading⟩ := ih
    rw [hstep, advance]
    by_cases hc : c = '\n'
    · simp [hc, indentAfter_newline]
    · have hline : (before ++ [c]).rtakeWhile (· != '\n') =
          before.rtakeWhile (· != '\n') ++ [c] :=
        List.rtakeWhile_concat_pos _ _ _ (by simpa using hc)
      simp only [if_neg hc, hindent, hleading, indentAfter_concat hc, hline, List.all_append,
        List.all_cons, List.all_nil, Bool.and_true, and_self]

namespace Text

theorem charUnits_pos (c : Char) : 0 < charUnits c := by
  unfold charUnits
  split <;> decide

theorem unitsOf_pos {cs : List Char} (h : cs ≠ []) : 0 < unitsOf cs := by
  obtain ⟨c, cs, rfl⟩ := List.exists_cons_of_ne_nil h
  exact Nat.add_pos_left (charUnits_pos c) _

end Text

namespace Token

/-- What the text goes on with where the token stands: its value or, for a string, the opening
quote. The last token stands at the end of the text. -/
def Carried (t : Token) (rest : List Char) : Prop :=
  match t.kind with
  | .eof => rest = []
  | .string => ∃ quote ds, rest = quote :: ds ∧ (quote = '"' ∨ quote = '\'')
  | _ => ∃ value, t.value = some value ∧ value.toList <+: rest

/-- The token stands between the two parts of a text. -/
structure Standing (t : Token) (before rest : List Char) : Prop where
  location : t.location = .after before
  carried : t.Carried rest
  indent : t.indent = if t.kind = .blockOpen then indentAfter before else ""

/-- The token stands in the text, with so many units before it. -/
def StandsAt (text : List Char) (t : Token) (offset : Nat) : Prop :=
  ∃ before rest, text = before ++ rest ∧ Text.unitsOf before = offset ∧ t.Standing before rest

variable {t : Token} {ts : List Token} {p : Piece} {text before rest : List Char}

/-! ### One token -/

theorem Heads.carried (h : t.Heads rest) (hb : t.kind = .blockOpen → t.value = some "\x7b%")
    (hv : t.kind = .varOpen → t.value = some "\x7b\x7b") : t.Carried rest := by
  cases hk : t.kind <;> simp only [Heads, Carried, hk] at h ⊢ <;> try exact h
  · exact ⟨_, hb hk, h⟩
  · exact ⟨_, hv hk, h⟩

theorem carried_shortened {value shorter : String} (hk : t.kind = .text)
    (hv : t.value = some value) (hpre : shorter.toList <+: value.toList) (h : t.Carried rest) :
    Carried { t with value := some shorter } rest := by
  simp only [Carried, hk, hv, Option.some.injEq, exists_eq_left'] at h ⊢
  exact hpre.trans h

theorem StandsAt.shortened {value shorter : String} {offset : Nat} (hk : t.kind = .text)
    (hv : t.value = some value) (hpre : shorter.toList <+: value.toList)
    (h : t.StandsAt text offset) : StandsAt text { t with value := some shorter } offset := by
  obtain ⟨before, rest, htext, hoffset, hl, hc, hi⟩ := h
  exact ⟨before, rest, htext, hoffset, hl, carried_shortened hk hv hpre hc, hi⟩

/-- The token stands at some character of the piece, with the texts around the piece around it. -/
def StandsIn (t : Token) (p : Piece) (before rest : List Char) : Prop :=
  ∃ front back, p.chars = front ++ back ∧ back ≠ [] ∧ t.Standing (before ++ front) (back ++ rest)

theorem StartsIn.standsIn (h : t.StartsIn p rest) (hp : p.chars ≠ [])
    (hstart : p.start = .behind before) (hk : t.kind ≠ .blockOpen) (hi : t.indent = "")
    (hv : t.kind = .varOpen → t.value = some "\x7b\x7b") : t.StandsIn p before rest := by
  obtain ⟨front, back, hchars, hback, hl, ht⟩ := h
  refine ⟨front, back, hchars, hback hp, ?_, ht.carried (fun hb => absurd hb hk) hv, ?_⟩
  · rw [hl, hstart, ← Cursor.behind_append, Cursor.location_behind]
  · rw [if_neg hk, hi]

theorem standsIn_of_ofPiece? (h : p.kind.Heads p.chars) (hp : p.chars ≠ [])
    (hstart : p.start = .behind before) (rest : List Char) :
    ∀ t ∈ (ofPiece? p).toList, t.StandsIn p before rest := by
  intro t ht
  have hin := startsIn_of_ofPiece? h rest t ht
  rw [Option.mem_toList] at ht
  cases hk : p.kind with
  | text | comment | blanks => simp [ofPiece?, hk] at ht
  | blockOpen =>
    -- The indent is that of the place where the piece starts, so the token has to start there.
    obtain rfl : _ = t := by simpa [ofPiece?, hk] using ht
    rw [hk] at h
    have hpre : ['\x7b', '%'] <+: p.chars := h
    refine ⟨[], p.chars, rfl, hp, ?_, ⟨_, rfl, hpre.trans (List.prefix_append _ rest)⟩, ?_⟩
    · rw [List.append_nil, ← Cursor.location_behind, ← hstart]
    · rw [if_pos rfl, List.append_nil, hstart, (Cursor.indent_behind before).1]
  | varOpen =>
    obtain rfl : _ = t := by simpa [ofPiece?, hk] using ht
    rw [hk] at h
    have hchars : p.chars = ['\x7b', '\x7b'] := h
    exact hin.standsIn hp hstart (by simp) rfl (fun _ => by rw [hchars])
  | _ =>
    obtain rfl : _ = t := by simpa [ofPiece?, hk] using ht
    exact hin.standsIn hp hstart (by simp) rfl (by simp)

theorem standsIn_of_ofText? (hp : p.chars ≠ []) (hstart : p.start = .behind before) (n : Nat)
    (rest : List Char) : ∀ t ∈ (ofText? p n).toList, t.StandsIn p before rest := by
  intro t ht
  have hin := startsIn_of_ofText? n rest t ht
  rw [Option.mem_toList, ofText?] at ht
  split at ht
  · contradiction
  · obtain rfl := Option.some.inj ht
    exact hin.standsIn hp hstart (by simp) rfl (by simp)

/-! ### All tokens -/

/-- Tokens the last of which comes first, which stand in the text one before the other, and all of
them before an offset. -/
inductive Descends (text : List Char) : Nat → List Token → Prop
  | nil {limit : Nat} : Descends text limit []
  | cons {limit offset : Nat} {t : Token} {ts : List Token} :
      t.StandsAt text offset → offset < limit → Descends text offset ts →
      Descends text limit (t :: ts)

theorem Descends.mono {limit further : Nat} (h : Descends text limit ts) (hle : limit ≤ further) :
    Descends text further ts := by
  cases h with
  | nil => exact .nil
  | cons ht hlt hts => exact .cons ht (hlt.trans_le hle) hts

theorem Descends.trimIf {limit : Nat} (h : Descends text limit ts) (trim : Bool) :
    Descends text limit (if trim then trimLast ts else ts) := by
  cases trim with
  | false => exact h
  | true =>
    have htrim := trimmed_trimLast ts
    change Descends text limit (trimLast ts)
    generalize trimLast ts = us at htrim ⊢
    cases htrim with
    | kept => exact h
    | dropped =>
      cases h with
      | cons _ hlt hts => exact hts.mono hlt.le
    | shortened hk hv hpre =>
      cases h with
      | cons ht hlt hts => exact .cons (ht.shortened hk hv hpre) hlt hts

theorem Descends.add {o : Option Token} (h : Descends text (Text.unitsOf before) ts)
    (htext : text = before ++ (p.chars ++ rest)) (ho : ∀ t ∈ o.toList, t.StandsIn p before rest) :
    Descends text (Text.unitsOf (before ++ p.chars)) (o.toList ++ ts) := by
  cases o with
  | none => exact h.mono (by simp)
  | some t =>
    obtain ⟨front, back, hchars, hback, ht⟩ := ho t (by simp)
    refine .cons ⟨before ++ front, back ++ rest, by simp [htext, hchars], rfl, ht⟩ ?_ ?_
    · have hpos := Text.unitsOf_pos hback
      simp only [hchars, Text.unitsOf_append]
      omega
    · exact h.mono (by simp)

/-- The induction is on the pieces; the tokens before them stand before the first one. -/
theorem descends_ofPieces {mode : Piece.Mode} {cs : List Char} {ps : List Piece}
    (h : Piece.Cuts mode (.behind before) cs ps) {ts : List Token} (skip : Bool)
    (hts : Descends (before ++ cs) (Text.unitsOf before) ts) :
    Descends (before ++ cs) (Text.unitsOf (before ++ cs)) (ofPieces ts skip ps) := by
  generalize hs : Cursor.behind before = start at h
  induction h generalizing before ts skip with
  | nil => simpa [ofPieces] using hts
  | @cons mode start c cs kind n ps hn _ ih =>
    subst hs
    have htext : before ++ c :: cs = before ++ ((c :: cs.take n) ++ cs.drop n) := by
      rw [List.cons_append, List.take_append_drop]
    have hrest := @ih (before ++ c :: cs.take n)
    rw [List.append_assoc, List.cons_append, List.take_append_drop] at hrest
    have hstep := Cursor.behind_append before (c :: cs.take n)
    have hheads := (Piece.next_of_ok (.behind before) hn).heads
    have hpiece := standsIn_of_ofPiece? (p := ⟨kind, c :: cs.take n, .behind before⟩) hheads
      (List.cons_ne_nil _ _) rfl (cs.drop n)
    have htoken := standsIn_of_ofText? (p := ⟨kind, c :: cs.take n, .behind before⟩)
      (List.cons_ne_nil _ _) rfl
    simp only [ofPieces]
    split
    · exact hrest _ (hts.add htext (htoken _ _)) hstep
    · exact hrest _ ((hts.trimIf _).mono (by simp)) hstep
    · exact hrest _ ((hts.trimIf _).add htext hpiece) hstep
    · exact hrest _ (hts.add htext hpiece) hstep
    · exact hrest _ (hts.add htext hpiece) hstep

theorem Descends.exists_offsets {limit : Nat} (h : Descends text limit ts) :
    ∃ offsets, offsets.Pairwise (· < ·) ∧ (∀ offset ∈ offsets, offset < limit) ∧
      List.Forall₂ (StandsAt text) ts.reverse offsets := by
  induction h with
  | nil => exact ⟨[], .nil, by simp, .nil⟩
  | @cons limit offset t ts ht hlt _ ih =>
    obtain ⟨offsets, hsorted, hbelow, hstand⟩ := ih
    refine ⟨offsets ++ [offset], ?_, ?_, ?_⟩
    · exact List.pairwise_append.2 ⟨hsorted, List.pairwise_singleton _ _, by simpa using hbelow⟩
    · simpa [or_imp, forall_and, hlt] using fun o ho => (hbelow o ho).trans hlt
    · rw [List.reverse_cons]
      exact List.rel_append hstand (.cons ht .nil)

/-- The tokens of a text stand in it one behind the other, each where its location says, and block
tags have the indents of their lines. -/
theorem exists_offsets_of_ofText {text : String} {ts : List Token} (h : ofText text = .ok ts) :
    ∃ offsets, offsets.Pairwise (· < ·) ∧ List.Forall₂ (StandsAt text.toList) ts offsets := by
  obtain ⟨ps, hps, rfl⟩ := map_ok.1 h
  have hcuts : Piece.Cuts .text (.behind []) text.toList ps := Piece.cuts_of_cut hps
  obtain ⟨offsets, hsorted, hbelow, hstand⟩ := (descends_ofPieces hcuts false .nil).exists_offsets
  have hend : StandsAt text.toList ⟨.eof, none, (Cursor.past {} text.toList).location, ""⟩
      (Text.unitsOf text.toList) :=
    ⟨text.toList, [], (List.append_nil _).symm, rfl, Cursor.location_behind _, rfl, rfl⟩
  refine ⟨offsets ++ [Text.unitsOf text.toList], ?_, ?_⟩
  · exact List.pairwise_append.2 ⟨hsorted, List.pairwise_singleton _ _, by simpa using hbelow⟩
  · rw [List.reverse_cons]
    exact List.rel_append hstand (.cons hend .nil)

/-- A line break in a string and blanks that are dropped count like all others. -/
theorem exists_offsets_of_ofText_dashes :
    let text := "😀\n\t\x7b%- x \"\\\n\" -%\x7d \n\x7d"
    ∃ tokens offsets, ofText text = .ok tokens ∧
      tokens.map (fun t => (t.location, t.indent)) =
        [(⟨1, 1⟩, ""), (⟨2, 2⟩, "\t"), (⟨2, 6⟩, ""), (⟨2, 8⟩, ""), (⟨3, 4⟩, ""), (⟨4, 1⟩, ""),
          (⟨4, 2⟩, "")] ∧
      offsets.Pairwise (· < ·) ∧ List.Forall₂ (StandsAt text.toList) tokens offsets := by
  intro text
  have hval : (ofText text).toOption.map (List.map fun t => (t.location, t.indent)) =
      some [(⟨1, 1⟩, ""), (⟨2, 2⟩, "\t"), (⟨2, 6⟩, ""), (⟨2, 8⟩, ""), (⟨3, 4⟩, ""), (⟨4, 1⟩, ""),
        (⟨4, 2⟩, "")] := by
    decide +kernel
  cases h : ofText text with
  | error e => simp [h, Except.toOption] at hval
  | ok tokens =>
    obtain ⟨offsets, hsorted, hstand⟩ := exists_offsets_of_ofText h
    exact ⟨tokens, offsets, rfl, by simpa [h, Except.toOption] using hval, hsorted, hstand⟩

end Token
end CodeTemplate

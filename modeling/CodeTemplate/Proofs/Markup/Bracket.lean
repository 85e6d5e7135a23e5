import CodeTemplate.Proofs.Markup.Place
import CodeTemplate.Proofs.Markup.Stretch
import CodeTemplate.Markup.Tree.Part

/-! The tokens of a text. Between the delimiters of a tag stand words, strings and signs, and
nothing but text stands between tags; each token is located where it starts in the text. -/

namespace CodeTemplate
namespace Token

open Piece (Mode Cuts Next ClosedBy isInner)

/-! ### Between delimiters -/

/-- A word, a string or a sign: what stands between the delimiters of a tag. -/
def Inner (t : Token) : Prop :=
  t.kind ∈ [.ident, .string, .dot, .pipe, .equal, .slash] ∧ ∃ value, t.value = some value

/-- Texts, variables and block tags, each from its opening to its closing delimiter. -/
inductive Bracketed : List Token → Prop
  | nil : Bracketed []
  | text {t : Token} {value : String} {ts : List Token} :
      t.kind = .text → t.value = some value → Bracketed ts → Bracketed (t :: ts)
  | variable {start stop : Token} {inner ts : List Token} :
      start.kind = .varOpen → (∀ t ∈ inner, t.Inner) → stop.kind = .varClose → Bracketed ts →
      Bracketed (start :: (inner ++ stop :: ts))
  | block {start stop : Token} {inner ts : List Token} :
      start.kind = .blockOpen → (∀ t ∈ inner, t.Inner) → stop.kind = .blockClose → Bracketed ts →
      Bracketed (start :: (inner ++ stop :: ts))

theorem Bracketed.append {ts us : List Token} (h : Bracketed ts) (hu : Bracketed us) :
    Bracketed (ts ++ us) := by
  induction h with
  | nil => exact hu
  | text hk hv _ ih => exact .text hk hv ih
  | «variable» hs hi hc _ ih =>
    rw [List.cons_append, List.append_assoc, List.cons_append]
    exact .variable hs hi hc ih
  | block hs hi hc _ ih =>
    rw [List.cons_append, List.append_assoc, List.cons_append]
    exact .block hs hi hc ih

/-- The same for tokens the last of which comes first, as they are while more are added. -/
inductive Closed : List Token → Prop
  | nil : Closed []
  | text {t : Token} {value : String} {ts : List Token} :
      t.kind = .text → t.value = some value → Closed ts → Closed (t :: ts)
  | variable {start stop : Token} {inner ts : List Token} :
      start.kind = .varOpen → (∀ t ∈ inner, t.Inner) → stop.kind = .varClose → Closed ts →
      Closed (stop :: (inner ++ start :: ts))
  | block {start stop : Token} {inner ts : List Token} :
      start.kind = .blockOpen → (∀ t ∈ inner, t.Inner) → stop.kind = .blockClose → Closed ts →
      Closed (stop :: (inner ++ start :: ts))

theorem Closed.bracketed {ts : List Token} (h : Closed ts) : Bracketed ts.reverse := by
  have hrev : ∀ {inner : List Token}, (∀ t ∈ inner, t.Inner) → ∀ t ∈ inner.reverse, t.Inner :=
    fun hi t ht => hi t (List.mem_reverse.1 ht)
  induction h with
  | nil => exact .nil
  | text hk hv _ ih =>
    rw [List.reverse_cons]
    exact ih.append (.text hk hv .nil)
  | «variable» hs hi hc _ ih =>
    simp only [List.reverse_cons, List.reverse_append, List.append_assoc, List.singleton_append]
    exact ih.append (.variable hs (hrev hi) hc .nil)
  | block hs hi hc _ ih =>
    simp only [List.reverse_cons, List.reverse_append, List.append_assoc, List.singleton_append]
    exact ih.append (.block hs (hrev hi) hc .nil)

theorem Closed.trimLast {ts : List Token} (h : Closed ts) : Closed (trimLast ts) := by
  cases h with
  | nil => exact .nil
  | text hk hv hts =>
    rw [Token.trimLast, if_pos hk]
    split
    · exact hts
    · exact .text hk rfl hts
  | «variable» hs hi hc hts =>
    rw [Token.trimLast, if_neg (by simp [hc])]
    exact .variable hs hi hc hts
  | block hs hi hc hts =>
    rw [Token.trimLast, if_neg (by simp [hc])]
    exact .block hs hi hc hts

/-- The tokens before a place: in a tag, the last ones are those of the tag. -/
inductive Pending : Mode → List Token → Prop
  | text {ts : List Token} : Closed ts → Pending .text ts
  | variable {opened : Location} {start : Token} {inner ts : List Token} :
      start.kind = .varOpen → (∀ t ∈ inner, t.Inner) → Closed ts →
      Pending (.variable opened) (inner ++ start :: ts)
  | block {opened : Location} {start : Token} {inner ts : List Token} :
      start.kind = .blockOpen → (∀ t ∈ inner, t.Inner) → Closed ts →
      Pending (.block opened) (inner ++ start :: ts)

theorem inner_ofPiece? {p : Piece} (h : isInner p.kind = true) :
    ∀ t ∈ (ofPiece? p).toList, t.Inner := by
  intro t ht
  rw [Option.mem_toList] at ht
  simp only [ofPiece?] at ht
  split at ht <;> first
    | contradiction
    | (next hk => simp [hk, isInner] at h)
    | (obtain rfl := Option.some.inj ht; exact ⟨by simp, _, rfl⟩)

theorem Pending.inner {mode : Mode} {ts us : List Token} (h : Pending mode ts) (hm : mode ≠ .text)
    (hu : ∀ t ∈ us, t.Inner) : Pending mode (us ++ ts) := by
  cases h with
  | text => exact absurd rfl hm
  | «variable» hs hi hts =>
    rw [← List.append_assoc]
    exact .variable hs (List.forall_mem_append.2 ⟨hu, hi⟩) hts
  | block hs hi hts =>
    rw [← List.append_assoc]
    exact .block hs (List.forall_mem_append.2 ⟨hu, hi⟩) hts

theorem Pending.closed {mode : Mode} {p : Piece} {ts : List Token} (h : Pending mode ts)
    (hp : ClosedBy mode p) : ∃ t, ofPiece? p = some t ∧ Closed (t :: ts) := by
  cases hp with
  | block hk _ =>
    cases h with
    | block hs hi hts => exact ⟨_, by simp [ofPiece?, hk]; rfl, .block hs hi rfl hts⟩
  | «variable» hk _ =>
    cases h with
    | «variable» hs hi hts => exact ⟨_, by simp [ofPiece?, hk]; rfl, .variable hs hi rfl hts⟩

theorem closed_ofText? {p : Piece} {n : Nat} {ts : List Token} (h : Closed ts) :
    Closed ((ofText? p n).toList ++ ts) := by
  simp only [ofText?]
  split
  · exact h
  · exact .text rfl rfl h

theorem Closed.trimIf {ts : List Token} (h : Closed ts) (trim : Bool) :
    Closed (if trim then Token.trimLast ts else ts) := by
  cases trim with
  | false => exact h
  | true => exact h.trimLast

/-- The induction is on the pieces; the tokens before them are as the mode says. -/
theorem closed_ofPieces {mode : Mode} {start : Cursor} {cs : List Char} {ps : List Piece}
    (h : Cuts mode start cs ps) {before : List Token} (hb : Pending mode before) (skip : Bool) :
    Closed (ofPieces before skip ps) := by
  induction h generalizing before skip with
  | nil =>
    cases hb with
    | text hts => exact hts
  | @cons mode start c cs kind n ps hn _ ih =>
    cases Piece.next_of_ok start hn with
    | text hm =>
      subst hm
      cases hb with
      | text hts => exact ih (.text (closed_ofText? hts)) _
    | opened hm hc ho =>
      subst hm
      cases hb with
      | text hts =>
        cases ho with
        | @comment p => exact ih (.text (hts.trimIf p.strips)) _
        | «variable» => exact ih (@Pending.variable _ _ [] _ rfl (by simp) hts) _
        | @block strips => exact ih (@Pending.block _ _ [] _ rfl (by simp) (hts.trimIf strips)) _
    | closed hc htext =>
      obtain ⟨t, ht, hclosed⟩ := hb.closed hc
      rw [htext] at ih
      cases hc with
      | block hk =>
        obtain rfl : kind = _ := hk
        simp only [ofPieces, ht]
        exact ih (.text hclosed) _
      | «variable» hk =>
        obtain rfl : kind = _ := hk
        simp only [ofPieces, ht]
        exact ih (.text hclosed) _
    | inner hm hi =>
      obtain ⟨hkind, -⟩ := Piece.inner_sound hi
      rw [Piece.after_inner hkind] at ih
      rw [ofPieces_inner hkind]
      exact ih (hb.inner hm (inner_ofPiece? hkind)) _

/-! ### Where tokens start -/

/-- What stands where the token starts. The text of a token may go on in the template, if blanks
were removed from its end. -/
def Heads (t : Token) (cs : List Char) : Prop :=
  match t.kind with
  | .eof => cs = []
  | .blockOpen => ['\x7b', '%'] <+: cs
  | .varOpen => ['\x7b', '\x7b'] <+: cs
  | .string => ∃ quote ds, cs = quote :: ds ∧ (quote = '"' ∨ quote = '\'')
  | _ => ∃ value, t.value = some value ∧ value.toList <+: cs

theorem heads_shortened {t : Token} {value shorter : String} {cs : List Char} (hk : t.kind = .text)
    (hv : t.value = some value) (hpre : shorter.toList <+: value.toList) (h : t.Heads cs) :
    Heads { t with value := some shorter } cs := by
  simp only [Heads, hk, hv, Option.some.injEq, exists_eq_left'] at h ⊢
  exact hpre.trans h

/-- What a tag that removes the blanks before it leaves of the tokens, the last of which comes
first. -/
inductive Trimmed : List Token → List Token → Prop
  | kept {ts : List Token} : Trimmed ts ts
  | dropped {t : Token} {ts : List Token} : Trimmed (t :: ts) ts
  | shortened {t : Token} {value shorter : String} {ts : List Token} :
      t.kind = .text → t.value = some value → shorter.toList <+: value.toList →
      Trimmed (t :: ts) ({ t with value := some shorter } :: ts)

theorem trimmed_trimLast (ts : List Token) : Trimmed ts (trimLast ts) := by
  cases ts with
  | nil => exact .kept
  | cons t ts =>
    rw [trimLast]
    split
    · next hk =>
      split
      · exact .dropped
      · next hne =>
        cases hv : t.value with
        | none => exact absurd (by simp [hv, withoutBlankTail, Text.dropEndWhile]) hne
        | some value =>
          obtain ⟨back, heq, -, -⟩ := exists_back value.toList
          refine .shortened hk hv ?_
          rw [String.toList_ofList]
          exact ⟨back, heq.symm⟩
    · exact .kept

theorem forall_mem_trimLast {P : Token → Prop}
    (hP : ∀ t value shorter, t.kind = .text → t.value = some value →
      shorter.toList <+: value.toList → P t → P { t with value := some shorter })
    {ts : List Token} (h : ∀ t ∈ ts, P t) : ∀ t ∈ trimLast ts, P t := by
  have htrim := trimmed_trimLast ts
  generalize trimLast ts = us at htrim ⊢
  cases htrim with
  | kept => exact h
  | dropped => exact (List.forall_mem_cons.1 h).2
  | shortened hk hv hpre =>
    obtain ⟨ht, hts⟩ := List.forall_mem_cons.1 h
    exact List.forall_mem_cons.2 ⟨hP _ _ _ hk hv hpre ht, hts⟩

/-- What is true of the tokens of each piece is true of all tokens, if a text may lose its end. -/
theorem forall_mem_ofPieces {P : Token → Prop}
    (hP : ∀ t value shorter, t.kind = .text → t.value = some value →
      shorter.toList <+: value.toList → P t → P { t with value := some shorter })
    {before : List Token} {skip : Bool} {ps : List Piece} (hb : ∀ t ∈ before, P t)
    (hps : ∀ p ∈ ps, (∀ t ∈ (ofPiece? p).toList, P t) ∧ ∀ n, ∀ t ∈ (ofText? p n).toList, P t) :
    ∀ t ∈ ofPieces before skip ps, P t := by
  have htrim : ∀ {ts : List Token} {trim : Bool}, (∀ t ∈ ts, P t) →
      ∀ t ∈ if trim then trimLast ts else ts, P t := by
    intro ts trim h
    split
    · exact forall_mem_trimLast hP h
    · exact h
  induction ps generalizing before skip with
  | nil => exact hb
  | cons p ps ih =>
    obtain ⟨⟨hpiece, htext⟩, hps⟩ := List.forall_mem_cons.1 hps
    simp only [ofPieces]
    split
    · exact ih (List.forall_mem_append.2 ⟨htext _, hb⟩) hps
    · exact ih (htrim hb) hps
    · exact ih (List.forall_mem_append.2 ⟨hpiece, htrim hb⟩) hps
    · exact ih (List.forall_mem_append.2 ⟨hpiece, hb⟩) hps
    · exact ih (List.forall_mem_append.2 ⟨hpiece, hb⟩) hps

variable {cs : List Char} {p : Piece}

/-- The token starts at some character of the piece, which the rest of the text follows. -/
def StartsIn (t : Token) (p : Piece) (rest : List Char) : Prop :=
  ∃ front back, p.chars = front ++ back ∧ (p.chars ≠ [] → back ≠ []) ∧
    t.location = (p.start.past front).location ∧ t.Heads (back ++ rest)

/-- The token that closes a tag starts behind the dash, any other one where its piece does. -/
theorem startsIn_of_ofPiece? (h : p.kind.Heads p.chars) (rest : List Char) :
    ∀ t ∈ (ofPiece? p).toList, t.StartsIn p rest := by
  have hbegin : ∀ {t : Token}, t.location = p.start.location → t.Heads (p.chars ++ rest) →
      t.StartsIn p rest :=
    fun hl ht => ⟨[], p.chars, rfl, id, hl, ht⟩
  have hchars : ∀ k, k ∉ [TokenKind.eof, .blockOpen, .varOpen, .string] →
      Heads ⟨k, some (String.ofList p.chars), p.start.location, ""⟩ (p.chars ++ rest) := by
    intro k hk
    cases k <;> first
      | exact ⟨_, rfl, by simp⟩
      | simp at hk
  intro t ht
  rw [Option.mem_toList] at ht
  cases hk : p.kind with
  | text | comment | blanks => simp [ofPiece?, hk] at ht
  | blockOpen =>
    obtain rfl : _ = t := by simpa [ofPiece?, hk] using ht
    rw [hk] at h
    have hpre : ['\x7b', '%'] <+: p.chars := h
    exact hbegin rfl (hpre.trans (List.prefix_append _ rest))
  | varOpen =>
    obtain rfl : _ = t := by simpa [ofPiece?, hk] using ht
    rw [hk] at h
    have hchars : p.chars = ['\x7b', '\x7b'] := h
    exact hbegin rfl (hchars ▸ List.prefix_append _ rest)
  | blockClose trim =>
    obtain rfl : _ = t := by simpa [ofPiece?, hk] using ht
    rw [hk] at h
    refine ⟨Outline.dashes trim, ['%', '\x7d'], h, by simp, ?_, ⟨_, rfl, rest, rfl⟩⟩
    cases trim <;> rfl
  | string value =>
    obtain rfl : _ = t := by simpa [ofPiece?, hk] using ht
    rw [hk] at h
    obtain ⟨quote, ds, hq, hquote⟩ := h
    exact hbegin rfl ⟨quote, ds ++ rest, by rw [hq, List.cons_append], hquote⟩
  | _ =>
    obtain rfl : _ = t := by simpa [ofPiece?, hk] using ht
    exact hbegin rfl (hchars _ (by simp))

/-- The token of a stretch of text starts behind what is dropped of it. -/
theorem startsIn_of_ofText? (n : Nat) (rest : List Char) :
    ∀ t ∈ (ofText? p n).toList, t.StartsIn p rest := by
  intro t ht
  rw [Option.mem_toList] at ht
  simp only [ofText?] at ht
  split at ht
  · contradiction
  · next hne =>
    obtain rfl := Option.some.inj ht
    exact ⟨p.chars.take n, p.chars.drop n, (List.take_append_drop n _).symm, fun _ => hne, rfl,
      _, rfl, by simp⟩

theorem StartsIn.marks {t : Token} {before rest : List Char} (h : t.StartsIn p rest)
    (hstart : p.start = .behind before) :
    t.location.Marks (before ++ (p.chars ++ rest)) t.Heads := by
  obtain ⟨front, back, hchars, -, hl, ht⟩ := h
  refine ⟨before ++ front, back ++ rest, by simp [hchars], ?_, ht⟩
  rw [hl, hstart, ← Cursor.behind_append, Cursor.location_behind]

theorem marks_ofPiece? (h : p.Stands cs) :
    ∀ t ∈ (ofPiece? p).toList, t.location.Marks cs t.Heads := by
  obtain ⟨hheads, before, rest, rfl, hstart⟩ := h
  exact fun t ht => (startsIn_of_ofPiece? hheads rest t ht).marks hstart

theorem marks_ofText? (h : p.Stands cs) (n : Nat) :
    ∀ t ∈ (ofText? p n).toList, t.location.Marks cs t.Heads := by
  obtain ⟨-, before, rest, rfl, hstart⟩ := h
  exact fun t ht => (startsIn_of_ofText? n rest t ht).marks hstart

/-- The tokens of a text, all but the last, are bracketed; the last one is the end of the text; and
each starts at its location. -/
theorem ofText_spec {text : String} {ts : List Token} (h : ofText text = .ok ts) :
    ∃ us stop, ts = us ++ [stop] ∧ Bracketed us ∧ stop.kind = .eof ∧
      ∀ t ∈ ts, t.location.Marks text.toList t.Heads := by
  obtain ⟨ps, hps, rfl⟩ := map_ok.1 h
  have hcuts : Cuts .text (.behind []) text.toList ps := Piece.cuts_of_cut hps
  have hstands : ∀ p ∈ ps, p.Stands text.toList := hcuts.stands
  refine ⟨(ofPieces [] false ps).reverse, _, List.reverse_cons,
    (closed_ofPieces hcuts (.text .nil) false).bracketed, rfl, ?_⟩
  intro t ht
  rcases List.mem_cons.1 (List.mem_reverse.1 ht) with rfl | ht
  · exact ⟨text.toList, [], (List.append_nil _).symm, Cursor.location_behind _, rfl⟩
  · refine forall_mem_ofPieces (fun t value shorter hk hv hpre hm => ?_) (List.forall_mem_nil _)
      (fun p hp => ⟨marks_ofPiece? (hstands p hp), marks_ofText? (hstands p hp)⟩) t ht
    exact hm.mono fun _ => heads_shortened hk hv hpre

theorem ofText_error {text : String} {l : Located ScanFault} (h : ofText text = .error l) :
    l.location.Marks text.toList l.fault.Heads := by
  simp only [ofText] at h
  cases hcut : Piece.cut .text {} text.toList with
  | error f =>
    rw [hcut] at h
    obtain rfl := Except.error.inj h
    exact Piece.cut_fault (.text : Piece.Open .text []) hcut
  | ok ps => simp [hcut, Except.map] at h

end Token
end CodeTemplate

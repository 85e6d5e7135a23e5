import Mathlib.Logic.Function.Iterate
import CodeTemplate.Markup.Token.OfText
import CodeTemplate.Proofs.Markup.Cutting
import CodeTemplate.Proofs.Text.Infix

/-! What becomes of the stretches of template text: each is a token, less blanks before and after
that the dashes of tags around it remove. -/

namespace CodeTemplate

namespace Outline

/-- What is left of a stretch, if anything is. -/
def Part.kept? : Part → Option String
  | .text s => if s.kept = [] then none else some (String.ofList s.kept)
  | _ => none

def Part.stretch? : Part → Option String
  | .text s => some (String.ofList s.chars)
  | _ => none

/-- The part is no tag, and no text is left of it. -/
def Part.Silent : Part → Prop
  | .text s => s.kept = []
  | p => p.isComment = true

def isLineBlank (c : Char) : Bool := c == ' ' || c == '\t' || c == '\r'

/-- A tag or a region that strips follows, with no other tag and no text that is left in between. -/
def StripFollows (after : List Part) : Prop :=
  ∃ gap p rest, after = gap ++ p :: rest ∧ p.strips = true ∧ ∀ q ∈ gap, q.Silent

/-- The dropped front of a stretch is the rest of a line: blanks and their line break, or blanks up
to the end of the text. -/
def DropsLine (s : Stretch) (after : List Part) : Prop :=
  (∃ blanks, s.front = blanks ++ ['\n'] ∧ ∀ c ∈ blanks, isLineBlank c = true) ∨
    (∀ c ∈ s.front, isLineBlank c = true) ∧ s.kept = [] ∧ s.back = [] ∧ after = []

/-- The front of a stretch is dropped behind a tag or a region that skips the rest of its line. -/
structure FrontDropped (before : List Part) (s : Stretch) (after : List Part) : Prop where
  skips : ∃ p, before.getLast? = some p ∧ p.skips = true
  line : DropsLine s after

/-- The dropped back of a stretch is spaces and tabs that start a line or the stretch, and something
that strips follows. -/
structure BackDropped (s : Stretch) (after : List Part) : Prop where
  blank : ∀ c ∈ s.back, Text.isIndent c = true
  line : s.front ++ s.kept = [] ∨ (s.front ++ s.kept).getLast? = some '\n'
  strips : StripFollows after

/-- What is dropped of the stretches of parts; `skips` tells whether the part before them skips the
rest of its line. -/
inductive Trimmed : Bool → List Part → Prop
  | nil {skips : Bool} : Trimmed skips []
  | text {skips : Bool} {s : Stretch} {parts : List Part} :
      (s.front ≠ [] → skips = true ∧ DropsLine s parts) → (s.back ≠ [] → BackDropped s parts) →
      Trimmed false parts → Trimmed skips (.text s :: parts)
  | mark {skips : Bool} {p : Part} {parts : List Part} :
      (∀ s, p ≠ .text s) → Trimmed p.skips parts → Trimmed skips (p :: parts)

/-- What is dropped of a stretch among the parts. -/
theorem Trimmed.dropped {skips : Bool} {parts before after : List Part} {s : Stretch}
    (h : Trimmed skips parts) (heq : parts = before ++ .text s :: after) :
    (s.front ≠ [] → (before = [] ∧ skips = true ∨ ∃ p, before.getLast? = some p ∧ p.skips = true) ∧
      DropsLine s after) ∧ (s.back ≠ [] → BackDropped s after) := by
  induction h generalizing before with
  | nil => simp at heq
  | @text skips s' parts hf hb _ ih =>
    cases before with
    | nil =>
      obtain ⟨⟨rfl⟩, rfl⟩ := List.cons.inj heq
      exact ⟨fun h => ⟨.inl ⟨rfl, (hf h).1⟩, (hf h).2⟩, hb⟩
    | cons q before =>
      obtain ⟨rfl, htail⟩ := List.cons.inj heq
      obtain ⟨hfront, hback⟩ := ih htail
      refine ⟨fun h => ⟨.inr ?_, (hfront h).2⟩, hback⟩
      rcases (hfront h).1 with ⟨-, hs⟩ | ⟨p, hp, hs⟩
      · simp at hs
      · exact ⟨p, by simp [List.getLast?_cons, hp], hs⟩
  | @mark skips q parts hq _ ih =>
    cases before with
    | nil => exact absurd (List.cons.inj heq).1 (hq s)
    | cons q' before =>
      obtain ⟨rfl, htail⟩ := List.cons.inj heq
      obtain ⟨hfront, hback⟩ := ih htail
      refine ⟨fun h => ⟨.inr ?_, (hfront h).2⟩, hback⟩
      rcases (hfront h).1 with ⟨rfl, hs⟩ | ⟨p, hp, hs⟩
      · exact ⟨q, rfl, hs⟩
      · exact ⟨p, by simp [List.getLast?_cons, hp], hs⟩

theorem StripFollows.cons {p : Part} {parts : List Part} (hp : p.Silent) (h : StripFollows parts) :
    StripFollows (p :: parts) := by
  obtain ⟨gap, q, rest, rfl, hq, hgap⟩ := h
  exact ⟨p :: gap, q, rest, rfl, hq, List.forall_mem_cons.2 ⟨hp, hgap⟩⟩

theorem Part.silent_of_isComment {p : Part} (h : p.isComment = true) : p.Silent := by
  cases p with
  | text => simp [Part.isComment] at h
  | _ => exact h

/-- Where no tag and no region has a dash, stretches are kept as a whole. -/
theorem Layout.kept?_eq_stretch? {parts : List Part} {cs : List Char} (h : Layout parts cs)
    (hd : ∀ before s after, parts = before ++ .text s :: after →
      (s.front ≠ [] → FrontDropped before s after) ∧ (s.back ≠ [] → BackDropped s after))
    (hopen : ¬ ['\x7b', '%', '-'] <:+: cs) (hclose : ¬ ['-', '%', '\x7d'] <:+: cs) {p : Part}
    (hp : p ∈ parts) : p.kept? = p.stretch? := by
  cases p with
  | text s =>
    obtain ⟨before, after, heq⟩ := List.append_of_mem hp
    obtain ⟨hfront, hback⟩ := hd before s after heq
    have hf : s.front = [] := by
      by_contra hf
      obtain ⟨q, hq, hs⟩ := (hfront hf).skips
      have hmem : q ∈ parts := by simp [heq, List.mem_of_getLast? hq]
      simp [h.not_skips hclose hmem] at hs
    have hb : s.back = [] := by
      by_contra hb
      obtain ⟨gap, q, rest, hafter, hs, -⟩ := (hback hb).strips
      have hmem : q ∈ parts := by simp [heq, hafter]
      simp [h.not_strips hopen hmem] at hs
    have hchars : s.chars = s.kept := by simp [Stretch.chars, hf, hb]
    obtain ⟨-, ⟨s', hs', hne⟩ | ⟨rest, hw⟩⟩ := h.mem hp
    · obtain rfl := Part.text.inj hs'
      rw [hchars] at hne
      simp only [Part.kept?, Part.stretch?, if_neg hne, hchars]
    · cases hw
  | _ => rfl

end Outline

namespace Token

open Outline
open Text (isIndent)

/-- The texts of the tokens that are text, in order. -/
def texts (ts : List Token) : List (Option String) := (ts.filter (·.kind = .text)).map (·.value)

theorem texts_append (ts us : List Token) : texts (ts ++ us) = texts ts ++ texts us := by
  simp [texts]

theorem texts_eq_nil {ts : List Token} (h : ∀ t ∈ ts, t.kind ≠ .text) : texts ts = [] := by
  simpa [texts] using h

theorem blankRest?_sound {atEnd : Bool} {cs : List Char} {n : Nat}
    (h : blankRest? atEnd cs = some n) :
    (∃ blanks, cs.take n = blanks ++ ['\n'] ∧ ∀ c ∈ blanks, isLineBlank c = true) ∨
      (∀ c ∈ cs.take n, isLineBlank c = true) ∧ cs.drop n = [] ∧ atEnd = true := by
  induction cs generalizing n with
  | nil =>
    by_cases he : atEnd = true
    · exact .inr ⟨by simp, by simp, he⟩
    · simp [blankRest?, he] at h
  | cons c cs ih =>
    simp only [blankRest?] at h
    split at h
    · next hc =>
      obtain rfl := Option.some.inj h
      exact .inl ⟨[], by simp [hc], by simp⟩
    · split at h
      · next hc =>
        have hblank : isLineBlank c = true := by
          rcases hc with rfl | rfl | rfl <;> rfl
        obtain ⟨m, hm, rfl⟩ := Option.map_eq_some_iff.1 h
        rcases ih hm with ⟨blanks, heq, hall⟩ | ⟨hall, hdrop, he⟩
        · refine .inl ⟨c :: blanks, by simp [heq], ?_⟩
          exact List.forall_mem_cons.2 ⟨hblank, hall⟩
        · refine .inr ⟨?_, by simpa using hdrop, he⟩
          rw [List.take_succ_cons]
          exact List.forall_mem_cons.2 ⟨hblank, hall⟩
      · simp at h

theorem withoutBlankTail_cases (cs : List Char) :
    withoutBlankTail cs = cs ∨ withoutBlankTail cs = cs.rdropWhile isIndent ∧
      (withoutBlankTail cs = [] ∨ (withoutBlankTail cs).getLast? = some '\n') := by
  by_cases hc : ((cs.rdropWhile isIndent).isEmpty ||
      (cs.rdropWhile isIndent).getLast? == some '\n') = true
  · have h : withoutBlankTail cs = cs.rdropWhile isIndent := if_pos hc
    rw [h]
    exact .inr ⟨rfl, by simpa using hc⟩
  · exact .inl (if_neg hc)

/-- What a tag that strips leaves of a text, and what it drops. -/
theorem exists_back (cs : List Char) :
    ∃ back, cs = withoutBlankTail cs ++ back ∧ (∀ c ∈ back, isIndent c = true) ∧
      (back ≠ [] → withoutBlankTail cs = [] ∨ (withoutBlankTail cs).getLast? = some '\n') := by
  rcases withoutBlankTail_cases cs with h | ⟨h, hline⟩
  · exact ⟨[], by simp [h], by simp, by simp⟩
  · refine ⟨cs.rtakeWhile isIndent, ?_, fun c hc => List.mem_rtakeWhile_imp hc, fun _ => hline⟩
    rw [h, List.rdropWhile_append_rtakeWhile]

theorem withoutBlankTail_idem (cs : List Char) :
    withoutBlankTail (withoutBlankTail cs) = withoutBlankTail cs := by
  rcases withoutBlankTail_cases cs with h | ⟨h, -⟩
  · rw [h, h]
  · rw [h]
    rcases withoutBlankTail_cases (cs.rdropWhile isIndent) with h' | ⟨h', -⟩
    · exact h'
    · rw [h', List.rdropWhile_idempotent]

theorem trimLast_of_ne {t : Token} (h : t.kind ≠ .text) (ts : List Token) (n : Nat) :
    trimLast^[n] (t :: ts) = t :: ts :=
  Function.iterate_fixed (by simp [trimLast, h]) n

theorem trimLast_nil (n : Nat) : trimLast^[n] [] = [] := Function.iterate_fixed rfl n

/-- A text of which nothing is left is gone once it is trimmed. -/
theorem trimLast_text_nil {t : Token} {cs : List Char} (hk : t.kind = .text)
    (hv : t.value = some (String.ofList cs)) (hc : withoutBlankTail cs = []) (ts : List Token) :
    trimLast (t :: ts) = ts := by
  simp [trimLast, hk, hv, hc]

theorem trimLast_text {t : Token} {cs : List Char} (hk : t.kind = .text)
    (hv : t.value = some (String.ofList cs)) (hc : withoutBlankTail cs ≠ []) (ts : List Token) :
    trimLast (t :: ts) = { t with value := some (String.ofList (withoutBlankTail cs)) } :: ts := by
  obtain ⟨c, ds, hds⟩ := List.exists_cons_of_ne_nil hc
  simp [trimLast, hk, hv, hds]

/-- A text of which something is left is trimmed once and for all. -/
theorem trimLast_iterate_text {t : Token} {cs : List Char} (hk : t.kind = .text)
    (hv : t.value = some (String.ofList cs)) (hc : withoutBlankTail cs ≠ []) (ts : List Token)
    (n : Nat) : trimLast^[n + 1] (t :: ts) =
      { t with value := some (String.ofList (withoutBlankTail cs)) } :: ts := by
  rw [Function.iterate_succ_apply, trimLast_text hk hv hc]
  refine Function.iterate_fixed ?_ n
  have hc' : withoutBlankTail (withoutBlankTail cs) ≠ [] := by rwa [withoutBlankTail_idem]
  have htrim := trimLast_text (t := { t with value := some (String.ofList (withoutBlankTail cs)) })
    hk rfl hc' ts
  rwa [withoutBlankTail_idem] at htrim

/-- What pieces add to the tokens before them: `ts`, the last first, and `n` tags that strip reach
the tokens before. The parts tell what is dropped. -/
structure Emits (skip : Bool) (ps : List Piece) (parts : List Part) (n : Nat) (ts : List Token) :
    Prop where
  tokens : ∀ us, ofPieces us skip ps = ts ++ trimLast^[n] us
  texts : texts ts.reverse = (parts.filterMap Part.kept?).map some
  trimmed : Trimmed skip parts
  strips : n ≠ 0 → StripFollows parts

theorem emits_nil (skip : Bool) : Emits skip [] [] 0 [] :=
  ⟨fun _ => rfl, rfl, .nil, fun h => absurd rfl h⟩

variable {skip : Bool} {p first last : Piece} {ps inner : List Piece} {parts : List Part} {n : Nat}
  {ts : List Token}

theorem emits_comment {part : Part} (hk : p.kind = .comment part.strips part.skips)
    (hp : part.isComment = true) (h : Emits part.skips ps parts n ts) :
    Emits skip (p :: ps) (part :: parts) (if part.strips then n + 1 else n) ts where
  tokens us := by
    simp only [ofPieces, hk, h.tokens]
    split
    · rw [Function.iterate_succ_apply]
    · rfl
  texts := by
    have hkept : part.kept? = none := by
      cases part with
      | text => simp [Part.isComment] at hp
      | _ => rfl
    rw [h.texts, List.filterMap_cons_none hkept]
  trimmed := by
    refine .mark ?_ h.trimmed
    rintro s rfl
    simp [Part.isComment] at hp
  strips hn := by
    by_cases hs : part.strips = true
    · exact ⟨[], part, parts, rfl, hs, by simp⟩
    · rw [if_neg hs] at hn
      exact (h.strips hn).cons (Part.silent_of_isComment hp)

theorem ofPiece?_ne_text (p : Piece) : ∀ t ∈ (ofPiece? p).toList, t.kind ≠ .text := by
  intro t ht
  rw [Option.mem_toList] at ht
  simp only [ofPiece?] at ht
  split at ht <;> first | contradiction | (obtain rfl := Option.some.inj ht; simp)

theorem ofPieces_inner (h : Piece.isInner p.kind = true) (us : List Token) :
    ofPieces us skip (p :: ps) = ofPieces ((ofPiece? p).toList ++ us) false ps := by
  simp only [ofPieces]
  split <;> simp_all [Piece.isInner]

/-- The pieces inside a tag make tokens, none of which is text. -/
theorem exists_inner (h : ∀ q ∈ inner, Piece.isInner q.kind = true) (ps : List Piece) :
    ∃ us, (∀ t ∈ us, t.kind ≠ .text) ∧
      ∀ vs, ofPieces vs false (inner ++ ps) = ofPieces (us ++ vs) false ps := by
  induction inner with
  | nil => exact ⟨[], by simp, fun vs => rfl⟩
  | cons q inner ih =>
    obtain ⟨hq, hinner⟩ := List.forall_mem_cons.1 h
    obtain ⟨us, hus, hrun⟩ := ih hinner
    refine ⟨us ++ (ofPiece? q).toList, List.forall_mem_append.2 ⟨hus, ofPiece?_ne_text q⟩, ?_⟩
    intro vs
    rw [List.cons_append, ofPieces_inner hq, hrun, List.append_assoc]

/-- A tag makes tokens, none of which is text, and those before it cannot be trimmed any more. -/
theorem emits_tag (part : Part) (hp : ∀ s, part ≠ .text s)
    (hfirst : ∀ us qs, ofPieces us skip (first :: qs) =
      ofPieces ((ofPiece? first).toList ++ if part.strips then trimLast us else us) false qs)
    (hi : ∀ q ∈ inner, Piece.isInner q.kind = true)
    (hlast : ∃ t, ofPiece? last = some t ∧
      ∀ us, ofPieces us false (last :: ps) = ofPieces (t :: us) part.skips ps)
    (h : Emits part.skips ps parts n ts) :
    ∃ m us, Emits skip (first :: (inner ++ last :: ps)) (part :: parts) m us := by
  obtain ⟨us, hus, hinner⟩ := exists_inner hi (last :: ps)
  obtain ⟨t, ht, hlast⟩ := hlast
  have hclose : t.kind ≠ .text := ofPiece?_ne_text last t (by simp [ht])
  have hall : ∀ u ∈ t :: (us ++ (ofPiece? first).toList), u.kind ≠ .text :=
    List.forall_mem_cons.2
      ⟨hclose, List.forall_mem_append.2 ⟨hus, ofPiece?_ne_text first⟩⟩
  refine ⟨if part.strips then 1 else 0, ts ++ t :: (us ++ (ofPiece? first).toList), ?_, ?_,
    .mark hp h.trimmed, ?_⟩
  · intro vs
    rw [hfirst, hinner, hlast, h.tokens, trimLast_of_ne hclose]
    cases part.strips <;> simp
  · have hkept : part.kept? = none := by
      cases part with
      | text s => exact absurd rfl (hp s)
      | _ => rfl
    have htag : texts (t :: (us ++ (ofPiece? first).toList)).reverse = [] :=
      texts_eq_nil fun u hu => hall u (List.mem_reverse.1 hu)
    rw [List.reverse_append, texts_append, htag, List.nil_append, h.texts,
      List.filterMap_cons_none hkept]
  · intro hn
    by_cases hs : part.strips = true
    · exact ⟨[], part, parts, rfl, hs, by simp⟩
    · exact absurd (if_neg hs) hn

theorem emits_block {strips skips : Bool} (cs : List Char) (hf : first.kind = .blockOpen strips)
    (hi : ∀ q ∈ inner, Piece.isInner q.kind = true) (hl : last.kind = .blockClose skips)
    (h : Emits skips ps parts n ts) :
    ∃ m us, Emits skip (first :: (inner ++ last :: ps)) (.block strips skips cs :: parts) m us := by
  obtain ⟨t, ht⟩ : ∃ t, ofPiece? last = some t := by simp [ofPiece?, hl]
  refine emits_tag (.block strips skips cs) (by simp) ?_ hi ⟨t, ht, ?_⟩ h
  · intro us qs
    simp only [ofPieces, hf]
    rfl
  · intro us
    simp only [ofPieces, hl, ht]
    rfl

theorem emits_variable (cs : List Char) (hf : first.kind = .varOpen)
    (hi : ∀ q ∈ inner, Piece.isInner q.kind = true) (hl : last.kind = .varClose)
    (h : Emits false ps parts n ts) :
    ∃ m us, Emits skip (first :: (inner ++ last :: ps)) (.variable cs :: parts) m us := by
  obtain ⟨t, ht⟩ : ∃ t, ofPiece? last = some t := by simp [ofPiece?, hl]
  refine emits_tag (.variable cs) (by simp) ?_ hi ⟨t, ht, ?_⟩ h
  · intro us qs
    simp only [ofPieces, hf]
    rfl
  · intro us
    simp only [ofPieces, hl, ht]
    rfl

/-- How many characters of a stretch are dropped as the rest of a line. -/
def frontLength (skip : Bool) (ps : List Piece) (cs : List Char) : Nat :=
  if skip then (blankRest? ps.isEmpty cs).getD 0 else 0

theorem frontLength_spec {cs : List Char} (h : cs.take (frontLength skip ps cs) ≠ []) :
    skip = true ∧ ((∃ blanks, cs.take (frontLength skip ps cs) = blanks ++ ['\n'] ∧
        ∀ c ∈ blanks, isLineBlank c = true) ∨
      (∀ c ∈ cs.take (frontLength skip ps cs), isLineBlank c = true) ∧
        cs.drop (frontLength skip ps cs) = [] ∧ ps = []) := by
  cases skip with
  | false => simp [frontLength] at h
  | true =>
    cases hb : blankRest? ps.isEmpty cs with
    | none => simp [frontLength, hb] at h
    | some m =>
      have hm : frontLength true ps cs = m := by simp [frontLength, hb]
      rw [hm]
      refine ⟨rfl, ?_⟩
      simpa using blankRest?_sound hb

theorem ofText?_eq {m : Nat} (h : p.chars.drop m ≠ []) :
    ∃ t, ofText? p m = some t ∧ t.kind = .text ∧
      t.value = some (String.ofList (p.chars.drop m)) := by
  obtain ⟨c, cs, hcs⟩ := List.exists_cons_of_ne_nil h
  exact ⟨_, by rw [ofText?, hcs], rfl, by rw [hcs]⟩

/-- Of a stretch that leaves no token, tags that strip may reach what is before it. -/
theorem emits_silent {qs : List Piece} {s : Stretch} {m : Nat} (hs : s.kept = [])
    (hrun : ∀ us, ofPieces us skip qs = ts ++ trimLast^[m] us)
    (hfront : s.front ≠ [] → skip = true ∧ DropsLine s parts)
    (hback : s.back ≠ [] → BackDropped s parts) (hm : m ≠ 0 → n ≠ 0)
    (h : Emits false ps parts n ts) : Emits skip qs (.text s :: parts) m ts where
  tokens := hrun
  texts := by
    have hkept : (Part.text s).kept? = none := if_pos hs
    rw [h.texts, List.filterMap_cons_none hkept]
  trimmed := .text hfront hback h.trimmed
  strips h' := (h.strips (hm h')).cons hs

/-- A stretch of which something is left is a token that nothing else is done to. -/
theorem emits_kept {qs : List Piece} {s : Stretch} {t : Token} (hk : t.kind = .text)
    (hv : t.value = some (String.ofList s.kept)) (hs : s.kept ≠ [])
    (hrun : ∀ us, ofPieces us skip qs = ts ++ t :: us)
    (hfront : s.front ≠ [] → skip = true ∧ DropsLine s parts)
    (hback : s.back ≠ [] → BackDropped s parts) (h : Emits false ps parts n ts) :
    Emits skip qs (.text s :: parts) 0 (ts ++ [t]) where
  tokens us := by simpa using hrun us
  texts := by
    have hkept : (Part.text s).kept? = some (String.ofList s.kept) := if_neg hs
    have ht : texts [t] = [some (String.ofList s.kept)] := by simp [texts, hk, hv]
    rw [List.reverse_append, List.reverse_singleton, texts_append, ht, h.texts,
      List.filterMap_cons_some hkept]
    rfl
  trimmed := .text hfront hback h.trimmed
  strips h' := absurd rfl h'

/-- A stretch loses its front to a tag before it and its back to a tag after it. -/
theorem emits_text (hk : p.kind = .text) (he : ps = [] → parts = [])
    (h : Emits false ps parts n ts) :
    ∃ s m us, s.chars = p.chars ∧ Emits skip (p :: ps) (.text s :: parts) m us := by
  obtain ⟨front, hfront⟩ : ∃ front, p.chars.take (frontLength skip ps p.chars) = front := ⟨_, rfl⟩
  obtain ⟨rest, hrest⟩ : ∃ rest, p.chars.drop (frontLength skip ps p.chars) = rest := ⟨_, rfl⟩
  have hchars : front ++ rest = p.chars := by
    rw [← hfront, ← hrest, List.take_append_drop]
  have hrun : ∀ us, ofPieces us skip (p :: ps) =
      ts ++ trimLast^[n] ((ofText? p (frontLength skip ps p.chars)).toList ++ us) := by
    intro us
    simp only [ofPieces, hk]
    exact h.tokens _
  have hline : front ≠ [] → skip = true ∧ ((∃ blanks, front = blanks ++ ['\n'] ∧
      ∀ c ∈ blanks, isLineBlank c = true) ∨
        (∀ c ∈ front, isLineBlank c = true) ∧ rest = [] ∧ ps = []) := by
    rw [← hfront, ← hrest]
    exact frontLength_spec
  by_cases hr : rest = []
  · have hnone : ofText? p (frontLength skip ps p.chars) = none := by
      rw [ofText?, hrest, hr]
    simp only [hnone, Option.toList_none, List.nil_append] at hrun
    refine ⟨⟨front, [], []⟩, n, ts, by simpa [Stretch.chars, hr] using hchars, ?_⟩
    refine emits_silent rfl hrun ?_ (fun h => absurd rfl h) id h
    intro hf
    obtain ⟨hs, hl | ⟨hall, -, hps⟩⟩ := hline hf
    · exact ⟨hs, .inl hl⟩
    · exact ⟨hs, .inr ⟨hall, rfl, rfl, he hps⟩⟩
  · have hline : front ≠ [] → skip = true ∧ ∃ blanks, front = blanks ++ ['\n'] ∧
        ∀ c ∈ blanks, isLineBlank c = true := by
      intro hf
      obtain ⟨hs, hl | ⟨-, hr', -⟩⟩ := hline hf
      · exact ⟨hs, hl⟩
      · exact absurd hr' hr
    have hdrops : ∀ kept back, front ≠ [] → skip = true ∧ DropsLine ⟨front, kept, back⟩ parts :=
      fun _ _ hf => ⟨(hline hf).1, .inl (hline hf).2⟩
    obtain ⟨t, ht, hkt, hvt⟩ := ofText?_eq (p := p) (hrest ▸ hr)
    rw [hrest] at hvt
    simp only [ht, Option.toList_some, List.singleton_append] at hrun
    cases n with
    | zero =>
      refine ⟨⟨front, rest, []⟩, 0, ts ++ [t], by simpa [Stretch.chars] using hchars, ?_⟩
      exact emits_kept hkt hvt hr hrun (hdrops _ _) (fun h => absurd rfl h) h
    | succ m =>
      have hfollows := h.strips (Nat.succ_ne_zero m)
      obtain ⟨back, heq, hblank, hlast⟩ := exists_back rest
      by_cases hw : withoutBlankTail rest = []
      · rw [hw, List.nil_append] at heq
        subst heq
        have htrim : ∀ us, ofPieces us skip (p :: ps) = ts ++ trimLast^[m] us := by
          intro us
          rw [hrun, Function.iterate_succ_apply, trimLast_text_nil hkt hvt hw]
        have hstart : front ++ [] = [] ∨ (front ++ []).getLast? = some '\n' := by
          by_cases hf : front = []
          · exact .inl (by simp [hf])
          · obtain ⟨-, blanks, rfl, -⟩ := hline hf
            exact .inr (by simp)
        refine ⟨⟨front, [], rest⟩, m, ts, by simpa [Stretch.chars] using hchars, ?_⟩
        exact emits_silent rfl htrim (hdrops _ _) (fun _ => ⟨hblank, hstart, hfollows⟩)
          (fun _ => Nat.succ_ne_zero m) h
      · let kept : Token := { t with value := some (String.ofList (withoutBlankTail rest)) }
        have htrim : ∀ us, ofPieces us skip (p :: ps) = ts ++ kept :: us := by
          intro us
          rw [hrun, trimLast_iterate_text hkt hvt hw]
        have hstart : back ≠ [] → (front ++ withoutBlankTail rest).getLast? = some '\n' := by
          intro hb
          rw [List.getLast?_append_of_ne_nil _ hw]
          exact (hlast hb).resolve_left hw
        refine ⟨⟨front, withoutBlankTail rest, back⟩, 0, ts ++ [kept], ?_, ?_⟩
        · rw [Stretch.chars, ← heq, hchars]
        · exact emits_kept hkt rfl hw htrim (hdrops _ _)
            (fun hb => ⟨hblank, .inr (hstart hb), hfollows⟩) h

/-- The tokens of the pieces that parts are made of, for some way to cut the stretches. -/
theorem exists_emits (h : Piece.Made ps parts) (skip : Bool) :
    ∃ cut n ts, cut.map Part.uncut = parts.map Part.uncut ∧ Emits skip ps cut n ts := by
  induction h generalizing skip with
  | nil => exact ⟨[], 0, [], rfl, emits_nil skip⟩
  | @text p ps parts hk hm ih =>
    obtain ⟨cut, n, ts, hcut, h⟩ := ih false
    have he : ps = [] → cut = [] := by
      rintro rfl
      cases hm
      simpa using hcut
    obtain ⟨s, m, us, hs, h⟩ := emits_text hk he h
    have hu : (Part.text s).uncut = (Part.text ⟨[], p.chars, []⟩).uncut := by
      simp only [Part.uncut, hs]
      simp [Stretch.chars]
    exact ⟨.text s :: cut, m, us, by simp [hcut, hu], h⟩
  | @comment p ps part parts hk hp _ ih =>
    obtain ⟨cut, n, ts, hcut, h⟩ := ih part.skips
    exact ⟨part :: cut, _, ts, by simp [hcut], emits_comment hk hp h⟩
  | @block first last inner ps strips skips cs parts hf hi hl _ ih =>
    obtain ⟨cut, n, ts, hcut, h⟩ := ih skips
    obtain ⟨m, us, h⟩ := emits_block cs hf hi hl h
    exact ⟨_, m, us, by simp [hcut], h⟩
  | @«variable» first last inner ps cs parts hf hi hl _ ih =>
    obtain ⟨cut, n, ts, hcut, h⟩ := ih false
    obtain ⟨m, us, h⟩ := emits_variable cs hf hi hl h
    exact ⟨_, m, us, by simp [hcut], h⟩

/-- The text tokens are what is left of the stretches of the text, in order. Its layout is the only
one; of a stretch a front is dropped behind a dash, as the rest of a line, and a back before a dash,
as blanks that start a line or the stretch. A text without dashes at delimiters keeps all its
stretches. -/
theorem texts_ofText {text : String} {tokens : List Token} (h : ofText text = .ok tokens) :
    ∃ parts, Layout parts text.toList ∧
      (∀ others, Layout others text.toList → others.map Part.uncut = parts.map Part.uncut) ∧
      texts tokens = (parts.filterMap Part.kept?).map some ∧
      (∀ before s after, parts = before ++ .text s :: after →
        (s.front ≠ [] → FrontDropped before s after) ∧ (s.back ≠ [] → BackDropped s after)) ∧
      (¬ ['\x7b', '%', '-'] <:+: text.toList → ¬ ['-', '%', '\x7d'] <:+: text.toList →
        texts tokens = (parts.filterMap Part.stretch?).map some) := by
  cases hp : Piece.cut .text {} text.toList with
  | error e => simp [ofText, hp, Except.map] at h
  | ok pieces =>
    obtain ⟨whole, hwhole, hm⟩ := (Piece.cuts_of_cut hp).layout
    obtain ⟨parts, n, ts, huncut, he⟩ := exists_emits hm false
    have hl : Layout parts text.toList := hwhole.of_uncut huncut
    have htexts : texts tokens = (parts.filterMap Part.kept?).map some := by
      simp only [ofText, hp, Except.map, Except.ok.injEq] at h
      rw [← h, he.tokens, trimLast_nil, List.append_nil, List.reverse_cons, texts_append, he.texts]
      simp [texts]
    have hdropped : ∀ before s after, parts = before ++ .text s :: after →
        (s.front ≠ [] → FrontDropped before s after) ∧ (s.back ≠ [] → BackDropped s after) := by
      intro before s after heq
      obtain ⟨hfront, hback⟩ := he.trimmed.dropped heq
      refine ⟨fun hf => ?_, hback⟩
      obtain ⟨⟨-, hs⟩ | hskips, hline⟩ := hfront hf
      · simp at hs
      · exact ⟨hskips, hline⟩
    refine ⟨parts, hl, fun others ho => ho.unique hl rfl, htexts, hdropped, fun hopen hclose => ?_⟩
    have hkept : ∀ p ∈ parts, p.kept? = p.stretch? := fun p hp =>
      hl.kept?_eq_stretch? hdropped hopen hclose hp
    rw [htexts, List.filterMap_congr hkept]

/-- Blanks are dropped on both sides of a tag with dashes. Those before a comment that is in between
stay. -/
theorem texts_ofText_dashes :
    let text := "a\n \x7b# b #\x7d \x7b%- if c -%\x7d\t\n d\x7b% endif %\x7d"
    ∃ tokens parts, ofText text = .ok tokens ∧ Layout parts text.toList ∧
      texts tokens = [some "a\n ", some " d"] ∧
      (parts.filterMap Part.kept?).map some = [some "a\n ", some " d"] ∧
      ∀ before s after, parts = before ++ .text s :: after →
        (s.front ≠ [] → FrontDropped before s after) ∧ (s.back ≠ [] → BackDropped s after) := by
  intro text
  have hval : (ofText text).toOption.map texts = some [some "a\n ", some " d"] := by
    decide +kernel
  cases h : ofText text with
  | error e => simp [h, Except.toOption] at hval
  | ok tokens =>
    have htexts : texts tokens = [some "a\n ", some " d"] := by
      simpa [h, Except.toOption] using hval
    obtain ⟨parts, hl, -, hkept, hdropped, -⟩ := texts_ofText h
    exact ⟨tokens, parts, rfl, hl, htexts, hkept.symm.trans htexts, hdropped⟩

end Token
end CodeTemplate

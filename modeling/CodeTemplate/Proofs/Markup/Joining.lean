import CodeTemplate.Proofs.Markup.Appending
import CodeTemplate.Proofs.Markup.Bracket
import CodeTemplate.Proofs.Markup.Indent
import CodeTemplate.Proofs.Markup.Relocation
import CodeTemplate.Proofs.Markup.Stretch

/-! Templates of texts that are put together. The tokens of the whole are those of its parts, and so
are the nodes, but for a text that goes on behind the seam. -/

namespace CodeTemplate

open Piece (Cuts goOn)

/-! ### Pieces that strip nothing -/

/-- Whether a piece of the kind removes the blanks before it. -/
def PieceKind.strips : PieceKind → Bool
  | .comment trimBefore _ => trimBefore
  | .blockOpen trim => trim
  | _ => false

namespace Piece

open Outline

theorem cut_of_cuts {mode : Mode} {start : Cursor} {cs : List Char} {ps : List Piece}
    (h : Cuts mode start cs ps) : cut mode start cs = .ok ps := by
  induction h with
  | nil => rw [cut]
  | cons hn _ ih => simp only [cut, hn, ih]

theorem Opened.infix_strips {cs : List Char} {n : Nat} {kind : PieceKind} (h : Opened cs n kind)
    (hs : kind.strips = true) : ['\x7b', '%', '-'] <:+: '\x7b' :: cs.take n := by
  cases h with
  | comment _ hc hw =>
    rw [← hc]
    exact hw.infix_strips hs
  | «variable» => simp [PieceKind.strips] at hs
  | block htake =>
    obtain rfl : _ = true := hs
    rw [htake]
    exact List.infix_rfl

theorem Cuts.not_strips {mode : Mode} {start : Cursor} {cs : List Char} {ps : List Piece}
    (h : Cuts mode start cs ps) (hd : ¬ ['\x7b', '%', '-'] <:+: cs) :
    ∀ p ∈ ps, p.kind.strips = false := by
  induction h with
  | nil => simp
  | @cons mode start c cs kind n ps hn _ ih =>
    have hcs : c :: cs = (c :: cs.take n) ++ cs.drop n := by simp
    rw [List.forall_mem_cons]
    refine ⟨?_, ih fun hi => hd (hi.trans ?_)⟩
    · cases next_of_ok start hn with
      | text => rfl
      | opened _ hc ho =>
        subst hc
        refine Bool.eq_false_iff.2 fun hs => hd ((ho.infix_strips hs).trans ?_)
        rw [hcs]
        exact (List.prefix_append _ _).isInfix
      | closed hc =>
        cases hc with
        | block hk => exact hk ▸ rfl
        | «variable» hk => exact hk ▸ rfl
      | inner _ hi =>
        have hkind := (inner_sound hi).1
        cases kind <;> first | rfl | simp [isInner] at hkind
    · rw [hcs]
      exact (List.suffix_append _ _).isInfix

end Piece

/-! ### Tokens -/

namespace Token

/-- Tokens put together. Texts that meet are one token. -/
inductive Joined : List Token → List Token → List Token → Prop
  | apart {ts us : List Token} : Joined ts us (ts ++ us)
  | text {ts us : List Token} {x y z : Token} {v w : String} :
      x.kind = .text → x.value = some v → y.kind = .text → y.value = some w →
      z.kind = .text → z.value = some (v ++ w) →
      Joined (ts ++ [x]) (y :: us) (ts ++ z :: us)

/-- Tokens before pieces that strip nothing stay as they are. -/
theorem ofPieces_eq_append {ps : List Piece} (h : ∀ p ∈ ps, p.kind.strips = false)
    (before : List Token) (skip : Bool) :
    ofPieces before skip ps = ofPieces [] skip ps ++ before := by
  induction ps generalizing before skip with
  | nil => rfl
  | cons p ps ih =>
    obtain ⟨hp, hps⟩ := List.forall_mem_cons.1 h
    have hcons : ∀ (ts : List Token) (skip : Bool),
        ofPieces (ts ++ before) skip ps = ofPieces (ts ++ []) skip ps ++ before := by
      intro ts skip
      rw [ih hps (ts ++ before), ih hps (ts ++ []), List.append_nil, List.append_assoc]
    obtain ⟨kind, chars, start⟩ := p
    cases kind with
    | comment trimBefore trimAfter =>
      obtain rfl : trimBefore = false := hp
      exact hcons [] trimAfter
    | blockOpen trim =>
      obtain rfl : trim = false := hp
      exact hcons _ false
    | _ => exact hcons _ _

/-- The tokens after a piece, the last first, and whether the piece removes the rest of its line;
`s` is what they are before it. -/
def emit (atEnd : Bool) (s : List Token × Bool) (p : Piece) : List Token × Bool :=
  match p.kind with
  | .text =>
    let dropped := if s.2 then (blankRest? atEnd p.chars).getD 0 else 0
    ((ofText? p dropped).toList ++ s.1, false)
  | .comment trimBefore trimAfter => (if trimBefore then trimLast s.1 else s.1, trimAfter)
  | .blockOpen trim => ((ofPiece? p).toList ++ if trim then trimLast s.1 else s.1, false)
  | .blockClose trim => ((ofPiece? p).toList ++ s.1, trim)
  | _ => ((ofPiece? p).toList ++ s.1, false)

theorem ofPieces_cons (s : List Token × Bool) (p : Piece) (ps : List Piece) :
    ofPieces s.1 s.2 (p :: ps) = ofPieces (emit ps.isEmpty s p).1 (emit ps.isEmpty s p).2 ps := by
  rw [ofPieces, emit]
  cases p.kind <;> rfl

/-- The tokens of pieces that are not the last ones. -/
def emitAll (s : List Token × Bool) (ps : List Piece) : List Token × Bool := ps.foldl (emit false) s

/-- What comes of the first pieces does not depend on those behind them. -/
theorem ofPieces_append (s : List Token × Bool) (init : List Piece) {qs : List Piece}
    (hq : qs ≠ []) :
    ofPieces s.1 s.2 (init ++ qs) = ofPieces (emitAll s init).1 (emitAll s init).2 qs := by
  induction init generalizing s with
  | nil => rfl
  | cons p init ih =>
    have hempty : (init ++ qs).isEmpty = false := by simp [hq]
    rw [List.cons_append, ofPieces_cons, hempty]
    exact ih (emit false s p)

/-- The rest of a line that ends in the text is the same whatever follows. -/
theorem blankRest?_append {cs : List Char} (h : '\n' ∈ cs) (atEnd atEnd' : Bool) (ds : List Char) :
    blankRest? atEnd (cs ++ ds) = blankRest? atEnd' cs := by
  induction cs with
  | nil => simp at h
  | cons c cs ih =>
    simp only [List.cons_append, blankRest?]
    by_cases hc : c = '\n'
    · simp [hc]
    · rw [ih (by simpa [Ne.symm hc] using h)]

theorem blankRest?_le (atEnd : Bool) (cs : List Char) :
    (blankRest? atEnd cs).getD 0 ≤ cs.length := by
  cases h : blankRest? atEnd cs with
  | none => exact Nat.zero_le _
  | some n =>
    induction cs generalizing n with
    | nil => cases atEnd <;> simp_all [blankRest?]
    | cons c cs ih =>
      simp only [blankRest?] at h
      split at h
      · obtain rfl := Option.some.inj h
        simp
      · split at h
        · obtain ⟨m, hm, rfl⟩ := Option.map_eq_some_iff.1 h
          exact Nat.succ_le_succ (ih m hm)
        · simp at h

/-- A text and the text that it goes on into. -/
theorem joined_ofText? {last q : Piece} {n : Nat} (hn : n ≤ last.chars.length)
    (hstart : q.start = last.start.past last.chars) (hq : q.chars ≠ []) (ts us : List Token) :
    Joined (ts ++ (ofText? last n).toList) ((ofText? q 0).toList ++ us)
      (ts ++ ((ofText? { last with chars := last.chars ++ q.chars } n).toList ++ us)) := by
  by_cases hl : last.chars.drop n = []
  · have hlength : n = last.chars.length := by
      have hle := List.drop_eq_nil_iff.1 hl
      omega
    have hnone : ofText? last n = none := by rw [ofText?, hl]
    have hsame : ofText? { last with chars := last.chars ++ q.chars } n = ofText? q 0 := by
      simp only [ofText?, hlength, List.drop_left, List.take_left, List.drop_zero, List.take_zero,
        hstart]
      rfl
    rw [hnone, hsame, Option.toList_none, List.append_nil]
    exact .apart
  · obtain ⟨x, hx, hkx, hvx⟩ := ofText?_eq hl
    obtain ⟨y, hy, hky, hvy⟩ := ofText?_eq (p := q) (m := 0) hq
    have hdrop : (last.chars ++ q.chars).drop n = last.chars.drop n ++ q.chars :=
      List.drop_append_of_le_length hn
    obtain ⟨z, hz, hkz, hvz⟩ :=
      ofText?_eq (p := { last with chars := last.chars ++ q.chars }) (m := n) (by simp [hdrop, hq])
    rw [hx, hy, hz]
    refine .text hkx hvx hky hvy hkz ?_
    rw [hvz, hdrop, String.ofList_append, List.drop_zero]

/-- The tokens of a text that ends with a line break, and of a text behind it that strips nothing
before it. -/
theorem joined_ofPieces {init qs : List Piece} {last : Piece} {ds : List Char}
    (hk : last.kind = .text) (hl : last.chars.getLast? = some '\n')
    (hq : Cuts .text (last.start.past last.chars) ds qs) (hd : ¬ ['\x7b', '%', '-'] <:+: ds) :
    Joined (ofPieces [] false (init ++ [last])).reverse (ofPieces [] false qs).reverse
      (ofPieces [] false (init ++ goOn last qs)).reverse := by
  have hinit : ∀ qs ≠ [], ofPieces [] false (init ++ qs) =
      ofPieces (emitAll ([], false) init).1 (emitAll ([], false) init).2 qs :=
    fun _ hqs => ofPieces_append ([], false) init hqs
  generalize emitAll ([], false) init = s at hinit
  obtain ⟨before, skip⟩ := s
  let n := if skip then (blankRest? true last.chars).getD 0 else 0
  have hn : n ≤ last.chars.length := by
    dsimp only [n]
    split
    · exact blankRest?_le _ _
    · exact Nat.zero_le _
  -- What a tag before the last piece skips ends there, whatever is behind.
  have hline : '\n' ∈ last.chars := List.mem_of_getLast? hl
  have hfront : ∀ (atEnd : Bool) (more : List Char),
      (if skip then (blankRest? atEnd (last.chars ++ more)).getD 0 else 0) = n := by
    intro atEnd more
    rw [blankRest?_append hline atEnd true]
  have hone : ofPieces before skip [last] = (ofText? last n).toList ++ before := by
    simp [ofPieces, hk, n]
  have hreverse : ∀ t : Option Token, t.toList.reverse = t.toList := by
    rintro (_ | _) <;> rfl
  have hstrips := hq.not_strips hd
  rw [hinit [last] (by simp), hone, List.reverse_append, hreverse]
  cases hq with
  | nil =>
    rw [goOn, hinit [last] (by simp), hone, List.reverse_append, hreverse]
    have happart : Joined (before.reverse ++ (ofText? last n).toList) [] _ := .apart
    rwa [List.append_nil] at happart
  | @cons _ _ d ds kind m qs =>
    obtain ⟨-, hqs⟩ := List.forall_mem_cons.1 hstrips
    by_cases hkind : kind = .text
    · subst hkind
      let q : Piece := ⟨.text, d :: ds.take m, last.start.past last.chars⟩
      let both : Piece := { last with chars := last.chars ++ q.chars }
      have hq : ofPieces [] false (q :: qs) = ofPieces [] false qs ++ (ofText? q 0).toList := by
        rw [ofPieces, ofPieces_eq_append hqs]
        simp [q]
      have hboth : ofPieces before skip (both :: qs) =
          ofPieces [] false qs ++ ((ofText? both n).toList ++ before) := by
        rw [ofPieces, ofPieces_eq_append hqs]
        simp only [both, hk, hfront]
      rw [goOn, if_pos rfl, hinit _ (by simp), hboth, hq, List.reverse_append, List.reverse_append,
        List.reverse_append, hreverse, hreverse, List.append_assoc]
      exact joined_ofText? hn rfl (List.cons_ne_nil d _) _ _
    · have hlast : ∀ ps, ofPieces before skip (last :: ps) =
          ofPieces ((ofText? last n).toList ++ before) false ps := by
        intro ps
        rw [ofPieces]
        simp only [hk]
        rw [← hfront ps.isEmpty [], List.append_nil]
      rw [goOn, if_neg hkind, hinit _ (by simp), hlast,
        ofPieces_eq_append hstrips (_ ++ _), List.reverse_append, List.reverse_append, hreverse]
      exact .apart

theorem content_ofPieces (ps : List Piece) (l : Location) :
    Grammar.content (⟨.eof, none, l, ""⟩ :: ofPieces [] false ps).reverse =
      (ofPieces [] false ps).reverse := by
  have hwithin : Grammar.Within (ofPieces [] false ps).reverse := by
    intro t ht
    refine forall_mem_ofPieces (P := (·.kind ≠ .eof)) (fun _ _ _ _ _ _ h => h)
      (List.forall_mem_nil _) (fun p _ => ⟨?_, fun n => ?_⟩) t (List.mem_reverse.1 ht)
    · obtain ⟨kind, chars, start⟩ := p
      cases kind <;> simp [ofPiece?]
    · simp only [ofText?]
      split <;> simp
  rw [List.reverse_cons, Parser.content_append hwithin]
  simp [Grammar.content]

/-- A text behind a text that ends with a line break has the tokens that it has by itself, further
down, if it strips nothing before it. -/
theorem joined_ofText {a b : String} {ts us : List Token} (hl : a.toList.getLast? = some '\n')
    (hd : ¬ ['\x7b', '%', '-'] <:+: b.toList) (ha : ofText a = .ok ts) (hb : ofText b = .ok us) :
    ∃ f vs, ofText (a ++ b) = .ok vs ∧
      Joined (Grammar.content ts) ((Grammar.content us).map (moved f)) (Grammar.content vs) := by
  obtain ⟨ps, hps, rfl⟩ := map_ok.1 ha
  obtain ⟨qs, hqs, rfl⟩ := map_ok.1 hb
  obtain ⟨init, last, rfl, hk, hlast, hpast, hext⟩ := (Piece.cuts_of_cut hps).extend hl
  obtain ⟨k, hdown⟩ := Cursor.exists_down hl {}
  have hq := (Piece.cuts_of_cut hqs).down k
  rw [← hdown] at hq
  have hcut := Piece.cut_of_cuts (hext _ _ hq)
  rw [← String.toList_append] at hcut
  refine ⟨.down k, _, congrArg (Except.map _) hcut, ?_⟩
  rw [content_ofPieces, content_ofPieces, content_ofPieces, List.map_reverse, ← ofPieces_down]
  exact joined_ofPieces hk hlast (hpast ▸ hq) hd

end Token

/-! ### Nodes -/

/-- Nodes put together. Texts that meet are one node. -/
inductive Node.Joined : List Node → List Node → List Node → Prop
  | apart {ns ms : List Node} : Joined ns ms (ns ++ ms)
  | text {ns ms : List Node} {v w : String} :
      Joined (ns ++ [.text v]) (.text w :: ms) (ns ++ .text (v ++ w) :: ms)

namespace Grammar

variable {t : Token} {ts us vs : List Token} {ns ms : List Node} {value : String}

theorem allPlaced_append {inList : Bool} :
    AllPlaced inList (ns ++ ms) ↔ AllPlaced inList ns ∧ AllPlaced inList ms := by
  induction ns with
  | nil => simp [AllPlaced]
  | cons n ns ih => simp [AllPlaced, ih, and_assoc]

theorem allPlaced_joined {inList : Bool} {ls : List Node} (h : Node.Joined ns ms ls)
    (hn : AllPlaced inList ns) (hm : AllPlaced inList ms) : AllPlaced inList ls := by
  cases h with
  | apart => exact allPlaced_append.2 ⟨hn, hm⟩
  | text => exact allPlaced_append.2 ⟨(allPlaced_append.1 hn).1, hm⟩

theorem Derives.append (h : Derives ts ns) (h' : Derives us ms) :
    Derives (ts ++ us) (ns ++ ms) := by
  induction h with
  | nil => exact h'
  | leaf hl _ ih =>
    rw [List.append_assoc]
    exact .leaf hl ih
  | block ho hb hc _ _ ih =>
    simp only [List.append_assoc]
    exact .block ho hb hc ih
  | branches hi hp ht he hn hs _ _ _ ih =>
    simp only [List.append_assoc]
    exact .branches hi hp ht he hn hs ih

/-- The tokens start and end with delimiters. -/
def Delimited (ts : List Token) : Prop :=
  ∃ start inner stop, ts = start :: (inner ++ [stop]) ∧ start.kind ≠ .text ∧ stop.kind ≠ .text

theorem Delimited.cons_ne (h : Delimited ts) (ht : t.kind = .text) (us vs : List Token) :
    t :: us ≠ ts ++ vs := by
  obtain ⟨start, inner, stop, rfl, hs, -⟩ := h
  rintro heq
  exact hs ((List.cons.inj heq).1 ▸ ht)

/-- Tokens that end with a text do so behind what is delimited among them. -/
theorem Delimited.exists_concat (h : Delimited ts) (ht : t.kind = .text)
    {us before after : List Token} (heq : us ++ [t] = before ++ (ts ++ after)) :
    ∃ rest, after = rest ++ [t] ∧ us = before ++ (ts ++ rest) := by
  -- If nothing were behind, the text would be the closing delimiter.
  rcases List.eq_nil_or_concat' after with rfl | ⟨rest, x, rfl⟩
  · obtain ⟨start, inner, stop, rfl, -, hs⟩ := h
    rw [List.append_nil, ← List.cons_append, ← List.append_assoc, List.append_singleton_inj] at heq
    exact absurd (heq.2 ▸ ht) hs
  · rw [← List.append_assoc ts, ← List.append_assoc, List.append_singleton_inj] at heq
    exact ⟨rest, by rw [heq.2], heq.1⟩

theorem IsTag.delimited {name : String} {start : Token} {args : List Token}
    (h : IsTag name start args ts) : Delimited ts := by
  cases h with
  | @mk word stop _ hs _ hc => exact ⟨start, word :: args, stop, rfl, by simp [hs], by simp [hc]⟩

theorem Opening.delimited {endTag : String} {node : List Node → Node}
    (h : Opening ts endTag node) : Delimited ts := by
  cases h with
  | conditional ht | loop ht | filtered ht | imports ht | parameterList ht | parameter ht
    | groupedParameter ht => exact ht.delimited

theorem IsLeaf.text_or_delimited {n : Node} (h : IsLeaf ts n) :
    (∃ t value, ts = [t] ∧ t.value = some value ∧ n = .text value) ∨ Delimited ts := by
  cases h with
  | text _ hv => exact .inl ⟨_, _, rfl, hv, rfl⟩
  | @«variable» start stop ps fs _ _ hk _ _ hc =>
    exact .inr ⟨start, ps ++ fs, stop, by simp, by simp [hk], by simp [hc]⟩
  | language ht | copyright ht | docComment ht | literal ht | templateTag ht
    | inheritedTag ht | call ht => exact .inr ht.delimited

theorem Delimited.ne_nil (h : Delimited ts) : ts ≠ [] := by
  obtain ⟨start, inner, stop, rfl, -, -⟩ := h
  exact List.cons_ne_nil _ _

theorem Derives.eq_nil (h : Derives [] ns) : ns = [] := by
  generalize hvs : [] = vs at h
  cases h with
  | nil => rfl
  | leaf hl =>
    rcases hl.text_or_delimited with ⟨_, _, rfl, -⟩ | hdel
    · simp at hvs
    · exact absurd (List.append_eq_nil_iff.1 hvs.symm).1 hdel.ne_nil
  | block ho => exact absurd (List.append_eq_nil_iff.1 hvs.symm).1 ho.delimited.ne_nil
  | branches hi => exact absurd (List.append_eq_nil_iff.1 hvs.symm).1 hi.delimited.ne_nil

/-- A text that the tokens start with is the first node. -/
theorem Derives.text_cons (h : Derives (t :: us) ns) (hk : t.kind = .text)
    (hv : t.value = some value) : ∃ ms, ns = .text value :: ms ∧ Derives us ms := by
  generalize hvs : t :: us = vs at h
  cases h with
  | nil => simp at hvs
  | leaf hl hd =>
    rcases hl.text_or_delimited with ⟨x, v, rfl, hx, rfl⟩ | hdel
    · obtain ⟨rfl, rfl⟩ := List.cons.inj hvs
      obtain rfl := Option.some.inj (hv.symm.trans hx)
      exact ⟨_, rfl, hd⟩
    · exact absurd hvs (hdel.cons_ne hk _ _)
  | block ho => exact absurd hvs (ho.delimited.cons_ne hk _ _)
  | branches hi => exact absurd hvs (hi.delimited.cons_ne hk _ _)

/-- A text that the tokens end with is the last node. -/
theorem Derives.text_concat (h : Derives (ts ++ [t]) ns) (hk : t.kind = .text)
    (hv : t.value = some value) : ∃ ms, ns = ms ++ [.text value] ∧ Derives ts ms := by
  generalize hvs : ts ++ [t] = vs at h
  induction h generalizing ts with
  | nil => simp at hvs
  | @leaf xs us n ns hl hd ih =>
    rcases hl.text_or_delimited with ⟨x, v, rfl, hx, rfl⟩ | hdel
    · rcases List.eq_nil_or_concat' us with rfl | ⟨rest, y, rfl⟩
      · have hone : ts ++ [t] = [] ++ [x] := hvs
        obtain ⟨rfl, rfl⟩ := List.append_singleton_inj.1 hone
        obtain rfl := Option.some.inj (hv.symm.trans hx)
        obtain rfl := hd.eq_nil
        exact ⟨[], rfl, .nil⟩
      · rw [← List.append_assoc, List.append_singleton_inj] at hvs
        obtain ⟨rfl, rfl⟩ := hvs
        obtain ⟨ms, rfl, hms⟩ := ih rfl
        exact ⟨_ :: ms, rfl, .leaf hl hms⟩
    · have hall : ts ++ [t] = [] ++ (xs ++ us) := hvs
      obtain ⟨rest, rfl, rfl⟩ := hdel.exists_concat hk hall
      obtain ⟨ms, rfl, hms⟩ := ih rfl
      have hleaf : Derives (xs ++ rest) _ := .leaf hl hms
      exact ⟨_ :: ms, rfl, hleaf⟩
  | @block xs inner close us _ _ _ _ _ ho hb hc hd _ ih =>
    rw [← List.append_assoc] at hvs
    obtain ⟨rest, rfl, rfl⟩ := hc.delimited.exists_concat hk hvs
    obtain ⟨ms, rfl, hms⟩ := ih rfl
    rw [List.append_assoc]
    exact ⟨_ :: ms, rfl, .block ho hb hc hms⟩
  | @branches _ xs yes middle no close us _ _ _ _ _ _ _ hi hp ht he hn hs hd _ _ ih =>
    simp only [← List.append_assoc] at hvs
    rw [List.append_assoc] at hvs
    obtain ⟨rest, rfl, rfl⟩ := hs.delimited.exists_concat hk hvs
    obtain ⟨ms, rfl, hms⟩ := ih rfl
    simp only [List.append_assoc]
    exact ⟨_ :: ms, rfl, .branches hi hp ht he hn hs hms⟩

/-- Tokens put together derive the nodes put together. -/
theorem Derives.joined (h : Derives ts ns) (h' : Derives us ms) (hj : Token.Joined ts us vs) :
    ∃ ls, Node.Joined ns ms ls ∧ Derives vs ls := by
  cases hj with
  | apart => exact ⟨_, .apart, h.append h'⟩
  | text hkx hvx hky hvy hkz hvz =>
    obtain ⟨ns, rfl, hns⟩ := h.text_concat hkx hvx
    obtain ⟨ms, rfl, hms⟩ := h'.text_cons hky hvy
    exact ⟨_, .text, hns.append (.leaf (.text hkz hvz) hms)⟩

end Grammar

/-- Templates of texts can be put together, if the first text ends with a line break and the second
strips nothing before it. -/
theorem Template.ofText_append {name : Option String} {a b : String} {t u : Template}
    (hl : a.toList.getLast? = some '\n') (hd : ¬ ['\x7b', '%', '-'] <:+: b.toList)
    (ht : ofText name a = .ok t) (hu : ofText name b = .ok u) :
    ∃ f v, ofText name (a ++ b) = .ok v ∧
      Node.Joined t.nodes (Node.allMoved f u.nodes) v.nodes := by
  obtain ⟨-, ts, hts, hdt, hpt⟩ := ofText_iff_derives.1 ht
  obtain ⟨-, us, hus, hdu, hpu⟩ := ofText_iff_derives.1 hu
  obtain ⟨f, vs, hvs, hjoined⟩ := Token.joined_ofText hl hd hts hus
  obtain ⟨ns, hns, hdv⟩ := hdt.joined hdu.moved hjoined
  have hpv := Grammar.allPlaced_joined hns hpt ((Grammar.allPlaced_moved f _ _).2 hpu)
  exact ⟨f, ⟨name, ns⟩, ofText_iff_derives.2 ⟨rfl, vs, hvs, hdv, hpv⟩, hns⟩

end CodeTemplate

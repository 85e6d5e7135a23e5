import CodeTemplate.Markup.Token.OfText
import CodeTemplate.Proofs.Markup.Cutting
import CodeTemplate.Proofs.Markup.Derivation

/-! Template text that stands on later lines. It has the same pieces, the same tokens and the same
nodes, and they start as many lines further down. -/

namespace CodeTemplate

def Location.down (k : Nat) (l : Location) : Location := { l with line := l.line + k }

namespace Cursor

def down (k : Nat) (c : Cursor) : Cursor := { c with location := c.location.down k }

theorem advance_down (k : Nat) (c : Cursor) (ch : Char) :
    (c.down k).advance ch = (c.advance ch).down k := by
  simp only [advance]
  split <;> simp [down, Location.down, Nat.add_right_comm]

theorem past_down (k : Nat) (c : Cursor) (cs : List Char) :
    (c.down k).past cs = (c.past cs).down k := by
  induction cs generalizing c with
  | nil => rfl
  | cons ch cs ih => exact (congrArg (past · cs) (advance_down k c ch)).trans (ih _)

/-- Behind a line break everything starts over, on a later line. -/
theorem exists_down {cs : List Char} (h : cs.getLast? = some '\n') (c : Cursor) :
    ∃ k, c.past cs = down k {} := by
  obtain ⟨cs, rfl⟩ := List.getLast?_eq_some_iff.1 h
  refine ⟨(c.past cs).location.line, ?_⟩
  rw [past_append]
  simp [past, advance, down, Location.down, Nat.add_comm]

end Cursor

namespace Piece

def down (k : Nat) (p : Piece) : Piece := { p with start := p.start.down k }

def Mode.down (k : Nat) : Mode → Mode
  | .text => .text
  | .block opened => .block (opened.down k)
  | .variable opened => .variable (opened.down k)

theorem Mode.after_down (k : Nat) (mode : Mode) (start : Location) (kind : PieceKind) :
    (mode.down k).after (start.down k) kind = (mode.after start kind).down k := by
  cases kind <;> rfl

theorem closing?_down (k : Nat) (mode : Mode) (cs : List Char) :
    closing? (mode.down k) cs = closing? mode cs := by
  cases mode with
  | text => rfl
  | _ =>
    simp only [closing?, Mode.down]
    split <;> simp_all

theorem next_down (k : Nat) (mode : Mode) (c : Char) (cs : List Char) :
    next (mode.down k) c cs = next mode c cs := by
  have hclosing := closing?_down k mode (c :: cs)
  cases mode with
  | text => rfl
  | _ =>
    simp only [next, Mode.down] at hclosing ⊢
    rw [hclosing]

theorem Cuts.down (k : Nat) {mode : Mode} {start : Cursor} {cs : List Char} {ps : List Piece}
    (h : Cuts mode start cs ps) :
    Cuts (mode.down k) (start.down k) cs (ps.map (Piece.down k)) := by
  induction h with
  | nil => exact .nil
  | @cons mode start c cs kind n ps hn _ ih =>
    rw [← Mode.after_down, ← Cursor.past_down] at ih
    exact .cons ((next_down k mode c cs).trans hn) ih

end Piece

namespace Token

/-- The token at another place. -/
def moved (f : Location → Location) (t : Token) : Token := { t with location := f t.location }

theorem ofPiece?_down (k : Nat) (p : Piece) :
    ofPiece? (p.down k) = (ofPiece? p).map (moved (.down k)) := by
  obtain ⟨kind, chars, start⟩ := p
  cases kind with
  | blockClose trim =>
    cases trim with
    | true =>
      simp only [ofPiece?, Piece.down, ↓reduceIte, Cursor.advance_down]
      rfl
    | false => rfl
  | _ => rfl

theorem ofText?_down (k : Nat) (p : Piece) (n : Nat) :
    ofText? (p.down k) n = (ofText? p n).map (moved (.down k)) := by
  simp only [ofText?, Piece.down, Cursor.past_down]
  split <;> rfl

theorem trimLast_moved (f : Location → Location) (ts : List Token) :
    trimLast (ts.map (moved f)) = (trimLast ts).map (moved f) := by
  cases ts with
  | nil => rfl
  | cons t ts =>
    simp only [trimLast, List.map_cons, moved]
    split
    · split <;> rfl
    · rfl

theorem ofPieces_down (k : Nat) (before : List Token) (skip : Bool) (ps : List Piece) :
    ofPieces (before.map (moved (.down k))) skip (ps.map (Piece.down k)) =
      (ofPieces before skip ps).map (moved (.down k)) := by
  have htrim : ∀ (ts : List Token) (trim : Bool),
      (if trim then trimLast (ts.map (moved (.down k))) else ts.map (moved (.down k))) =
        (if trim then trimLast ts else ts).map (moved (.down k)) := by
    intro ts trim
    cases trim with
    | true => exact trimLast_moved _ ts
    | false => rfl
  have hmap : ∀ (o : Option Token) (ts : List Token),
      (o.map (moved (.down k))).toList ++ ts.map (moved (.down k)) =
        (o.toList ++ ts).map (moved (.down k)) := by
    intro o ts
    cases o <;> rfl
  induction ps generalizing before skip with
  | nil => rfl
  | cons p ps ih =>
    have hkind : (p.down k).kind = p.kind := rfl
    have hchars : (p.down k).chars = p.chars := rfl
    simp only [List.map_cons, ofPieces, hkind, hchars, List.isEmpty_map, ofPiece?_down,
      ofText?_down, htrim, hmap]
    split <;> exact ih _ _

end Token

namespace Node

mutual

/-- The node at another place. -/
def moved (f : Location → Location) : Node → Node
  | .text value => .text value
  | .inherited member => .inherited member
  | .variable path filters start => .variable path filters (f start)
  | .conditional condition thenBranch none start =>
    .conditional condition (allMoved f thenBranch) none (f start)
  | .conditional condition thenBranch (some elseBranch) start =>
    .conditional condition (allMoved f thenBranch) (some (allMoved f elseBranch)) (f start)
  | .loop item collection body start => .loop item collection (allMoved f body) (f start)
  | .filtered filters body start => .filtered filters (allMoved f body) (f start)
  | .imports subject body start => .imports subject (allMoved f body) (f start)
  | .call template args start => .call template args (f start)
  | .docComment subject indent start => .docComment subject indent (f start)
  | .literal path start => .literal path (f start)
  | .parameterList body start => .parameterList (allMoved f body) (f start)
  | .parameter grouped body start => .parameter grouped (allMoved f body) (f start)
  | .language name start => .language name (f start)
  | .copyright indent start => .copyright indent (f start)

def allMoved (f : Location → Location) : List Node → List Node
  | [] => []
  | n :: ns => moved f n :: allMoved f ns

end

mutual

theorem moved_id (n : Node) : moved id n = n := by
  cases n with
  | conditional condition thenBranch elseBranch start =>
    cases elseBranch with
    | none => simp [moved, allMoved_id thenBranch]
    | some elseBranch => simp [moved, allMoved_id thenBranch, allMoved_id elseBranch]
  | loop item collection body start => simp [moved, allMoved_id body]
  | filtered filters body start => simp [moved, allMoved_id body]
  | imports subject body start => simp [moved, allMoved_id body]
  | parameterList body start => simp [moved, allMoved_id body]
  | parameter grouped body start => simp [moved, allMoved_id body]
  | _ => rfl

/-- What stays in its place stays what it is. -/
theorem allMoved_id (ns : List Node) : allMoved id ns = ns := by
  cases ns with
  | nil => rfl
  | cons n ns => rw [allMoved, moved_id n, allMoved_id ns]

end

end Node

namespace Grammar

open Node (moved allMoved)

variable (f : Location → Location)

mutual

theorem placed_moved (inList : Bool) (n : Node) : Placed inList (moved f n) ↔ Placed inList n := by
  cases n with
  | conditional condition thenBranch elseBranch start =>
    cases elseBranch with
    | none => exact allPlaced_moved inList thenBranch
    | some elseBranch =>
      exact and_congr (allPlaced_moved inList thenBranch) (allPlaced_moved inList elseBranch)
  | loop item collection body start => exact allPlaced_moved inList body
  | filtered filters body start => exact allPlaced_moved inList body
  | imports subject body start => exact allPlaced_moved inList body
  | parameterList body start => exact allPlaced_moved true body
  | parameter grouped body start => exact and_congr_right fun _ => allPlaced_moved false body
  | _ => exact Iff.rfl

theorem allPlaced_moved (inList : Bool) (ns : List Node) :
    AllPlaced inList (allMoved f ns) ↔ AllPlaced inList ns := by
  cases ns with
  | nil => exact Iff.rfl
  | cons n ns => exact and_congr (placed_moved inList n) (allPlaced_moved inList ns)

end

variable {f} {ts : List Token}

theorem Items.moved {α : Type} {item : Token → Token → α → Prop} {as : List α}
    (hi : ∀ sign t a, item sign t a → item (sign.moved f) (t.moved f) a) (h : Items item ts as) :
    Items item (ts.map (Token.moved f)) as := by
  induction h with
  | nil => exact .nil
  | cons h _ ih => exact .cons (hi _ _ _ h) ih

theorem IsPath.moved {p : Path} (h : IsPath ts p) : IsPath (ts.map (Token.moved f)) p := by
  cases h with
  | mk hi hs => exact .mk hi (hs.moved fun _ _ _ h => h)

theorem IsName.moved {s : String} (h : IsName ts s) : IsName (ts.map (Token.moved f)) s := by
  cases h with
  | quoted h => exact .quoted h
  | relative hi hs => exact .relative hi (hs.moved fun _ _ _ h => h)
  | rooted hk hi hs => exact .rooted hk hi (hs.moved fun _ _ _ h => h)

theorem IsArguments.moved {args : List Argument} (h : IsArguments ts args) :
    IsArguments (ts.map (Token.moved f)) args := by
  induction h with
  | nil => exact .nil
  | path hk he hp _ ih =>
    simp only [List.map_cons, List.map_append]
    exact .path hk he hp.moved ih
  | string hk he hs _ ih => exact .string hk he hs ih

theorem IsTag.moved {name : String} {start : Token} {args : List Token}
    (h : IsTag name start args ts) :
    IsTag name (start.moved f) (args.map (Token.moved f)) (ts.map (Token.moved f)) := by
  cases h with
  | mk _ hs hw hc =>
    simp only [List.map_cons, List.map_append, List.map_nil]
    exact .mk _ hs hw hc

theorem IsLeaf.moved {n : Node} (h : IsLeaf ts n) :
    IsLeaf (ts.map (Token.moved f)) (n.moved f) := by
  cases h with
  | text hk hv => exact .text hk hv
  | «variable» hk hp hf hc =>
    simp only [List.map_cons, List.map_append, List.map_nil]
    exact .variable hk hp.moved (hf.moved fun _ _ _ h => h) hc
  | language ht hi => exact .language ht.moved hi
  | copyright ht => exact .copyright ht.moved
  | docComment ht hp => exact .docComment ht.moved hp.moved
  | literal ht hp => exact .literal ht.moved hp.moved
  | templateTag ht hi hm => exact .templateTag ht.moved hi hm
  | inheritedTag ht hi hm => exact .inheritedTag ht.moved hi hm
  | call ht hn hf ha hd =>
    have ht := ht.moved (f := f)
    rw [List.map_append] at ht
    exact .call ht hn.moved hf ha.moved hd

theorem Opening.moved {endTag : String} {node : List Node → Node} (h : Opening ts endTag node) :
    ∃ node', Opening (ts.map (Token.moved f)) endTag node' ∧
      ∀ body, node' (allMoved f body) = (node body).moved f := by
  cases h with
  | conditional ht hp => exact ⟨_, .conditional ht.moved hp.moved, fun _ => rfl⟩
  | loop ht hi hw hp => exact ⟨_, .loop ht.moved hi hw hp.moved, fun _ => rfl⟩
  | filtered ht hf hs =>
    exact ⟨_, .filtered ht.moved hf (hs.moved fun _ _ _ h => h), fun _ => rfl⟩
  | imports ht hp => exact ⟨_, .imports ht.moved hp.moved, fun _ => rfl⟩
  | parameterList ht => exact ⟨_, .parameterList ht.moved, fun _ => rfl⟩
  | parameter ht => exact ⟨_, .parameter ht.moved, fun _ => rfl⟩
  | groupedParameter ht hg => exact ⟨_, .groupedParameter ht.moved hg, fun _ => rfl⟩

theorem Derives.moved {ns : List Node} (h : Derives ts ns) :
    Derives (ts.map (Token.moved f)) (allMoved f ns) := by
  induction h with
  | nil => exact .nil
  | leaf hl _ ih =>
    rw [List.map_append]
    exact .leaf hl.moved ih
  | block ho _ hc _ ihb ih =>
    obtain ⟨node', ho', hnode⟩ := ho.moved (f := f)
    simp only [List.map_append, allMoved, ← hnode]
    exact .block ho' ihb hc.moved ih
  | branches hi hp _ he _ hs _ iht ihe ih =>
    simp only [List.map_append, allMoved, Node.moved]
    exact .branches hi.moved hp.moved iht he.moved ihe hs.moved ih

end Grammar
end CodeTemplate

import CodeTemplate.Proofs.Markup.Bracket
import CodeTemplate.Proofs.Markup.Derivation
import CodeTemplate.Proofs.Text.Infix
import CodeTemplate.Render.Error

/-! Where the indents of nodes come from: a cursor collects blanks alone, a block tag takes them
from the cursor at its start, and a node from the first token of its tag. -/

namespace CodeTemplate

open Text (Indents)

theorem Cursor.indents_advance {c : Cursor} (h : Indents c.indent) (ch : Char) :
    Indents (c.advance ch).indent := by
  simp only [advance]
  split
  · simp [Indents]
  · split
    · next hl =>
      intro d hd
      rw [String.toList_push, List.mem_append, List.mem_singleton] at hd
      rcases hd with hd | rfl
      · exact h d hd
      · exact (Bool.and_eq_true_iff.1 hl).2
    · exact h

theorem Cursor.indents_past {c : Cursor} (h : Indents c.indent) (cs : List Char) :
    Indents (c.past cs).indent := by
  induction cs generalizing c with
  | nil => exact h
  | cons ch cs ih => exact ih (indents_advance h ch)

namespace Piece

theorem Cuts.indents {mode : Mode} {start : Cursor} {cs : List Char} {ps : List Piece}
    (h : Cuts mode start cs ps) (hs : Indents start.indent) :
    ∀ p ∈ ps, Indents p.start.indent := by
  induction h with
  | nil => simp
  | cons _ _ ih =>
    rw [List.forall_mem_cons]
    exact ⟨hs, ih (Cursor.indents_past hs _)⟩

end Piece

namespace Token

theorem indents_ofPiece? {p : Piece} (hp : Indents p.start.indent) :
    ∀ t ∈ (ofPiece? p).toList, Indents t.indent := by
  have hempty : Indents "" := by simp [Indents]
  intro t ht
  rw [Option.mem_toList] at ht
  simp only [ofPiece?] at ht
  split at ht <;> first | contradiction | obtain rfl := Option.some.inj ht
  · exact hp
  all_goals exact hempty

theorem indents_ofText? (p : Piece) (n : Nat) : ∀ t ∈ (ofText? p n).toList, Indents t.indent := by
  intro t ht
  rw [Option.mem_toList] at ht
  simp only [ofText?] at ht
  split at ht
  · contradiction
  · obtain rfl := Option.some.inj ht
    simp [Indents]

/-- A token has its indent from the piece that it is made of. -/
theorem indents_of_mem_ofText {text : String} {ts : List Token} (h : ofText text = .ok ts) :
    ∀ t ∈ ts, Indents t.indent := by
  have hempty : Indents "" := by simp [Indents]
  obtain ⟨ps, hps, rfl⟩ := map_ok.1 h
  have hpieces := (Piece.cuts_of_cut hps).indents hempty
  intro t ht
  rcases List.mem_cons.1 (List.mem_reverse.1 ht) with rfl | ht
  · exact hempty
  · exact forall_mem_ofPieces (fun _ _ _ _ _ _ hi => hi) (List.forall_mem_nil _)
      (fun p hp => ⟨indents_ofPiece? (hpieces p hp), indents_ofText? p⟩) t ht

end Token

namespace Node

mutual

/-- The nodes in the body of a node. -/
def nested : Node → List Node
  | .conditional _ thenBranch none _ => allWithin thenBranch
  | .conditional _ thenBranch (some elseBranch) _ => allWithin thenBranch ++ allWithin elseBranch
  | .loop _ _ body _ => allWithin body
  | .filtered _ body _ => allWithin body
  | .imports _ body _ => allWithin body
  | .parameterList body _ => allWithin body
  | .parameter _ body _ => allWithin body
  | _ => []

/-- Nodes with all the nodes in them. -/
def allWithin : List Node → List Node
  | [] => []
  | n :: ns => n :: (nested n ++ allWithin ns)

end

end Node

namespace Grammar

open Node (nested allWithin)

variable {ts : List Token} {subject : Path} {indent : String} {start : Location}

theorem IsTag.start_mem {name : String} {first : Token} {args : List Token}
    (h : IsTag name first args ts) : first ∈ ts := by
  cases h with
  | mk => exact List.mem_cons_self

theorem IsLeaf.nested_eq_nil {n : Node} (h : IsLeaf ts n) : nested n = [] := by
  cases h <;> rfl

theorem Opening.nested_eq {endTag : String} {node : List Node → Node} (h : Opening ts endTag node)
    (body : List Node) : nested (node body) = allWithin body := by
  cases h <;> rfl

/-- What is true of each node that the tokens of its own tag make is true of all nodes, however
deep they are. -/
theorem Derives.forall_mem {P : Node → Prop} {ns : List Node} (h : Derives ts ns)
    (hleaf : ∀ us n, us ⊆ ts → IsLeaf us n → P n)
    (hopening : ∀ us endTag node body, us ⊆ ts → Opening us endTag node → P (node body))
    (hbranches : ∀ us start ps p thenBranch elseBranch, us ⊆ ts → IsTag "if" start ps us →
      P (.conditional p thenBranch (some elseBranch) start.location)) :
    ∀ n ∈ allWithin ns, P n := by
  -- The parts of the tokens are compared with all of them, which stay what they are.
  generalize hall : ts = all at hleaf hopening hbranches
  have hsub : ts ⊆ all := hall ▸ List.Subset.refl ts
  clear hall
  induction h with
  | nil => simp [allWithin]
  | @leaf ts us n ns hl _ ih =>
    obtain ⟨hts, hus⟩ := List.append_subset.1 hsub
    rw [allWithin, hl.nested_eq_nil, List.nil_append]
    exact List.forall_mem_cons.2 ⟨hleaf _ _ hts hl, ih hus⟩
  | @block ts inner close us endTag node stop body ns ho _ _ _ ihb ih =>
    simp only [List.append_subset] at hsub
    obtain ⟨hts, hinner, -, hus⟩ := hsub
    rw [allWithin, ho.nested_eq]
    exact List.forall_mem_cons.2 ⟨hopening _ _ _ _ hts ho,
      List.forall_mem_append.2 ⟨ihb hinner, ih hus⟩⟩
  | @branches ps ts yes middle no close us start split stop p thenBranch elseBranch ns hi _ _ _ _ _
      _ iht ihe ih =>
    simp only [List.append_subset] at hsub
    obtain ⟨hts, hyes, -, hno, -, hus⟩ := hsub
    rw [allWithin, nested]
    exact List.forall_mem_cons.2 ⟨hbranches _ _ _ _ _ _ hts hi,
      List.forall_mem_append.2 ⟨List.forall_mem_append.2 ⟨iht hyes, ihe hno⟩, ih hus⟩⟩

/-- A comment of the nodes, however deep in them, is indented as one of the tokens. -/
theorem Derives.exists_indent {ns : List Node} (h : Derives ts ns)
    (hm : .docComment subject indent start ∈ allWithin ns) : ∃ t ∈ ts, t.indent = indent := by
  refine h.forall_mem (P := fun n => n = .docComment subject indent start →
    ∃ t ∈ ts, t.indent = indent) ?_ ?_ ?_ _ hm rfl
  · rintro us n hs hl rfl
    cases hl with
    | docComment ht _ => exact ⟨_, hs ht.start_mem, rfl⟩
  · rintro us endTag node body - ho heq
    cases ho <;> contradiction
  · rintro us start ps p thenBranch elseBranch - - heq
    contradiction

end Grammar

namespace Template

variable {name : Option String} {text : String} {t : Template}

/-- A template of a text is one of its tokens. -/
theorem ofText_eq_ok : ofText name text = .ok t ↔
    ∃ ts, Token.ofText text = .ok ts ∧ ofTokens name ts = .ok t := by
  simp only [ofText]
  cases hts : Token.ofText text with
  | error l => simp
  | ok ts => cases ht : ofTokens name ts <;> simp [ht]

/-- The tokens of a text derive the nodes of its template. -/
theorem ofText_iff_derives : ofText name text = .ok t ↔ t.name = name ∧
    ∃ ts, Token.ofText text = .ok ts ∧ Grammar.Derives (Grammar.content ts) t.nodes ∧
      Grammar.AllPlaced false t.nodes := by
  obtain ⟨n, ns⟩ := t
  simp only [ofText_eq_ok, ofTokens, map_ok, Parser.ofTokens_ok, mk.injEq]
  constructor
  · rintro ⟨ts, hts, _, h, rfl, rfl⟩
    exact ⟨rfl, ts, hts, h⟩
  · rintro ⟨rfl, ts, hts, h⟩
    exact ⟨ts, hts, ns, h, rfl, rfl⟩

/-- The comments of a template are indented by blanks. -/
theorem indents_of_ofText (h : ofText name text = .ok t) {subject : Path} {indent : String}
    {start : Location} (hm : .docComment subject indent start ∈ Node.allWithin t.nodes) :
    Indents indent := by
  obtain ⟨-, ts, hts, hd, -⟩ := ofText_iff_derives.1 h
  obtain ⟨t, ht, rfl⟩ := hd.exists_indent hm
  have hsub : Grammar.content ts ⊆ ts := List.takeWhile_subset _
  exact Token.indents_of_mem_ofText hts t (hsub ht)

end Template
end CodeTemplate

import CodeTemplate.Markup.Tree.Tag

/-! Templates read from tokens by recursive descent. A block reads its body, which ends at a tag
that closes or splits it. The open blocks are kept on a stack beside the recursion. -/

namespace CodeTemplate

namespace Parser

/-- A reading that knows the open blocks, the innermost first. -/
abbrev Reading (α : Type) := ExceptT (Located ParseFault) (StateM (List Block)) α

/-- What was read from tokens, and the tokens after it. These are no more than there were. -/
structure Consumed (ts : List Token) (α : Type) where
  value : α
  rest : List Token
  length_le : rest.length ≤ ts.length

/-- The tag that ended the nodes before it: its name, and the token that holds it. -/
structure BlockEnd where
  name : String
  token : Token

/-- What comes next among nodes: another node, or the tag that ends them. -/
inductive Item where
  | node (n : Node)
  | ending (e : BlockEnd)

/-- A reading of tokens that needs no open blocks. -/
def consume {ts : List Token} (x : Outcome (α × List Token))
    (h : ∀ a rest, x = .ok (a, rest) → rest <:+ ts) : Reading (Consumed ts α) :=
  match x, h with
  | .error e, _ => throw e
  | .ok (a, rest), h => pure ⟨a, rest, (h a rest rfl).length_le⟩

/-- The end of the tag that ended a block, which must be the given one. -/
def closeBlock (e : BlockEnd) (expected : String) (ts : List Token) :
    Outcome (Unit × List Token) :=
  if e.name = expected then close e.name ts else fail e.token (.wrongEnd expected e.name)

theorem closeBlock_suffix {e : BlockEnd} {expected : String} {u : Unit}
    (h : closeBlock e expected ts = .ok (u, rest)) : rest <:+ ts := by
  rw [closeBlock] at h
  split at h
  · exact close_suffix h
  · simp [fail] at h

/-- The tags up to which the body of a block is read. -/
def Header.ends : Header → List String
  | .conditional _ => ["else", "endif"]
  | h => [h.endTag]

/-- How far a block is from its body, in calls that take no token away. The second branch of a
condition is one call more. -/
def Header.rank : Header → Nat
  | .conditional _ => 3
  | _ => 2

mutual

-- Only `item` is sure to take tokens away, two of them for a tag. Until then the calls count down:
-- four at an element, at most three at a block, one at a body.

/-- Nodes up to the end of the tokens or to one of the tags `ends`. Of such a tag the name has been
read; its closing delimiter is left. -/
def nodes (ends : List String) (ts : List Token) :
    Reading (Consumed ts (List Node × Option BlockEnd)) :=
  match ts with
  | [] => pure ⟨([], none), [], Nat.le_refl _⟩
  | t :: ts =>
    if t.kind = .eof then pure ⟨([], none), t :: ts, Nat.le_refl _⟩
    else do
      let ⟨i, rest, _⟩ ← item ends t ts
      match i with
      | .ending e => pure ⟨([], some e), rest, by simp; omega⟩
      | .node n =>
        let ⟨(ns, e), rest', _⟩ ← nodes ends rest
        pure ⟨(n :: ns, e), rest', by simp; omega⟩
termination_by 5 * ts.length
decreasing_by all_goals simp only [List.length_cons]; omega

/-- What starts with the token `t`. -/
def item (ends : List String) (t : Token) (ts : List Token) : Reading (Consumed ts Item) :=
  match t.kind with
  | .text => do
    let value ← valueOf t
    pure ⟨.node (.text value), ts, Nat.le_refl _⟩
  | .varOpen => do
    let ⟨n, rest, _⟩ ← consume (variableNode t.location ts) fun _ _ => variableNode_suffix
    pure ⟨.node n, rest, by assumption⟩
  | .blockOpen =>
    match ts with
    | [] => fail t .missingTagName
    | word :: ts =>
      if word.kind = .ident then do
        let name ← valueOf word
        if ends.contains name then pure ⟨.ending ⟨name, word⟩, ts, Nat.le_succ _⟩
        else if endTags.contains name then
          let innermost := (← get).head?
          fail word (.strayEnd name (innermost.map fun b => (b.name, b.start)))
        else
          let ⟨n, rest, _⟩ ← element t name ts
          pure ⟨.node n, rest, by simp; omega⟩
      else fail word .missingTagName
  | k => fail t (.strayToken k)
termination_by 5 * ts.length
decreasing_by (simp only [List.length_cons]; omega)

/-- What the tag makes up that starts with `t` and whose name has been read. -/
def element (t : Token) (name : String) (ts : List Token) : Reading (Consumed ts Node) :=
  match TagName.ofText? name with
  | none => fail t (.unknownTag name)
  | some name => do
    let ⟨g, rest, _⟩ ← consume (tag (← get) t name ts) fun _ _ => tag_suffix
    match g with
    | .node n => pure ⟨n, rest, by assumption⟩
    | .block h =>
      let ⟨n, rest', _⟩ ← block h t.location rest
      pure ⟨n, rest', by omega⟩
termination_by 5 * ts.length + 4
decreasing_by (cases h <;> simp only [Header.rank] <;> omega)

/-- A block after its first tag, of which `start` is where it starts. After `else` a condition is
opened once more, for its second branch. -/
def block (h : Header) (start : Location) (ts : List Token) : Reading (Consumed ts Node) := do
  let ⟨(ns, e), rest, _⟩ ← body ⟨h.tag, start⟩ h.ends ts
  match h with
  | .conditional condition =>
    if e.name = "else" then
      let ⟨(), rest', _⟩ ← consume (close "else" rest) fun _ _ => close_suffix
      let ⟨n, rest'', _⟩ ← block (.alternative condition ns) start rest'
      pure ⟨n, rest'', by omega⟩
    else
      let ⟨(), rest', _⟩ ← consume (closeBlock e "endif" rest) fun _ _ => closeBlock_suffix
      pure ⟨.conditional condition ns none start, rest', by omega⟩
  | h =>
    let ⟨(), rest', _⟩ ← consume (closeBlock e h.endTag rest) fun _ _ => closeBlock_suffix
    pure ⟨h.node start ns, rest', by omega⟩
termination_by 5 * ts.length + h.rank
decreasing_by
  · cases h <;> simp [Header.rank]
  · simp [Header.rank]; omega

/-- The nodes of a block up to one of the tags `ends`, which has to come. The block is open while
they are read, and not any more then, also if reading fails. -/
def body (b : Block) (ends : List String) (ts : List Token) :
    Reading (Consumed ts (List Node × BlockEnd)) := do
  modify (b :: ·)
  try
    let ⟨(ns, e), rest, _⟩ ← nodes ends ts
    match e with
    | none => throw ⟨.unclosed b.name, b.start⟩
    | some e => pure ⟨(ns, e), rest, by assumption⟩
  finally modify List.tail
termination_by 5 * ts.length + 1
decreasing_by simp

end

/-- The nodes that all the tokens up to the first end make up. -/
def ofTokens (ts : List Token) : Outcome (List Node) :=
  match (nodes [] ts).run [] with
  | (.ok ⟨(ns, _), _, _⟩, _) => .ok ns
  | (.error e, _) => .error e

end Parser

/-- The template of the given name that the tokens make up. -/
def Template.ofTokens (name : Option String) (ts : List Token) :
    Except (Located ParseFault) Template :=
  (Parser.ofTokens ts).map (⟨name, ·⟩)

end CodeTemplate

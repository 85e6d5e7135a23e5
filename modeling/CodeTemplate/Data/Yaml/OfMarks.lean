import CodeTemplate.Data.Yaml.Mark.OfText
import CodeTemplate.Data.Yaml.Node

/-! The data of a document, read from its marks by a machine that keeps the open nodes on a stack. A
mark that the innermost node has no use for closes it, and goes to the node around it. -/

namespace CodeTemplate.Data.Yaml

/-- Where an open collection starts, and how far it is indented. -/
structure Place where
  offset : Nat
  indent : Nat

/-- The items of a block collection, of which the last is not complete yet. -/
structure Items where
  before : List Item := []
  last : Item

def Items.push (is : Items) (i : Item) : Items := ⟨is.last :: is.before, i⟩

def Items.toList (is : Items) : List Item := (is.last :: is.before).reverse

/-- An open node. `ended` is one that is complete but for the marks after it. -/
inductive Frame where
  | ended (n : Node)
  | mapping (place : Place) (items : Items)
  | sequence (place : Place) (items : Items)
  | flow (b : Bracket) (place : Place) (items : List Item)

/-- The marks before the first node, and the node when it is closed. -/
structure Root where
  lead : List Mark := []
  value : Option Node := none

/-- The open nodes, the innermost first. `onKey` holds after a key up to the end of its line. -/
structure State where
  onKey : Bool := false
  stack : List Frame := []
  root : Root := {}

/-! Opening and closing. -/

def scalarNode? (m : Mark) : Option Node := do
  let data ← match m.kind with
    | .plain => some (plainValue (foldLines m.text))
    | .quoted q => (quotedText? q m.text).map fun cs => .string (String.ofList cs)
    | _ => none
  some ⟨data, .scalar, m.offset, m.indent, m.text.contains '\n', []⟩

/-- The node of a block text in a collection that is indented by `indent`. -/
def blockNode? (m : Mark) (header : BlockHeader) (indent : Nat) (atRoot : Bool) : Option Node :=
  (header.text? indent atRoot m.text).map fun cs =>
    ⟨.string (String.ofList cs), .blockText, m.offset, indent, true, []⟩

/-- The node that a mark opens outside brackets. A block text has no open state. -/
def Frame.opened? (m : Mark) : Option Frame :=
  let place : Place := ⟨m.offset, m.indent⟩
  match m.kind with
  | .plain | .quoted _ => (scalarNode? m).map .ended
  | .opening b => some (.flow b place [])
  | .dash => some (.sequence place { last := { lead := [m] } })
  | .colon => some (.mapping place { last := { gap := some [m] } })
  | _ => none

/-- Whether the marks at the end of a block collection belong to what is around it: there are only
gaps, and every comment is less indented than the collection. -/
def isLeftOver (indent : Nat) (i : Item) : Bool :=
  i.key.isNone && i.gap.isNone && i.value.isNone && !i.lead.isEmpty && i.lead.all Mark.isGap &&
    (indent = 0 || i.lead.all fun m => m.kind ≠ .comment || m.indent < indent)

/-- The items of a block collection at its end, and the marks that belong to what is around it. -/
def Items.close (indent : Nat) (is : Items) : List Item × List Mark :=
  if isLeftOver indent is.last then (is.before.reverse, is.last.lead) else (is.toList, [])

/-- The node that is closed, and the marks that it leaves to what is around it. -/
def Frame.close? : Frame → Option (Node × List Mark)
  | ended n => if mayFollow false n.after then some (n, []) else none
  | mapping p items => do
    let (is, rest) := items.close p.indent
    let data ← object? (← is.foldlM (addKeyed? p.indent) [])
    some (⟨data, .mapping, p.offset, p.indent, true, []⟩, rest)
  | sequence p items => do
    let (is, rest) := items.close p.indent
    let elements ← is.foldlM (addElement? p.indent) []
    some (⟨.array elements.reverse, .sequence, p.offset, p.indent, true, []⟩, rest)
  | flow .. => none

/-- The flow collection after its closing bracket. -/
def flowNode? (b : Bracket) (p : Place) (items : List Item) : Option Node :=
  (flowData? b items).map fun d => ⟨d, .flow, p.offset, p.indent, items.any (·.isBroken b), []⟩

/-- The node as the next part of an item: its value after a gap, else its key. -/
def Item.place (i : Item) (n : Node) : Item :=
  if i.gap.isSome then { i with value := some n } else { i with key := some n, gap := some [] }

/-- The frame with a node that was closed in it, and whether the node is a key. -/
def Frame.attach? (f : Frame) (n : Node) (rest : List Mark) : Option (Frame × Bool) :=
  let leave (items : Items) : Items :=
    if rest.isEmpty then items else items.push { lead := rest }
  match f with
  | ended _ => none
  | mapping p items =>
    if items.last.value.isSome then
      some (mapping p (items.push (({} : Item).place n)), true)
    else if items.last.gap.isSome then
      some (mapping p (leave { items with last := items.last.place n }), false)
    else some (mapping p { items with last := items.last.place n }, true)
  | sequence p items =>
    let items :=
      if items.last.value.isSome then items.push { value := some n }
      else { items with last := { items.last with value := some n } }
    some (sequence p (leave items), false)
  | flow b p items =>
    if n.shape.isBlockCollection then none
    else
      match items with
      | i :: is =>
        if i.value.isSome then some (flow b p (({} : Item).place n :: items), false)
        else some (flow b p (i.place n :: is), false)
      | [] => some (flow b p [({} : Item).place n], false)

/-! One mark in the innermost frame. -/

/-- What a frame does with a mark: it takes it, opens a node in itself, takes it and closes, or
closes without it. -/
inductive Action where
  | take (f : Frame) (onKey : Bool)
  | nest (inner outer : Frame) (onKey : Bool)
  | finish (f : Frame)
  | leave

/-- A gap in the last item of a block collection without a value. -/
def Item.addGap (i : Item) (m : Mark) : Item :=
  match i.gap with
  | some ms => { i with gap := some (ms ++ [m]) }
  | none => { i with lead := i.lead ++ [m] }

/-- The last item with a comment moved to the value before it: the comment is more indented than the
collection, and nothing but blanks stands before it. -/
def Items.commented? (indent : Nat) (is : Items) (m : Mark) : Option Items := do
  if m.kind = .comment && indent < m.indent && is.last.gap.isNone &&
      is.last.lead.all fun l => l.kind = .space || l.kind = .lineBreak then
    match is.before with
    | [] => none
    | i :: before =>
      let v ← i.value
      if v.shape = .flow || !v.after.isEmpty then
        some ⟨before, { i with value := some { v with after := v.after ++ is.last.lead ++ [m] } }⟩
      else none
  else none

/-- The items of a block collection with a gap more. A line break after a comment that belongs to a
value belongs to it too. -/
def Items.addGap (indent : Nat) (is : Items) (m : Mark) : Items :=
  match is.last.value with
  | some v =>
    if m.kind = .lineBreak && (v.after.getLast?.map Mark.kind) = some .comment then
      { is with last := { is.last with value := some { v with after := v.after ++ [m] } } }
    else is.push { lead := [m] }
  | none => (is.commented? indent m).getD { is with last := is.last.addGap m }

/-- A mark in a block mapping. What is less indented closes it; in its own column, on a new line, a
new item starts. -/
def mappingAction? (p : Place) (items : Items) (onKey : Bool) (m : Mark) : Option Action :=
  let last := items.last
  let inColumn := !onKey && m.indent = p.indent
  let next := last.value.isSome || (inColumn && last.gap.isSome)
  let nested (items : Items) (onKey : Bool) : Option Action :=
    (Frame.opened? m).map fun f => .nest f (.mapping p items) onKey
  if m.isGap then
    some (.take (.mapping p (items.addGap p.indent m)) (onKey && m.kind ≠ .lineBreak))
  else if m.indent < p.indent then some .leave
  else
    match m.kind with
    | .colon =>
      if next then some (.take (.mapping p (items.push { gap := some [m] })) true)
      else
        match last.gap with
        | none =>
          let items := { items with last := { last with gap := some [m] } }
          some (.take (.mapping p items) true)
        | some ms =>
          if ms.any (·.kind = .colon) then nested items true
          else some (.take (.mapping p { items with last := last.addGap m }) true)
    | .plain | .quoted _ =>
      if !next && last.gap.isSome then nested items onKey
      else
        (scalarNode? m).map fun n =>
          let items :=
            if next then items.push (({} : Item).place n)
            else { items with last := last.place n }
          .take (.mapping p items) true
    | .dash => if last.gap.any (!hasBreak ·) then none else nested items onKey
    | .opening _ => nested (if inColumn then items.push {} else items) onKey
    | .block header => do
      let items := if inColumn then items.push {} else items
      let n ← blockNode? m header p.indent false
      let (f, isKey) ← (Frame.mapping p items).attach? n []
      some (.take f (onKey || isKey))
    | _ => none

/-- A mark in a block sequence. A dash in its own column starts a new item. -/
def sequenceAction? (p : Place) (items : Items) (onKey : Bool) (m : Mark) : Option Action :=
  let last := items.last
  if m.isGap then
    some (.take (.sequence p (items.addGap p.indent m)) (onKey && m.kind ≠ .lineBreak))
  else if m.kind = .dash && m.indent = p.indent then
    let items :=
      if last.value.isSome || last.lead.any (·.kind = .dash) then items.push { lead := [m] }
      else { items with last := { last with lead := last.lead ++ [m] } }
    some (.take (.sequence p items) onKey)
  else if m.indent ≤ p.indent then some .leave
  else
    match m.kind with
    | .block header => do
      let n ← blockNode? m header p.indent false
      let (f, _) ← (Frame.sequence p items).attach? n []
      some (.take f onKey)
    | kind =>
      (Frame.opened? m).map fun f => .nest f (.sequence p items) (onKey || kind = .colon)

/-- A mark in an open flow collection. -/
def flowAction? (b : Bracket) (p : Place) (items : List Item) (onKey : Bool) (m : Mark) :
    Option Action :=
  let (last, before) : Item × List Item :=
    match items with
    | [] => ({}, [])
    | i :: is => if i.value.isSome then ({}, items) else (i, is)
  let take (i : Item) : Option Action := some (.take (.flow b p (i :: before)) onKey)
  match m.kind with
  | .space | .lineBreak | .comment => take (last.addGap m)
  | .comma =>
    if last.gap.isSome then some (.take (.flow b p ({ lead := [m] } :: last :: before)) onKey)
    else take { last with lead := last.lead ++ [m] }
  | .colon =>
    match last.gap with
    | none => take { last with gap := some [m] }
    | some ms => take { last with gap := some (ms ++ [m]) }
  | .plain | .quoted _ => do
    let n ← scalarNode? m
    if last.gap.isSome then some (.nest (.ended n) (.flow b p items) onKey)
    else take (last.place n)
  | .opening b' => some (.nest (.flow b' ⟨m.offset, m.indent⟩ []) (.flow b p items) onKey)
  | .closing b' =>
    if b = b' then (flowNode? b p items.reverse).map fun n => .take (.ended n) onKey else none
  | _ => none

/-- Whether a colon after a flow collection, or the end of its line, makes it a key of the mapping
around it. -/
def isKeyOf (n : Node) (m : Mark) : Option Frame → Bool
  | some (.mapping p items) =>
    n.shape = .flow &&
      ((m.kind = .colon && p.indent = n.indent) ||
        (m.kind = .lineBreak && items.last.gap.isNone))
  | _ => false

/-- A mark after a node that is complete. A colon makes the node the first key of a mapping. -/
def endedAction? (n : Node) (around : Option Frame) (onKey : Bool) (m : Mark) : Option Action :=
  let n' := { n with after := n.after ++ [m] }
  let inFlow := match around with
    | some (.flow ..) => true
    | _ => false
  if isKeyOf n m around then some .leave
  else
    match m.kind with
    | .space | .comment => some (.take (.ended n') onKey)
    | .lineBreak => some (.finish (.ended n'))
    | .comma | .closing _ => some .leave
    | .colon =>
      if inFlow then if n.shape = .flow then some .leave else none
      else
        let key := { n with after := [] }
        let first : Item := { key := some key, gap := some n'.after }
        some (.take (.mapping ⟨n.offset, n.indent⟩ { last := first }) true)
    | _ => none

def Frame.action? (f : Frame) (around : Option Frame) (onKey : Bool) (m : Mark) : Option Action :=
  match f with
  | ended n => endedAction? n around onKey m
  | mapping p items => mappingAction? p items onKey m
  | sequence p items => sequenceAction? p items onKey m
  | flow b p items => flowAction? b p items onKey m

/-! The machine. -/

/-- Puts a closed node into the frame around it, or makes it the value of the document. -/
def State.closed? (n : Node) (rest : List Mark) (onKey : Bool) (root : Root) :
    List Frame → Option State
  | [] => some ⟨onKey, [], { root with value := some n }⟩
  | f :: fs =>
    (f.attach? n rest).map fun (f, isKey) => ⟨onKey || isKey, f :: fs, root⟩

theorem State.closed?_length {n : Node} {rest : List Mark} {onKey : Bool} {root : Root}
    {fs : List Frame} {s : State} (h : State.closed? n rest onKey root fs = some s) :
    s.stack.length = fs.length := by
  cases fs with
  | nil => simp only [closed?, Option.some.injEq] at h; simp [← h]
  | cons f fs =>
    simp only [closed?, Option.map_eq_some_iff, Prod.exists] at h
    obtain ⟨g, k, _, h⟩ := h
    simp [← h]

/-- A mark outside of all nodes. After the value of the document only gaps may follow. -/
def Root.state? (r : Root) (onKey : Bool) (m : Mark) : Option State :=
  if r.value.isSome then if m.isGap then some ⟨onKey, [], r⟩ else none
  else if m.isGap || m.kind = .start then some ⟨onKey, [], { r with lead := r.lead ++ [m] }⟩
  else
    match m.kind with
    | .block header =>
      (blockNode? m header 0 true).map fun n => ⟨onKey, [], { r with value := some n }⟩
    | kind => (Frame.opened? m).map fun f => ⟨onKey || kind = .colon, [f], r⟩

/-- The state after a mark. -/
def State.add? (s : State) (m : Mark) : Option State :=
  match s with
  | ⟨onKey, [], root⟩ => root.state? onKey m
  | ⟨onKey, f :: fs, root⟩ =>
    match f.action? fs.head? onKey m with
    | none => none
    | some (.take f onKey) => some ⟨onKey, f :: fs, root⟩
    | some (.nest inner outer onKey) => some ⟨onKey, inner :: outer :: fs, root⟩
    | some (.finish f) => f.close?.bind fun (n, rest) => State.closed? n rest false root fs
    | some .leave =>
      match f.close? with
      | none => none
      | some (n, rest) =>
        match h : State.closed? n rest onKey root fs with
        | none => none
        | some s =>
          have : s.stack.length < (f :: fs).length := by
            rw [State.closed?_length h]; exact Nat.lt_succ_self _
          s.add? m
termination_by s.stack.length
decreasing_by exact this

/-- The value of the document when all open nodes are closed. -/
def State.finish? (s : State) : Option Root :=
  match s with
  | ⟨_, [], root⟩ => some root
  | ⟨onKey, f :: fs, root⟩ =>
    match f.close? with
    | none => none
    | some (n, rest) =>
      match h : State.closed? n rest onKey root fs with
      | none => none
      | some s =>
        have : s.stack.length < (f :: fs).length := by
          rw [State.closed?_length h]; exact Nat.lt_succ_self _
        s.finish?
termination_by s.stack.length
decreasing_by exact this

/-- The data of a document. A block collection does not start on the line of the start marker. -/
def Root.data? (r : Root) : Option Data := do
  let next := r.value.map Node.shape
  let gap ← Gap.ofMarks? { sign := some .start, next } r.lead
  if gap.sign.isSome && !gap.broken && (next.map Shape.isBlockCollection).getD false then none
  else some (dataOf r.value)

end Yaml

/-- The data of a YAML text of at most one document. -/
def ofYaml? (text : String) : Option Data := do
  let marks ← Yaml.Mark.ofText? text.toList
  let s ← marks.foldlM Yaml.State.add? {}
  (← s.finish?).data?

end CodeTemplate.Data

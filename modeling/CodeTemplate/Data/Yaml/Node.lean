import CodeTemplate.Data.Yaml.BlockText
import CodeTemplate.Data.Yaml.Scalar

/-! The nodes of a YAML document, and collections made of their items. A collection is refused if
the marks between its items are not where they belong. -/

namespace CodeTemplate.Data.Yaml

inductive Shape where
  | scalar | blockText | mapping | sequence | flow
  deriving DecidableEq, Repr

def Shape.isBlockCollection (s : Shape) : Bool := s = .mapping || s = .sequence

/-- A node that has been read: its data, and what decides where it may stand. `after` holds the
marks that follow it on its line. -/
structure Node where
  data : Data
  shape : Shape
  offset : Nat
  indent : Nat
  /-- The node contains a line break. -/
  broken : Bool
  after : List Mark := []

/-- An item of a collection: the marks in front of it, a key, the marks from the key to the value,
and the value. An item of a sequence has no key. -/
structure Item where
  lead : List Mark := []
  key : Option Node := none
  gap : Option (List Mark) := none
  value : Option Node := none

def hasBreak (ms : List Mark) : Bool := ms.any (·.kind = .lineBreak)

/-! The marks between nodes. -/

/-- Where a gap stands: whether in brackets, which sign belongs into it, whether it starts a line,
how far the collection around it is indented, and the shape of the node after it. -/
structure GapRule where
  flow : Bool := false
  sign : Option MarkKind := none
  fresh : Bool := true
  indent : Nat := 0
  next : Option Shape := none

/-- What a gap holds. The sign is given by its offset, and a pending tab by its indentation. -/
structure Gap where
  sign : Option Nat := none
  comma : Bool := false
  broken : Bool := false
  atLineStart : Bool
  spaced : Bool
  tab : Option Nat := none

namespace Gap

/-- Whether a tab in the mark may be an indentation. In brackets tabs are blanks, and so they are
between the start of a document and a bracket. -/
def isTab (r : GapRule) (m : Mark) : Bool :=
  !r.flow && !(r.sign = some .start && r.next = some .flow) && m.text.contains '\t'

/-- The gap with one more mark. A comment needs a blank in front of it, and a tab must not indent
anything but comments. -/
def add? (r : GapRule) (g : Gap) (m : Mark) : Option Gap :=
  if g.tab.isSome && g.atLineStart && m.kind ≠ .comment && m.kind ≠ .lineBreak then none
  else
    let g := { g with tab := none }
    match m.kind with
    | .space => some { g with spaced := true, tab := if isTab r m then some m.indent else none }
    | .comment => if g.spaced then some { g with atLineStart := false } else none
    | .lineBreak => some { g with atLineStart := true, broken := true, spaced := true }
    | .comma =>
      if r.flow && !g.comma then
        some { g with comma := true, atLineStart := false, spaced := false }
      else none
    | kind =>
      if some kind = r.sign && g.sign.isNone then
        some { g with sign := some m.offset, atLineStart := kind = .dash, spaced := false }
      else none

/-- The gap that marks make up. A tab at its end must not indent a block collection, nor anything by
as little as what is around it. -/
def ofMarks? (r : GapRule) (ms : List Mark) : Option Gap := do
  let g ← ms.foldlM (add? r) { atLineStart := r.fresh, spaced := r.fresh }
  match g.tab with
  | none => some g
  | some indent =>
    if (g.atLineStart && indent ≤ r.indent) || (r.next.map Shape.isBlockCollection).getD false then
      none
    else some g

end Gap

/-- Whether marks may follow a node on its line: blanks, line breaks, and comments after them. -/
def mayFollow (spaced : Bool) : List Mark → Bool
  | [] => true
  | m :: ms =>
    match m.kind with
    | .space | .lineBreak => mayFollow true ms
    | .comment => spaced && mayFollow spaced ms
    | _ => false

/-- How long a key may be, in 16-bit units up to its colon. -/
def maxKeyLength : Nat := 1024

/-- Whether the colon at `colon` is too far from the start of the key. -/
def isTooLong (key : Option Node) (colon : Nat) : Bool :=
  match key with
  | none => false
  | some k => k.offset + maxKeyLength < colon

/-! Members. -/

/-- Whether two keys are the same: scalars with the same value. Not a number is no such value. -/
def sameKey : Data → Data → Bool
  | .null, .null => true
  | .bool a, .bool b => a = b
  | .number a, .number b => (a.isZero && b.isZero) || (a = b && a ≠ .nan)
  | .string a, .string b => a = b
  | _, _ => false

/-- The member name that a key stands for. Arrays and objects are no keys. -/
def keyText? : Data → Option String
  | .string s => some s
  | .number n => some n.text
  | .bool b => some (if b then "true" else "false")
  | .null => some ""
  | _ => none

/-- Members by their keys, the last first, with one more, whose key must be new. -/
def addMember? (members : List (Data × Data)) (key value : Data) : Option (List (Data × Data)) :=
  if members.any fun (k, _) => sameKey k key then none else some ((key, value) :: members)

/-- The object of the members, which are given last first. -/
def object? (members : List (Data × Data)) : Option Data :=
  (members.reverse.foldlM (fun ms (k, d) => (keyText? k).map fun name => putMember name d ms)
    []).map .object

def dataOf (n : Option Node) : Data := (n.map Node.data).getD .null

/-! Block collections. -/

/-- The members of a block mapping with one more item. A key stands on one line, and a colon follows
it. Items without a key only hold comments. -/
def addKeyed? (indent : Nat) (members : List (Data × Data)) (i : Item) :
    Option (List (Data × Data)) := do
  let _ ← Gap.ofMarks? { indent } i.lead
  if i.key.any fun k => k.shape = .sequence || k.indent ≠ indent then none
  else
    match i.gap with
    | none => some members
    | some marks =>
      if i.key.any (·.broken) then none
      else do
        let fresh := i.key.all (·.shape = .blockText)
        let next := i.value.map Node.shape
        let gap ← Gap.ofMarks? { sign := some .colon, fresh, indent, next } marks
        let colon ← gap.sign
        if (next = some .mapping && !gap.broken) || isTooLong i.key colon then none
        else addMember? members (dataOf i.key) (dataOf i.value)

/-- The items of a block sequence with one more. Items without a dash only hold comments. -/
def addElement? (indent : Nat) (elements : List Data) (i : Item) : Option (List Data) := do
  let next := i.value.map Node.shape
  let gap ← Gap.ofMarks? { sign := some .dash, indent, next } i.lead
  match gap.sign, i.value with
  | none, none => some elements
  | none, some _ => none
  | some _, value => some (dataOf value :: elements)

/-! Flow collections. -/

/-- Whether an item of a flow sequence is a value on its own. -/
def Item.isAlone (i : Item) : Bool :=
  i.value.isNone && ((i.gap.map fun ms => ms.all (·.kind ≠ .colon)).getD false)

/-- Whether an item contains a line break, one after its value on the last line included. -/
def Item.isBroken (b : Bracket) (i : Item) : Bool :=
  let after (n : Node) : Bool := n.broken || (n.shape ≠ .flow && hasBreak n.after)
  let ignored := b = .square && i.isAlone && i.key.any (·.shape = .flow)
  hasBreak i.lead || (!ignored && hasBreak (i.gap.getD [])) || i.key.any (·.broken) ||
    i.value.any after

/-- The value of an item of a flow collection that has a key or a colon. -/
def Item.pair? (b : Bracket) (i : Item) : Option (Data × Data) := do
  let marks := i.gap.getD []
  let gap ← Gap.ofMarks? { flow := true, sign := some .colon, fresh := false } marks
  match gap.sign with
  | none => if i.value.isSome then none else some (dataOf i.key, .null)
  | some colon =>
    let head := marks.takeWhile (·.kind ≠ .colon)
    if b = .square && (hasBreak head || isTooLong i.key colon) then none
    else some (dataOf i.key, dataOf i.value)

/-- The items of a flow collection, each read: a comma stands before every item but the first, and
at most one after the last. -/
def flowItems? (b : Bracket) (first : Bool) : List Item → Option (List (Data × Option Data))
  | [] => some []
  | i :: is => do
    let gap ← Gap.ofMarks? { flow := true, fresh := false } i.lead
    if first && gap.comma then none
    else if i.key.isNone && i.gap.isNone then if is.isEmpty then some [] else none
    else if !first && !gap.comma then none
    else if b = .square && i.isAlone then
      if i.key.all fun k => mayFollow false (k.after ++ i.gap.getD []) then
        (flowItems? b false is).map ((dataOf i.key, none) :: ·)
      else none
    else if b = .square && i.key.any (·.broken) then none
    else do
      let (key, value) ← i.pair? b
      (flowItems? b false is).map ((key, some value) :: ·)

/-- The data of a flow collection. A pair in a sequence is an object of one member. -/
def flowData? (b : Bracket) (items : List Item) : Option Data := do
  let items ← flowItems? b true items
  match b with
  | .square =>
    (items.mapM fun (key, value) =>
      match value with
      | none => some key
      | some d => object? [(key, d)]).map .array
  | .curly => do
    let members ← items.foldlM (fun ms (key, value) => addMember? ms key (value.getD .null)) []
    object? members

end CodeTemplate.Data.Yaml

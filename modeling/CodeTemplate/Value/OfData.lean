import CodeTemplate.Data.Basic
import CodeTemplate.Value.Scope

/-! Plain data as values: objects become records, and numbers have to be finite. -/

namespace CodeTemplate

mutual

def Value.ofData : Data → Except ValueFault Value
  | .missing => .error (.unsupported "undefined")
  | .foreign type => .error (.unsupported type.name)
  | .null => .ok .null
  | .bool b => .ok (.bool b)
  | .number n => if n.isFinite then .ok (.number n) else .error (.invalidNumber n)
  | .string s => .ok (.string s)
  | .array items => (Value.ofItems items).map .sequence
  | .object members => (Value.ofMembers members).map .record

def Value.ofItems : List Data → Except ValueFault (List Value)
  | [] => .ok []
  | d :: ds => do
    let v ← Value.ofData d
    let vs ← Value.ofItems ds
    return v :: vs

def Value.ofMembers : List (String × Data) → Except ValueFault Frame
  | [] => .ok []
  | (name, d) :: ms => do
    let v ← Value.ofData d
    let vs ← Value.ofMembers ms
    return vs.bind name v

end

/-- The bindings that an object gives. -/
def Frame.ofData : Data → Except ValueFault Frame
  | .object members => Value.ofMembers members
  | _ => .error .noBindings

end CodeTemplate

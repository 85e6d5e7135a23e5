import CodeTemplate.Text.Affix
import CodeTemplate.Text.Blank
import CodeTemplate.Data.Basic

/-! JSON text read as data: the text is cut into symbols, and the symbols are read by a machine that
keeps the open arrays and objects on a stack. Of two members with one name the later wins. -/

namespace CodeTemplate.Data.Json

inductive Symbol where
  | arrayOpen | arrayClose | objectOpen | objectClose | comma | colon
  | string (s : String)
  | scalar (d : Data)

def isHex (c : Char) : Bool :=
  c.isDigit || ('a' ≤ c && c ≤ 'f') || ('A' ≤ c && c ≤ 'F')

def hex? (cs : List Char) : Option Nat :=
  if cs.all isHex then some (Number.natOfDigits 16 cs) else none

def isHighSurrogate (n : Nat) : Bool := 0xD800 ≤ n && n < 0xDC00

def isLowSurrogate (n : Nat) : Bool := 0xDC00 ≤ n && n < 0xE000

/-- The character of a code point, or the replacement character for half a surrogate pair. -/
def charOf (n : Nat) : Char := if n.isValidChar then Char.ofNat n else '\uFFFD'

/-- The code point that two halves of a surrogate pair stand for. -/
def pairedBy (high low : Nat) : Nat := 0x10000 + (high - 0xD800) * 0x400 + (low - 0xDC00)

def escaped? : Char → Option Char
  | '"' => some '"'
  | '\\' => some '\\'
  | '/' => some '/'
  | 'b' => some '\x08'
  | 'f' => some '\x0c'
  | 'n' => some '\n'
  | 'r' => some '\r'
  | 't' => some '\t'
  | _ => none

/-- The code point written as four hexadecimal digits at the start of `cs`. -/
def unicodeEscape? : List Char → Option Nat
  | a :: b :: c :: d :: _ => hex? [a, b, c, d]
  | _ => none

/-- The character that `c` starts in a string, and how many further characters it takes. -/
def character? (c : Char) (cs : List Char) : Option (Char × Nat) :=
  if c == '\\' then
    match cs with
    | 'u' :: ds => do
      let n ← unicodeEscape? ds
      match (Text.after? ['\\', 'u'] (ds.drop 4)).bind unicodeEscape? with
      | some low =>
        if isHighSurrogate n && isLowSurrogate low then
          some (charOf (pairedBy n low), 11)
        else some (charOf n, 5)
      | none => some (charOf n, 5)
    | e :: _ => (escaped? e).map (·, 1)
    | [] => none
  else if c.toNat < 0x20 then none
  else some (c, 0)

/-- The text of a string up to its closing quote, and what follows it. -/
def stringBody? : List Char → Option (List Char × List Char)
  | [] => none
  | c :: cs =>
    if c == '"' then some ([], cs)
    else do
      let (d, k) ← character? c cs
      let (body, rest) ← stringBody? (cs.drop k)
      some (d :: body, rest)
termination_by cs => cs.length

theorem stringBody?_length {cs body rest : List Char} (h : stringBody? cs = some (body, rest)) :
    rest.length < cs.length := by
  fun_induction stringBody? cs generalizing body rest with
  | case1 => simp at h
  | case2 => simp_all
  | case3 c cs _ ih =>
    simp only [Option.bind_eq_bind, Option.bind_eq_some_iff, Prod.exists] at h
    obtain ⟨d, k, _, b, r, hr, h⟩ := h
    simp only [Option.some.injEq, Prod.mk.injEq] at h
    obtain ⟨rfl, rfl⟩ := h
    have := ih k hr
    simp only [List.length_drop, List.length_cons] at this ⊢
    omega

def isNumberChar (c : Char) : Bool :=
  c.isDigit || c == '-' || c == '+' || c == '.' || c == 'e' || c == 'E'

/-- A number without a plus sign, without leading zeros and with digits on both sides of its
point. -/
def number? (cs : List Char) : Option Number :=
  let unsigned := match cs with
    | '-' :: ds => ds
    | ds => ds
  let whole := unsigned.takeWhile Char.isDigit
  let shape := match whole, unsigned.dropWhile Char.isDigit with
    | [], _ => false
    | '0' :: _ :: _, _ => false
    | _, '.' :: d :: _ => d.isDigit
    | _, ['.'] => false
    | _, _ => true
  if shape then Number.ofChars? cs else none

def isJsonBlank (c : Char) : Bool := c == ' ' || c == '\t' || c == '\n' || c == '\r'

def sign? : Char → Option Symbol
  | '[' => some .arrayOpen
  | ']' => some .arrayClose
  | '\x7b' => some .objectOpen
  | '\x7d' => some .objectClose
  | ',' => some .comma
  | ':' => some .colon
  | _ => none

def word? (cs : List Char) : Option Data :=
  match String.ofList cs with
  | "true" => some (.bool true)
  | "false" => some (.bool false)
  | "null" => some .null
  | _ => none

/-- The symbol that starts with `c`, and the text after it. Blanks are no symbol. -/
def symbol? (c : Char) (cs : List Char) : Option (Option Symbol × List Char) :=
  if isJsonBlank c then some (none, cs)
  else match sign? c with
    | some s => some (some s, cs)
    | none =>
      if c == '"' then
        (stringBody? cs).map fun (body, rest) => (some (.string (String.ofList body)), rest)
      else if isNumberChar c then
        (number? (c :: cs.takeWhile isNumberChar)).map fun n =>
          (some (.scalar (.number n)), cs.dropWhile isNumberChar)
      else
        (word? (c :: cs.takeWhile Char.isAlpha)).map fun d =>
          (some (.scalar d), cs.dropWhile Char.isAlpha)

theorem symbol?_length {c : Char} {cs rest : List Char} {s : Option Symbol}
    (h : symbol? c cs = some (s, rest)) : rest.length ≤ cs.length := by
  have dropped (p : Char → Bool) : (cs.dropWhile p).length ≤ cs.length :=
    (List.dropWhile_suffix p).length_le
  unfold symbol? at h
  split at h
  · simp_all
  · split at h
    · simp_all
    · split at h
      · simp only [Option.map_eq_some_iff, Prod.exists, Prod.mk.injEq] at h
        obtain ⟨body, r, hb, _, rfl⟩ := h
        exact Nat.le_of_lt (stringBody?_length hb)
      · split at h
        · simp only [Option.map_eq_some_iff, Prod.mk.injEq] at h
          obtain ⟨_, _, _, rfl⟩ := h
          exact dropped _
        · simp only [Option.map_eq_some_iff, Prod.mk.injEq] at h
          obtain ⟨_, _, _, rfl⟩ := h
          exact dropped _

def symbols? : List Char → Option (List Symbol)
  | [] => some []
  | c :: cs =>
    match h : symbol? c cs with
    | none => none
    | some (s, rest) =>
      have : rest.length < (c :: cs).length := Nat.lt_succ_of_le (symbol?_length h)
      (symbols? rest).map (s.toList ++ ·)
termination_by cs => cs.length
decreasing_by exact this

/-- An open array with its items so far, the last first, or an open object with its members so far
and the name of the member that is being read. -/
inductive Container where
  | array (items : List Data)
  | object (members : List (String × Data)) (name : String)

inductive State where
  /-- A value must come, or, right after an array was opened, its end. -/
  | value (closable : Bool)
  /-- A member name must come, or, right after an object was opened, its end. -/
  | name (closable : Bool)
  | colon
  /-- A value was completed: a comma or the end of the container must come. -/
  | separator

def Container.add (d : Data) : Container → Container
  | .array items => .array (d :: items)
  | .object members name => .object (putMember name d members) name

def Container.close : Container → Data
  | .array items => .array items.reverse
  | .object members _ => .object members

/-- Reads the one value that the symbols make up. -/
def read? : List Container → State → List Symbol → Option Data
  | _, _, [] => none
  | stack, .value closable, s :: rest =>
    let place (d : Data) : List Container → Option Data
      | [] => if rest.isEmpty then some d else none
      | c :: cs => read? (c.add d :: cs) .separator rest
    match s, stack with
    | .scalar d, stack => place d stack
    | .string s, stack => place (.string s) stack
    | .arrayOpen, stack => read? (.array [] :: stack) (.value true) rest
    | .objectOpen, stack => read? (.object [] "" :: stack) (.name true) rest
    | .arrayClose, c :: stack => if closable then place c.close stack else none
    | _, _ => none
  | .object members _ :: stack, .name closable, s :: rest =>
    match s with
    | .string name => read? (.object members name :: stack) .colon rest
    | .objectClose =>
      if closable then
        match stack with
        | [] => if rest.isEmpty then some (.object members) else none
        | c :: cs => read? (c.add (.object members) :: cs) .separator rest
      else none
    | _ => none
  | stack, .colon, s :: rest =>
    match s with
    | .colon => read? stack (.value false) rest
    | _ => none
  | c :: stack, .separator, s :: rest =>
    let place (d : Data) : List Container → Option Data
      | [] => if rest.isEmpty then some d else none
      | c :: cs => read? (c.add d :: cs) .separator rest
    match c, s with
    | .array _, .comma => read? (c :: stack) (.value false) rest
    | .object .., .comma => read? (c :: stack) (.name false) rest
    | .array _, .arrayClose => place c.close stack
    | .object .., .objectClose => place c.close stack
    | _, _ => none
  | _, _, _ => none

end Json

/-- The data of a JSON text. -/
def ofJson? (text : String) : Option Data := do
  Json.read? [] (.value false) (← Json.symbols? text.toList)

end CodeTemplate.Data

import CodeTemplate.Markup.Tree.Basic
import CodeTemplate.Markup.Tree.Fault
import CodeTemplate.Outcome

/-! The parts of tags read from tokens: paths, filters, names of templates, arguments. What is left
of the tokens is a suffix of what was read. -/

namespace CodeTemplate.Parser

/-- A result of reading. Functions that read a part of the tokens also return the tokens after that
part. -/
abbrev Outcome := Except (Located ParseFault)

variable {α : Type}

/-- What stands for a token where there is none. -/
def noToken : Token := ⟨.eof, none, ⟨0, 0⟩, ""⟩

def fail (t : Token) (f : ParseFault) : Outcome α := .error ⟨f, t.location⟩

def shown (t : Token) : String := t.value.getD t.kind.name

def valueOf (t : Token) : Outcome String :=
  match t.value with
  | some v => .ok v
  | none => fail t (.missingValue t.kind)

def identOf (what : String) (t : Token) : Outcome String :=
  if t.kind = .ident then valueOf t else fail t (.expected what t.kind)

def ident (what : String) : List Token → Outcome (String × List Token)
  | [] => fail noToken (.expected what .eof)
  | t :: ts => (identOf what t).map (·, ts)

/-- One token of the given kind. -/
def kind (k : TokenKind) : List Token → Outcome (Unit × List Token)
  | [] => fail noToken (.expected k.name .eof)
  | t :: ts => if t.kind = k then .ok ((), ts) else fail t (.expected k.name t.kind)

def word (w : String) : List Token → Outcome (Unit × List Token)
  | [] => fail noToken (.expectedWord w (shown noToken))
  | t :: ts =>
    if t.kind = .ident ∧ t.value = some w then .ok ((), ts) else fail t (.expectedWord w (shown t))

/-- The end of a tag. -/
def close (tag : String) : List Token → Outcome (Unit × List Token)
  | [] => fail noToken (.strayInTag (shown noToken) tag)
  | t :: ts => if t.kind = .blockClose then .ok ((), ts) else fail t (.strayInTag (shown t) tag)

def filterOf (t : Token) : Outcome Filter := do
  let name ← identOf "filter name" t
  match Filter.ofName? name with
  | some f => .ok f
  | none => fail t (.unknownFilter name)

/-- Items that each follow a separator, as long as separators come. -/
def separated (separates : TokenKind → Bool) (item : Token → Token → Outcome α) :
    List Token → Outcome (List α × List Token)
  | [] => .ok ([], [])
  | [t] => if separates t.kind then (item t noToken).map (([·], [])) else .ok ([], [t])
  | t :: u :: ts =>
    if separates t.kind then do
      let a ← item t u
      let (rest, ts) ← separated separates item ts
      .ok (a :: rest, ts)
    else .ok ([], t :: u :: ts)

def path (ts : List Token) : Outcome (Path × List Token) := do
  let (name, ts) ← ident "identifier" ts
  let (attributes, ts) ← separated (· == .dot) (fun _ => identOf "identifier after '.'") ts
  .ok (⟨name, attributes⟩, ts)

def moreFilters (ts : List Token) : Outcome (List Filter × List Token) :=
  separated (· == .pipe) (fun _ => filterOf) ts

def filters : List Token → Outcome (List Filter × List Token)
  | [] => (filterOf noToken).map (([·], []))
  | t :: ts => do
    let f ← filterOf t
    let (fs, ts) ← moreFilters ts
    .ok (f :: fs, ts)

/-- A variable, after its opening delimiter. -/
def variableNode (start : Location) (ts : List Token) : Outcome (Node × List Token) := do
  let (p, ts) ← path ts
  let (fs, ts) ← moreFilters ts
  let ((), ts) ← kind .varClose ts
  .ok (.variable p fs start, ts)

/-- A further segment of a template name, with the sign before it. -/
def segment (sign t : Token) : Outcome String := do
  let s ← identOf "template name segment" t
  .ok ((if sign.kind = .slash then "/" else ".") ++ s)

def isNameSign (k : TokenKind) : Bool := k == .slash || k == .dot

/-- A template name as written: a string, or identifiers with slashes and dots between them. -/
def writtenName : List Token → Outcome (String × List Token)
  | [] => fail noToken (.expected "template name" .eof)
  | t :: ts =>
    if t.kind = .string then (valueOf t).map (·, ts)
    else do
      let (root, ts) := if t.kind = .slash then ("/", ts) else ("", t :: ts)
      let (first, ts) ← ident "template name" ts
      let (more, ts) ← separated isNameSign segment ts
      .ok (root ++ first ++ String.join more, ts)

def templateName (ts : List Token) : Outcome (String × List Token) := do
  let (name, rest) ← writtenName ts
  match TemplateName.fault? name with
  | some f => fail (ts.headD noToken) (.badName f)
  | none => .ok (name, rest)

def argumentValue (ts : List Token) : Outcome (ArgumentValue × List Token) :=
  match ts with
  | t :: rest =>
    if t.kind = .string then (valueOf t).map fun v => (.string v, rest)
    else (path ts).map fun (p, rest) => (.path p, rest)
  | [] => (path []).map fun (p, rest) => (.path p, rest)

/-- One argument, whose key is none of those seen before. -/
def argument (seen : List Argument) (t : Token) (ts : List Token) :
    Outcome (Argument × List Token) := do
  let key ← valueOf t
  if seen.any (·.key == key) then fail t (.duplicateArgument key)
  else do
    let ((), ts) ← kind .equal ts
    let (value, ts) ← argumentValue ts
    .ok (⟨key, value⟩, ts)

/-! The parts of the tokens that are left are suffixes of what was read. -/

variable {ts rest : List Token} {a : α} {p : Path} {u : Unit}

theorem ident_suffix {what s : String} (h : ident what ts = .ok (s, rest)) : rest <:+ ts := by
  cases ts with
  | nil => simp [ident, fail] at h
  | cons t ts =>
    simp only [ident, map_ok, Prod.mk.injEq] at h
    obtain ⟨_, _, _, rfl⟩ := h
    exact List.suffix_cons t ts

theorem kind_suffix {k : TokenKind} (h : kind k ts = .ok (u, rest)) : rest <:+ ts := by
  cases ts with
  | nil => simp [kind, fail] at h
  | cons t ts => by_cases hk : t.kind = k <;> simp_all [kind, fail]

theorem word_suffix {w : String} (h : word w ts = .ok (u, rest)) : rest <:+ ts := by
  cases ts with
  | nil => simp [word, fail] at h
  | cons t ts => simp only [word] at h; split at h <;> simp_all [fail]

theorem close_suffix {tag : String} (h : close tag ts = .ok (u, rest)) : rest <:+ ts := by
  cases ts with
  | nil => simp [close, fail] at h
  | cons t ts => simp only [close] at h; split at h <;> simp_all [fail]

theorem separated_suffix {separates : TokenKind → Bool}
    {item : Token → Token → Except (Located ParseFault) α} {as : List α}
    (h : separated separates item ts = .ok (as, rest)) : rest <:+ ts := by
  fun_induction separated separates item ts generalizing as rest with
  | case1 => simp_all
  | case2 t hs =>
    simp only [map_ok, Prod.mk.injEq] at h
    obtain ⟨_, _, _, rfl⟩ := h
    exact List.nil_suffix
  | case3 => simp_all
  | case4 t u ts hs ih =>
    simp only [bind_ok, Prod.exists] at h
    obtain ⟨a, _, bs, r, hr, h⟩ := h
    simp only [Except.ok.injEq, Prod.mk.injEq] at h
    have := ih hr
    rw [← h.2]
    exact this.trans ((List.suffix_cons u ts).trans (List.suffix_cons t (u :: ts)))
  | case5 => simp_all

theorem path_suffix (h : path ts = .ok (p, rest)) : rest <:+ ts := by
  simp only [path, bind_ok, Prod.exists] at h
  obtain ⟨s, r, hi, as, r', hs, h⟩ := h
  simp only [Except.ok.injEq, Prod.mk.injEq] at h
  rw [← h.2]
  exact (separated_suffix hs).trans (ident_suffix hi)

theorem filters_suffix {fs : List Filter} (h : filters ts = .ok (fs, rest)) : rest <:+ ts := by
  cases ts with
  | nil =>
    simp only [filters, map_ok, Prod.mk.injEq] at h
    obtain ⟨_, _, _, rfl⟩ := h
    exact List.suffix_rfl
  | cons t ts =>
    simp only [filters, bind_ok, Prod.exists] at h
    obtain ⟨f, _, gs, r, hs, h⟩ := h
    simp only [Except.ok.injEq, Prod.mk.injEq] at h
    rw [← h.2]
    exact (separated_suffix hs).trans (List.suffix_cons t ts)

theorem variableNode_suffix {start : Location} {n : Node}
    (h : variableNode start ts = .ok (n, rest)) : rest <:+ ts := by
  simp only [variableNode, bind_ok, Prod.exists] at h
  obtain ⟨p, r, hp, fs, r', hf, u, r'', hk, h⟩ := h
  simp only [Except.ok.injEq, Prod.mk.injEq] at h
  rw [← h.2]
  exact (kind_suffix hk).trans ((separated_suffix hf).trans (path_suffix hp))

theorem writtenName_suffix {s : String} (h : writtenName ts = .ok (s, rest)) : rest <:+ ts := by
  cases ts with
  | nil => simp [writtenName, fail] at h
  | cons t ts =>
    simp only [writtenName] at h
    split at h
    · simp only [map_ok, Prod.mk.injEq] at h
      obtain ⟨_, _, _, rfl⟩ := h
      exact List.suffix_cons t ts
    · simp only [bind_ok, Prod.exists] at h
      obtain ⟨s, r, hi, ss, r', hs, h⟩ := h
      simp only [Except.ok.injEq, Prod.mk.injEq] at h
      rw [← h.2]
      refine (separated_suffix hs).trans ((ident_suffix hi).trans ?_)
      split
      · exact List.suffix_cons t ts
      · exact List.suffix_rfl

theorem templateName_suffix {s : String} (h : templateName ts = .ok (s, rest)) : rest <:+ ts := by
  simp only [templateName, bind_ok, Prod.exists] at h
  obtain ⟨s', r, hn, h⟩ := h
  split at h
  · simp [fail] at h
  · simp only [Except.ok.injEq, Prod.mk.injEq] at h
    rw [← h.2]
    exact writtenName_suffix hn

theorem argumentValue_suffix {v : ArgumentValue} (h : argumentValue ts = .ok (v, rest)) :
    rest <:+ ts := by
  cases ts with
  | nil => simp [argumentValue, path, ident, fail, bind, Except.bind, map_ok] at h
  | cons t ts =>
    simp only [argumentValue] at h
    split at h
    · simp only [map_ok, Prod.mk.injEq] at h
      obtain ⟨_, _, _, rfl⟩ := h
      exact List.suffix_cons t ts
    · simp only [map_ok, Prod.exists, Prod.mk.injEq] at h
      obtain ⟨p, r, hp, _, rfl⟩ := h
      exact path_suffix hp

theorem argument_suffix {seen : List Argument} {t : Token} {a : Argument}
    (h : argument seen t ts = .ok (a, rest)) : rest <:+ ts := by
  simp only [argument, bind_ok] at h
  obtain ⟨key, _, h⟩ := h
  split at h
  · simp [fail] at h
  · simp only [bind_ok, Prod.exists] at h
    obtain ⟨u, r, hk, v, r', hv, h⟩ := h
    simp only [Except.ok.injEq, Prod.mk.injEq] at h
    rw [← h.2]
    exact (argumentValue_suffix hv).trans (kind_suffix hk)

/-- The arguments of a call, added to those seen before. -/
def arguments (seen : List Argument) : List Token → Outcome (List Argument × List Token)
  | [] => .ok (seen, [])
  | t :: ts =>
    if t.kind = .ident then
      match h : argument seen t ts with
      | .error e => .error e
      | .ok (a, rest) =>
        have : rest.length < (t :: ts).length := Nat.lt_succ_of_le (argument_suffix h).length_le
        arguments (seen ++ [a]) rest
    else .ok (seen, t :: ts)
termination_by ts => ts.length
decreasing_by exact this

theorem arguments_suffix {seen args : List Argument} (h : arguments seen ts = .ok (args, rest)) :
    rest <:+ ts := by
  fun_induction arguments seen ts with
  | case1 => simp_all
  | case2 => simp_all
  | case3 seen t ts _ a r ha _ ih =>
    exact (ih h).trans ((argument_suffix ha).trans (List.suffix_cons t ts))
  | case4 => simp_all

end CodeTemplate.Parser

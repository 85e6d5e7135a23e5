import CodeTemplate.Markup.Tree.Part

/-! Tags read from tokens. A tag is a node by itself, or it opens a block. -/

namespace CodeTemplate.Parser

/-- An open block: the name of its first tag, and where that starts. -/
structure Block where
  name : String
  start : Location
  deriving DecidableEq, Repr

/-- What is known of a block when its first tag has been read. After `else`, a condition also has
its first branch. -/
inductive Header where
  | conditional (condition : Path)
  | alternative (condition : Path) (thenBranch : List Node)
  | loop (item : String) (collection : Path)
  | filtered (filters : List Filter)
  | imports (subject : Path)
  | parameterList
  | parameter (grouped : Bool)

def Header.tag : Header → String
  | conditional _ | alternative .. => "if"
  | loop .. => "for"
  | filtered _ => "filter"
  | imports _ => "imports"
  | parameterList => "parameter_list"
  | parameter _ => "parameter"

def Header.endTag : Header → String
  | conditional _ | alternative .. => "endif"
  | loop .. => "endfor"
  | filtered _ => "endfilter"
  | imports _ => "endimports"
  | parameterList => "end_parameter_list"
  | parameter _ => "end_parameter"

def Header.node (start : Location) (body : List Node) : Header → Node
  | conditional condition => .conditional condition body none start
  | alternative condition thenBranch => .conditional condition thenBranch (some body) start
  | loop item collection => .loop item collection body start
  | filtered filters => .filtered filters body start
  | imports subject => .imports subject body start
  | parameterList => .parameterList body start
  | parameter grouped => .parameter grouped body start

/-- The tags that close a block or split it. -/
def endTags : List String := ["else", "endif", "endfor", "endimports", "endfilter",
  "end_parameter_list", "end_parameter", "endcomment"]

/-- Whether a parameter may stand in the open blocks: of the parameters and parameter lists among
them, the innermost must be a list. -/
def parameterFault? : List Block → Option ParseFault
  | [] => some .parameterOutsideList
  | b :: bs =>
    if b.name = "parameter_list" then none
    else if b.name = "parameter" then some (.parameterInParameter b.start)
    else parameterFault? bs

inductive Tag where
  | node (n : Node)
  | block (h : Header)

def wholeTag (name : String) (node : Node) (ts : List Token) : Outcome (Tag × List Token) :=
  (close name ts).map fun ((), ts) => (.node node, ts)

def firstTag (header : Header) (ts : List Token) : Outcome (Tag × List Token) :=
  (close header.tag ts).map fun ((), ts) => (.block header, ts)

def pathTag (ts : List Token) (tag : Path → List Token → Outcome (Tag × List Token)) :
    Outcome (Tag × List Token) := do
  let (p, ts) ← path ts
  tag p ts

def loopTag (ts : List Token) : Outcome (Tag × List Token) := do
  let (item, ts) ← ident "loop variable" ts
  let ((), ts) ← word "in" ts
  pathTag ts fun p => firstTag (.loop item p)

def filterTag (ts : List Token) : Outcome (Tag × List Token) := do
  let (fs, ts) ← filters ts
  firstTag (.filtered fs) ts

def callTag (start : Location) (ts : List Token) : Outcome (Tag × List Token) := do
  let (name, ts) ← templateName ts
  let (args, ts) ← arguments [] ts
  wholeTag "call_template" (.call name args start) ts

def languageTag (start : Location) (ts : List Token) : Outcome (Tag × List Token) := do
  let (name, ts) ← ident "language name" ts
  wholeTag "language" (.language name start) ts

def templateTag (ts : List Token) : Outcome (Tag × List Token) := do
  let (name, rest) ← ident "templatetag name" ts
  match PlainEntry.find? templateTags name with
  | some entry => wholeTag "templatetag" entry.node rest
  | none => fail (ts.headD noToken) (.unknownTemplateTag name)

def parameterTag (around : List Block) (start : Token) (ts : List Token) :
    Outcome (Tag × List Token) :=
  match parameterFault? around with
  | some f => fail start f
  | none =>
    match ts with
    | t :: _ =>
      if t.kind = .ident then do
        let ((), ts) ← word "group" ts
        firstTag (.parameter true) ts
      else firstTag (.parameter false) ts
    | [] => firstTag (.parameter false) []

/-- The tags that close no block. -/
inductive TagName where
  | language | copyrightBlock | conditional | loop | filter | imports | callTemplate | docCommentIf
  | literal | parameterList | parameter | templateTag
  deriving DecidableEq, Repr

def TagName.text : TagName → String
  | language => "language"
  | copyrightBlock => "copyright_block"
  | conditional => "if"
  | loop => "for"
  | filter => "filter"
  | imports => "imports"
  | callTemplate => "call_template"
  | docCommentIf => "doc_comment_if"
  | literal => "literal"
  | parameterList => "parameter_list"
  | parameter => "parameter"
  | templateTag => "templatetag"

def TagName.all : List TagName := [language, copyrightBlock, conditional, loop, filter, imports,
  callTemplate, docCommentIf, literal, parameterList, parameter, templateTag]

def TagName.ofText? (s : String) : Option TagName := all.find? (·.text == s)

/-- A tag after its name, inside the blocks `around`, the innermost first. `start` is its opening
delimiter. -/
def tag (around : List Block) (start : Token) (name : TagName) (ts : List Token) :
    Outcome (Tag × List Token) :=
  let l := start.location
  match name with
  | .language => languageTag l ts
  | .copyrightBlock => wholeTag name.text (.copyright start.indent l) ts
  | .conditional => pathTag ts fun p => firstTag (.conditional p)
  | .loop => loopTag ts
  | .filter => filterTag ts
  | .imports => pathTag ts fun p => firstTag (.imports p)
  | .callTemplate => callTag l ts
  | .docCommentIf => pathTag ts fun p => wholeTag name.text (.docComment p start.indent l)
  | .literal => pathTag ts fun p => wholeTag name.text (.literal p l)
  | .parameterList => firstTag .parameterList ts
  | .parameter => parameterTag around start ts
  | .templateTag => templateTag ts

variable {g : Tag}

theorem wholeTag_suffix {name : String} {n : Node} (h : wholeTag name n ts = .ok (g, rest)) :
    rest <:+ ts := by
  simp only [wholeTag, map_ok, Prod.exists, Prod.mk.injEq] at h
  obtain ⟨u, r, hc, _, rfl⟩ := h
  exact close_suffix hc

theorem firstTag_suffix {header : Header} (h : firstTag header ts = .ok (g, rest)) :
    rest <:+ ts := by
  simp only [firstTag, map_ok, Prod.exists, Prod.mk.injEq] at h
  obtain ⟨u, r, hc, _, rfl⟩ := h
  exact close_suffix hc

theorem pathTag_suffix {f : Path → List Token → Outcome (Tag × List Token)}
    (hf : ∀ p ts rest g, f p ts = .ok (g, rest) → rest <:+ ts)
    (h : pathTag ts f = .ok (g, rest)) : rest <:+ ts := by
  simp only [pathTag, bind_ok, Prod.exists] at h
  obtain ⟨p, r, hp, h⟩ := h
  exact (hf p r rest g h).trans (path_suffix hp)

theorem loopTag_suffix (h : loopTag ts = .ok (g, rest)) : rest <:+ ts := by
  simp only [loopTag, bind_ok, Prod.exists] at h
  obtain ⟨s, r, hi, u, r', hw, h⟩ := h
  exact (pathTag_suffix (fun _ _ _ _ h => firstTag_suffix h) h).trans
    ((word_suffix hw).trans (ident_suffix hi))

theorem filterTag_suffix (h : filterTag ts = .ok (g, rest)) : rest <:+ ts := by
  simp only [filterTag, bind_ok, Prod.exists] at h
  obtain ⟨fs, r, hf, h⟩ := h
  exact (firstTag_suffix h).trans (filters_suffix hf)

theorem callTag_suffix {start : Location} (h : callTag start ts = .ok (g, rest)) :
    rest <:+ ts := by
  simp only [callTag, bind_ok, Prod.exists] at h
  obtain ⟨s, r, hn, as, r', ha, h⟩ := h
  exact (wholeTag_suffix h).trans ((arguments_suffix ha).trans (templateName_suffix hn))

theorem languageTag_suffix {start : Location} (h : languageTag start ts = .ok (g, rest)) :
    rest <:+ ts := by
  simp only [languageTag, bind_ok, Prod.exists] at h
  obtain ⟨s, r, hi, h⟩ := h
  exact (wholeTag_suffix h).trans (ident_suffix hi)

theorem templateTag_suffix (h : templateTag ts = .ok (g, rest)) : rest <:+ ts := by
  simp only [templateTag, bind_ok, Prod.exists] at h
  obtain ⟨s, r, hi, h⟩ := h
  split at h
  · exact (wholeTag_suffix h).trans (ident_suffix hi)
  · simp [fail] at h

theorem parameterTag_suffix {around : List Block} {start : Token}
    (h : parameterTag around start ts = .ok (g, rest)) : rest <:+ ts := by
  simp only [parameterTag] at h
  split at h
  · simp [fail] at h
  · split at h
    · split at h
      · simp only [bind_ok, Prod.exists] at h
        obtain ⟨u, r, hw, h⟩ := h
        exact (firstTag_suffix h).trans (word_suffix hw)
      · exact firstTag_suffix h
    · exact firstTag_suffix h

theorem tag_suffix {around : List Block} {start : Token} {name : TagName}
    (h : tag around start name ts = .ok (g, rest)) : rest <:+ ts := by
  cases name with
  | language => exact languageTag_suffix h
  | copyrightBlock => exact wholeTag_suffix h
  | conditional =>
    simp only [tag] at h
    exact pathTag_suffix (fun _ _ _ _ h => firstTag_suffix h) h
  | loop => exact loopTag_suffix h
  | filter => exact filterTag_suffix h
  | imports =>
    simp only [tag] at h
    exact pathTag_suffix (fun _ _ _ _ h => firstTag_suffix h) h
  | callTemplate => exact callTag_suffix h
  | docCommentIf =>
    simp only [tag] at h
    exact pathTag_suffix (fun _ _ _ _ h => wholeTag_suffix h) h
  | literal =>
    simp only [tag] at h
    exact pathTag_suffix (fun _ _ _ _ h => wholeTag_suffix h) h
  | parameterList => exact firstTag_suffix h
  | parameter => exact parameterTag_suffix h
  | templateTag => exact templateTag_suffix h

end CodeTemplate.Parser

import CodeTemplate.Markup.Tree.Basic
import CodeTemplate.Markup.Name

/-! The grammar of templates, over tokens: what makes up a path, a name, a tag, a sequence of nodes,
and where parameters may stand. -/

namespace CodeTemplate.Grammar

/-- An identifier with its name; one without a value is none. -/
def IsIdent (t : Token) (s : String) : Prop := t.kind = .ident ∧ t.value = some s

def IsString (t : Token) (s : String) : Prop := t.kind = .string ∧ t.value = some s

/-- Items that each have a sign before them. -/
inductive Items {α : Type} (item : Token → Token → α → Prop) : List Token → List α → Prop
  | nil : Items item [] []
  | cons {sign t : Token} {a : α} {ts : List Token} {as : List α} :
      item sign t a → Items item ts as → Items item (sign :: t :: ts) (a :: as)

def IsAttribute (sign t : Token) (name : String) : Prop := sign.kind = .dot ∧ IsIdent t name

inductive IsPath : List Token → Path → Prop
  | mk {t : Token} {ts : List Token} {name : String} {attributes : List String} :
      IsIdent t name → Items IsAttribute ts attributes → IsPath (t :: ts) ⟨name, attributes⟩

def IsFilter (t : Token) (f : Filter) : Prop := IsIdent t f.name

def IsPiped (sign t : Token) (f : Filter) : Prop := sign.kind = .pipe ∧ IsFilter t f

/-- A further segment of a template name, with the sign before it. -/
def IsSegment (sign t : Token) (s : String) : Prop :=
  ∃ name, IsIdent t name ∧
    (sign.kind = .slash ∧ s = "/" ++ name ∨ sign.kind = .dot ∧ s = "." ++ name)

/-- A template name as written: a string, or identifiers joined by slashes and dots, after at most
one slash. -/
inductive IsName : List Token → String → Prop
  | quoted {t : Token} {s : String} : IsString t s → IsName [t] s
  | relative {t : Token} {ts : List Token} {first : String} {more : List String} :
      IsIdent t first → Items IsSegment ts more → IsName (t :: ts) (first ++ String.join more)
  | rooted {slash t : Token} {ts : List Token} {first : String} {more : List String} :
      slash.kind = .slash → IsIdent t first → Items IsSegment ts more →
      IsName (slash :: t :: ts) ("/" ++ first ++ String.join more)

inductive IsArguments : List Token → List Argument → Prop
  | nil : IsArguments [] []
  | path {k eq : Token} {ps ts : List Token} {key : String} {p : Path} {args : List Argument} :
      IsIdent k key → eq.kind = .equal → IsPath ps p → IsArguments ts args →
      IsArguments (k :: eq :: (ps ++ ts)) (⟨key, .path p⟩ :: args)
  | string {k eq t : Token} {ts : List Token} {key s : String} {args : List Argument} :
      IsIdent k key → eq.kind = .equal → IsString t s → IsArguments ts args →
      IsArguments (k :: eq :: t :: ts) (⟨key, .string s⟩ :: args)

/-- A block tag of the given name: its opening delimiter, what follows the name, all its tokens. -/
inductive IsTag (name : String) (start : Token) : List Token → List Token → Prop
  | mk {word stop : Token} (args : List Token) :
      start.kind = .blockOpen → IsIdent word name → stop.kind = .blockClose →
      IsTag name start args (start :: word :: (args ++ [stop]))

/-- The nodes that have no body. -/
inductive IsLeaf : List Token → Node → Prop
  | text {t : Token} {value : String} :
      t.kind = .text → t.value = some value → IsLeaf [t] (.text value)
  | variable {start stop : Token} {ps fs : List Token} {p : Path} {filters : List Filter} :
      start.kind = .varOpen → IsPath ps p → Items IsPiped fs filters → stop.kind = .varClose →
      IsLeaf (start :: (ps ++ (fs ++ [stop]))) (.variable p filters start.location)
  | language {start t : Token} {ts : List Token} {name : String} :
      IsTag "language" start [t] ts → IsIdent t name → IsLeaf ts (.language name start.location)
  | copyright {start : Token} {ts : List Token} :
      IsTag "copyright_block" start [] ts → IsLeaf ts (.copyright start.indent start.location)
  | docComment {start : Token} {ps ts : List Token} {p : Path} :
      IsTag "doc_comment_if" start ps ts → IsPath ps p →
      IsLeaf ts (.docComment p start.indent start.location)
  | literal {start : Token} {ps ts : List Token} {p : Path} :
      IsTag "literal" start ps ts → IsPath ps p → IsLeaf ts (.literal p start.location)
  | templateTag {start t : Token} {ts : List Token} {name text : String} :
      IsTag "templatetag" start [t] ts → IsIdent t name → (name, text) ∈ templateTags →
      IsLeaf ts (.text text)
  | inheritedTag {start t : Token} {ts : List Token} {name : String} {member : Inherited} :
      IsTag "templatetag" start [t] ts → IsIdent t name → (name, member) ∈ Inherited.all →
      IsLeaf ts (.inherited member)
  | call {start : Token} {ns as ts : List Token} {name : String} {args : List Argument} :
      IsTag "call_template" start (ns ++ as) ts → IsName ns name →
      TemplateName.fault? name = none → IsArguments as args → (args.map (·.key)).Nodup →
      IsLeaf ts (.call name args start.location)

/-- The first tag of a block, the name of its end tag, and the node that a body makes of it. -/
inductive Opening : List Token → String → (List Node → Node) → Prop
  | conditional {start : Token} {ps ts : List Token} {p : Path} :
      IsTag "if" start ps ts → IsPath ps p →
      Opening ts "endif" (.conditional p · none start.location)
  | loop {start item within : Token} {ps ts : List Token} {name : String} {p : Path} :
      IsTag "for" start (item :: within :: ps) ts → IsIdent item name → IsIdent within "in" →
      IsPath ps p → Opening ts "endfor" (.loop name p · start.location)
  | filtered {start t : Token} {fs ts : List Token} {f : Filter} {filters : List Filter} :
      IsTag "filter" start (t :: fs) ts → IsFilter t f → Items IsPiped fs filters →
      Opening ts "endfilter" (.filtered (f :: filters) · start.location)
  | imports {start : Token} {ps ts : List Token} {p : Path} :
      IsTag "imports" start ps ts → IsPath ps p →
      Opening ts "endimports" (.imports p · start.location)
  | parameterList {start : Token} {ts : List Token} :
      IsTag "parameter_list" start [] ts →
      Opening ts "end_parameter_list" (.parameterList · start.location)
  | parameter {start : Token} {ts : List Token} :
      IsTag "parameter" start [] ts →
      Opening ts "end_parameter" (.parameter false · start.location)
  | groupedParameter {start group : Token} {ts : List Token} :
      IsTag "parameter" start [group] ts → IsIdent group "group" →
      Opening ts "end_parameter" (.parameter true · start.location)

/-- Nodes one after the other. A condition with two branches is a block of its own kind, since its
body is split. -/
inductive Derives : List Token → List Node → Prop
  | nil : Derives [] []
  | leaf {ts us : List Token} {n : Node} {ns : List Node} :
      IsLeaf ts n → Derives us ns → Derives (ts ++ us) (n :: ns)
  | block {ts inner close us : List Token} {endTag : String} {node : List Node → Node}
      {stop : Token} {body ns : List Node} :
      Opening ts endTag node → Derives inner body → IsTag endTag stop [] close → Derives us ns →
      Derives (ts ++ (inner ++ (close ++ us))) (node body :: ns)
  | branches {ps ts yes middle no close us : List Token} {start split stop : Token} {p : Path}
      {thenBranch elseBranch ns : List Node} :
      IsTag "if" start ps ts → IsPath ps p → Derives yes thenBranch →
      IsTag "else" split [] middle → Derives no elseBranch → IsTag "endif" stop [] close →
      Derives us ns →
      Derives (ts ++ (yes ++ (middle ++ (no ++ (close ++ us)))))
        (.conditional p thenBranch (some elseBranch) start.location :: ns)

mutual

/-- Whether each parameter in the node is in a parameter list before it is in another parameter;
`inList` tells so of the place of the node itself. -/
def Placed (inList : Bool) : Node → Prop
  | .conditional _ thenBranch none _ => AllPlaced inList thenBranch
  | .conditional _ thenBranch (some elseBranch) _ =>
    AllPlaced inList thenBranch ∧ AllPlaced inList elseBranch
  | .loop _ _ body _ => AllPlaced inList body
  | .filtered _ body _ => AllPlaced inList body
  | .imports _ body _ => AllPlaced inList body
  | .parameterList body _ => AllPlaced true body
  | .parameter _ body _ => inList = true ∧ AllPlaced false body
  | _ => True

def AllPlaced (inList : Bool) : List Node → Prop
  | [] => True
  | n :: ns => Placed inList n ∧ AllPlaced inList ns

end

theorem IsLeaf.placed {ts : List Token} {n : Node} (h : IsLeaf ts n) (inList : Bool) :
    Placed inList n := by
  cases h <;> simp [Placed]

/-! The end of the text belongs to no part of a template, and no delimiter stands in a tag. -/

/-- The tokens before the end of the text, which are all of them if it is missing. -/
def content (ts : List Token) : List Token := ts.takeWhile (·.kind != .eof)

/-- None of the tokens is the end of the text. -/
def Within (ts : List Token) : Prop := ∀ t ∈ ts, t.kind ≠ .eof

/-- Names, strings and the signs between them: the tokens that stand in a tag. -/
def Inner (ts : List Token) : Prop :=
  ∀ t ∈ ts, t.kind ∈ [.ident, .string, .dot, .pipe, .equal, .slash]

variable {t : Token} {ts us : List Token}

@[simp] theorem within_nil : Within [] := by simp [Within]

@[simp] theorem within_cons : Within (t :: ts) ↔ t.kind ≠ .eof ∧ Within ts := by simp [Within]

@[simp] theorem within_append : Within (ts ++ us) ↔ Within ts ∧ Within us := by
  simp [Within, or_imp, forall_and]

@[simp] theorem inner_nil : Inner [] := by simp [Inner]

@[simp] theorem inner_cons :
    Inner (t :: ts) ↔ t.kind ∈ [.ident, .string, .dot, .pipe, .equal, .slash] ∧ Inner ts := by
  simp [Inner]

@[simp] theorem inner_append : Inner (ts ++ us) ↔ Inner ts ∧ Inner us := by
  simp [Inner, or_imp, forall_and]

theorem Inner.within (h : Inner ts) : Within ts := by
  intro t ht he
  simpa [he] using h t ht

theorem Items.inner {α : Type} {item : Token → Token → α → Prop} {as : List α}
    (hi : ∀ sign t a, item sign t a → Inner [sign, t]) (h : Items item ts as) : Inner ts := by
  induction h with
  | nil => simp
  | cons h _ ih => simpa [ih] using hi _ _ _ h

theorem IsPath.inner {p : Path} (h : IsPath ts p) : Inner ts := by
  cases h with
  | mk hi hs => simp [hi.1, hs.inner fun _ _ _ h => by simp [h.1, h.2.1]]

theorem inner_of_piped {fs : List Filter} (h : Items IsPiped ts fs) : Inner ts :=
  h.inner fun _ _ _ h => by simp [h.1, h.2.1]

theorem inner_of_segments {ss : List String} (h : Items IsSegment ts ss) : Inner ts := by
  refine h.inner ?_
  rintro sign t s ⟨name, hi, ⟨hk, _⟩ | ⟨hk, _⟩⟩ <;> simp [hk, hi.1]

theorem IsName.inner {s : String} (h : IsName ts s) : Inner ts := by
  cases h with
  | quoted h => simp [h.1]
  | relative hi hs => simp [hi.1, inner_of_segments hs]
  | rooted hk hi hs => simp [hk, hi.1, inner_of_segments hs]

theorem IsArguments.inner {args : List Argument} (h : IsArguments ts args) : Inner ts := by
  induction h with
  | nil => simp
  | path hk he hp _ ih => simp [hk.1, he, hp.inner, ih]
  | string hk he hs _ ih => simp [hk.1, he, hs.1, ih]

theorem IsTag.within {name : String} {start : Token} {args : List Token}
    (h : IsTag name start args ts) (ha : Inner args) : Within ts := by
  cases h with
  | mk _ hs hw hc => simp [hs, hw.1, hc, ha.within]

/-- The tags of the nodes that have no body. -/
def leafTags : List String :=
  ["language", "copyright_block", "doc_comment_if", "literal", "templatetag", "call_template"]

/-- A node without a body is a text, a variable or a tag. -/
theorem IsLeaf.cases_tag {n : Node} (h : IsLeaf ts n) :
    (∃ t, ts = [t] ∧ t.kind = .text) ∨
      (∃ start inner stop, ts = start :: (inner ++ [stop]) ∧ start.kind = .varOpen ∧ Inner inner ∧
        stop.kind = .varClose) ∨
      ∃ name start args, name ∈ leafTags ∧ IsTag name start args ts ∧ Inner args := by
  cases h with
  | text hk _ => exact .inl ⟨_, rfl, hk⟩
  | @«variable» start stop ps fs p filters hk hp hf hc =>
    have hinner : Inner (ps ++ fs) := by simp [hp.inner, inner_of_piped hf]
    exact .inr (.inl ⟨start, ps ++ fs, stop, by simp, hk, hinner, hc⟩)
  | language ht hi => exact .inr (.inr ⟨_, _, _, by simp [leafTags], ht, by simp [hi.1]⟩)
  | copyright ht => exact .inr (.inr ⟨_, _, _, by simp [leafTags], ht, inner_nil⟩)
  | docComment ht hp => exact .inr (.inr ⟨_, _, _, by simp [leafTags], ht, hp.inner⟩)
  | literal ht hp => exact .inr (.inr ⟨_, _, _, by simp [leafTags], ht, hp.inner⟩)
  | templateTag ht hi _ | inheritedTag ht hi _ =>
    exact .inr (.inr ⟨_, _, _, by simp [leafTags], ht, by simp [hi.1]⟩)
  | call ht hn _ ha _ =>
    exact .inr (.inr ⟨_, _, _, by simp [leafTags], ht, by simp [hn.inner, ha.inner]⟩)

/-- The blocks, each by the name of its first tag and that of its end tag. -/
def blocks : List (String × String) := [
  ("if", "endif"),
  ("for", "endfor"),
  ("filter", "endfilter"),
  ("imports", "endimports"),
  ("parameter_list", "end_parameter_list"),
  ("parameter", "end_parameter")]

/-- The first tag of the undivided block that the node is, by its name and where it starts. -/
def openedBy? : Node → Option (String × Location)
  | .conditional _ _ none start => some ("if", start)
  | .loop _ _ _ start => some ("for", start)
  | .filtered _ _ start => some ("filter", start)
  | .imports _ _ start => some ("imports", start)
  | .parameterList _ start => some ("parameter_list", start)
  | .parameter _ _ start => some ("parameter", start)
  | _ => none

theorem Opening.exists_tag {endTag : String} {node : List Node → Node}
    (h : Opening ts endTag node) :
    ∃ name start args, (name, endTag) ∈ blocks ∧ IsTag name start args ts ∧ Inner args ∧
      ∀ body, openedBy? (node body) = some (name, start.location) := by
  cases h with
  | conditional ht hp | imports ht hp =>
    exact ⟨_, _, _, by simp [blocks], ht, hp.inner, fun _ => rfl⟩
  | loop ht hi hw hp =>
    exact ⟨_, _, _, by simp [blocks], ht, by simp [hi.1, hw.1, hp.inner], fun _ => rfl⟩
  | filtered ht hf hs =>
    exact ⟨_, _, _, by simp [blocks], ht, by simp [hf.1, inner_of_piped hs], fun _ => rfl⟩
  | parameterList ht | parameter ht =>
    exact ⟨_, _, _, by simp [blocks], ht, inner_nil, fun _ => rfl⟩
  | groupedParameter ht hg =>
    exact ⟨_, _, _, by simp [blocks], ht, by simp [hg.1], fun _ => rfl⟩

theorem IsLeaf.within {n : Node} (h : IsLeaf ts n) : Within ts := by
  rcases h.cases_tag with ⟨t, rfl, hk⟩ | ⟨start, inner, stop, rfl, hk, hi, hc⟩ |
    ⟨name, start, args, -, ht, ha⟩
  · simp [hk]
  · simp [hk, hi.within, hc]
  · exact ht.within ha

theorem Opening.within {endTag : String} {node : List Node → Node} (h : Opening ts endTag node) :
    Within ts := by
  obtain ⟨name, start, args, -, ht, ha, -⟩ := h.exists_tag
  exact ht.within ha

end CodeTemplate.Grammar

import CodeTemplate.Proofs.Generator.Naming
import CodeTemplate.Proofs.Render.ParameterList
import CodeTemplate.Proofs.Shipped

/-! The signatures of methods in Java: what the template for them gives, for every method. -/

namespace CodeTemplate

/-! ### What a signature says -/

/-- The texts without white space at their ends, but for those that are blank. -/
def Text.trimmed (texts : List String) : List String := (texts.map trim).filter (· ≠ "")

def Parameter.declaration (p : Parameter) : String := p.codeType.text ++ " " ++ p.codeName

namespace Method

/-- The declarations of the required parameters by rank, and that of the request body. -/
def ownDeclarations (m : Method) : List String :=
  m.requiredParameters.map Parameter.declaration ++
    m.requestType.toList.map fun r => r.className ++ " content"

/-- The parameters of a method as Java declares them. The optional ones stand last, in a group;
where nothing is declared in it there is no group. -/
def signature (group : Group) (m : Method) : String :=
  let grouped := Text.trimmed (m.optionalParameters.map Parameter.declaration)
  let last :=
    if grouped = [] then [] else [group.opening ++ ", ".intercalate grouped ++ group.closing]
  "(" ++ ", ".intercalate (Text.trimmed m.ownDeclarations ++ last) ++ ")"

end Method

/-! ### The template -/

namespace Node

/-- A loop over a list of the method, with a parameter for each item. -/
def declaresEach (list : String) (grouped : Bool) : Node → Bool
  | .loop item collection
      [.parameter g [.variable first [] _, .text between, .variable second [] _] _, .text _] _ =>
    item = "p" ∧ collection = ⟨"method", [list]⟩ ∧ g = grouped ∧
      first = ⟨"p", ["codeType"]⟩ ∧ between = " " ∧ second = ⟨"p", ["codeName"]⟩
  | _ => false

/-- A parameter for the request body, if there is one. -/
def declaresBody : Node → Bool
  | .conditional condition [.parameter g [.variable name [] _, .text rest] _, .text _] none _ =>
    condition = ⟨"method", ["requestType"]⟩ ∧ g = false ∧
      name = ⟨"method", ["requestType", "className"]⟩ ∧ rest = " content"
  | _ => false

/-- A list of all parameters, the body before the optional ones. -/
def declaresAll : List Node → Bool
  | [.parameterList [required, body, optional] _] =>
    required.declaresEach "requiredParameters" false && body.declaresBody &&
      optional.declaresEach "optionalParameters" true
  | _ => false

end Node

namespace Render

open CodeTemplate.Action

variable {σ : Type} {c : Setting σ} {s : Scope} {l : Language}

theorem node_variable {path : Path} {text : String} (h : s.resolve path = .ok (.string text))
    (inList : Bool) (start : Location) :
    node c s inList l (.variable path [] start) = pure ⟨text, l, []⟩ := by
  simp [node, resolve, h, Filter.applyAll, Value.toText, ofValue]

/-- A parameter whose body has no parameters, and the text behind it. -/
theorem nodes_parameter {body : List Node} {text : String}
    (h : nodes c s true l body = pure ⟨text, l, []⟩) (grouped : Bool) (start : Location)
    (behind : String) : nodes c s true l [.parameter grouped body start, .text behind] =
      pure ⟨behind, l, parameterEntries grouped text⟩ := by
  simp [nodes, node, h, Output.append]

/-- The entries of parameters that come one after the other. -/
def entriesOf (grouped : Bool) (texts : List String) : List Entry :=
  texts.flatMap (parameterEntries grouped)

theorem textsOf_entriesOf (grouped other : Bool) (texts : List String) :
    textsOf grouped (entriesOf other texts) =
      if other = grouped then Text.trimmed texts else [] := by
  induction texts with
  | nil => simp [entriesOf, textsOf, Text.trimmed]
  | cons t ts ih =>
    have hcons : entriesOf other (t :: ts) = parameterEntries other t ++ entriesOf other ts := rfl
    rw [hcons, textsOf_append, ih]
    by_cases hg : other = grouped <;> by_cases ht : Text.trim t = "" <;>
      simp [textsOf, parameterEntries, Text.trimmed, hg, ht]

theorem resolve_loopFrame {p : Parameter} (hp : p.codeType.IsOwn) (i count : Nat) (s : Scope) :
    Scope.resolve (Scope.loopFrame "p" (.entity (.parameter p)) i count :: s)
        ⟨"p", ["codeType"]⟩ = .ok (.string p.codeType.text) ∧
      Scope.resolve (Scope.loopFrame "p" (.entity (.parameter p)) i count :: s)
        ⟨"p", ["codeName"]⟩ = .ok (.string p.codeName) := by
  obtain ⟨text, htext⟩ := hp
  simp [htext, Value.ofEntry, PlainEntry.text, Scope.resolve, Scope.lookup?, Scope.loopFrame,
    Scope.attributes, Value.attribute?, Entity.attributes, List.lookup_cons]

/-- A loop over parameters whose body gives an entry for each. -/
theorem eachItem_parameters {body : Scope → Language → Action σ Output} {count : Nat}
    {grouped : Bool} {declaration : Parameter → String} {ps : List Parameter}
    (h : ∀ p ∈ ps, ∀ i, ∃ text,
      body (Scope.loopFrame "p" (.entity (.parameter p)) i count :: s) l =
        pure ⟨text, l, parameterEntries grouped (declaration p)⟩) (i : Nat) :
    ∃ text, eachItem body s "p" count i (ps.map fun p => .entity (.parameter p)) l =
      pure ⟨text, l, entriesOf grouped (ps.map declaration)⟩ := by
  induction ps generalizing i with
  | nil => exact ⟨"", rfl⟩
  | cons p ps ih =>
    obtain ⟨hp, hps⟩ := List.forall_mem_cons.1 h
    obtain ⟨a, ha⟩ := hp i
    obtain ⟨b, hb⟩ := ih hps (i + 1)
    exact ⟨a ++ b, by simp [eachItem, ha, hb, Output.append, entriesOf]⟩

theorem node_declaresEach {list : String} {grouped : Bool} {n : Node}
    (h : n.declaresEach list grouped = true) {ps : List Parameter}
    (hps : ∀ p ∈ ps, p.codeType.IsOwn)
    (hs : s.resolve ⟨"method", [list]⟩ = .ok (Entity.ofParameters ps)) :
    ∃ text, node c s true l n =
      pure ⟨text, l, entriesOf grouped (ps.map Parameter.declaration)⟩ := by
  unfold Node.declaresEach at h
  split at h
  · simp only [Bool.decide_and, Bool.and_eq_true, decide_eq_true_eq] at h
    obtain ⟨rfl, rfl, rfl, rfl, rfl, rfl⟩ := h
    simp only [node, resolve, hs, Entity.ofParameters, Value.toItems, ofValue, pure_bind,
      List.length_map]
    refine eachItem_parameters (fun p hp i => ?_) 0
    obtain ⟨hfirst, hsecond⟩ := resolve_loopFrame (hps p hp) i ps.length s
    refine ⟨_, nodes_parameter ?_ _ _ _⟩
    simp only [nodes, node_variable hfirst, node_variable hsecond, pure_bind]
    simp [node, Output.append, Parameter.declaration, String.append_assoc]
  · simp at h

theorem node_declaresBody {n : Node} (h : n.declaresBody = true) {request : Option Model}
    (hs : s.resolve ⟨"method", ["requestType"]⟩ = .ok (Value.ofOption Entity.ofModel request))
    (hname : ∀ r ∈ request,
      s.resolve ⟨"method", ["requestType", "className"]⟩ = .ok (.string r.className)) :
    ∃ text, node c s true l n = pure ⟨text, l,
      entriesOf false (request.toList.map fun r => r.className ++ " content")⟩ := by
  unfold Node.declaresBody at h
  split at h
  · simp only [Bool.decide_and, Bool.and_eq_true, decide_eq_true_eq] at h
    obtain ⟨rfl, rfl, rfl, rfl⟩ := h
    simp only [node, resolve, hs, pure_bind]
    cases request with
    | none => exact ⟨"", rfl⟩
    | some r =>
      have htext : ∀ start, nodes c s true l [.variable ⟨"method", ["requestType", "className"]⟩ []
          start, .text " content"] = pure ⟨r.className ++ " content", l, []⟩ := by
        intro start
        simp only [nodes, node_variable (hname r rfl), pure_bind]
        simp [node, Output.append]
      simp only [nodes_parameter (htext _), Value.ofOption, Entity.ofModel, Value.isTrue,
        ↓reduceIte]
      rw [Option.toList_some, List.map_singleton, entriesOf, List.flatMap_singleton]
      exact ⟨_, rfl⟩
  · simp at h

/-- In any scope that binds the method, the list gives its signature. -/
theorem nodes_declaresAll {ns : List Node} (h : Node.declaresAll ns = true) {frame : Frame}
    {m : Method} (hspelled : m.Spelled)
    (hm : frame.lookup "method" = some (.entity (.method m))) :
    nodes c [frame] false l ns = pure ⟨m.signature l.group, l, []⟩ := by
  have hattribute : ∀ name v, (Value.entity (.method m)).attribute? name = some v →
      Scope.resolve [frame] ⟨"method", [name]⟩ = .ok v := by
    intro name v hv
    simp [Scope.resolve, Scope.lookup?, hm, Scope.attributes, hv]
  have hname : ∀ r ∈ m.requestType, Scope.resolve [frame]
      ⟨"method", ["requestType", "className"]⟩ = .ok (.string r.className) := by
    intro r hr
    obtain hr : m.requestType = some r := hr
    simp [Scope.resolve, Scope.lookup?, hm, Scope.attributes, Value.attribute?, Entity.attributes,
      List.lookup_cons, hr, Value.ofOption, Entity.ofModel]
  have hownRequired : ∀ p ∈ m.requiredParameters, p.codeType.IsOwn :=
    fun p hp => hspelled p (List.mem_of_mem_filter (List.mem_mergeSort.1 hp))
  have hownOptional : ∀ p ∈ m.optionalParameters, p.codeType.IsOwn :=
    fun p hp => hspelled p (List.mem_of_mem_filter hp)
  unfold Node.declaresAll at h
  split at h
  · simp only [Bool.and_eq_true] at h
    obtain ⟨⟨hrequired, hbody⟩, hoptional⟩ := h
    obtain ⟨a, ha⟩ := node_declaresEach (c := c) (l := l) hrequired hownRequired
      (hattribute "requiredParameters" _ rfl)
    obtain ⟨b, hb⟩ := node_declaresBody (c := c) (l := l) hbody
      (hattribute "requestType" _ rfl) hname
    obtain ⟨d, hd⟩ := node_declaresEach (c := c) (l := l) hoptional hownOptional
      (hattribute "optionalParameters" _ rfl)
    simp only [nodes, node, ha, hb, hd, pure_bind, Output.append, parameterListText_eq,
      textsOf_append, textsOf_entriesOf]
    simp [textsOf, Method.signature, Method.ownDeclarations, Text.trimmed]
  · simp at h

end Render

namespace Shipped

open CodeTemplate.Action

theorem read?_methodSignature :
    source.read? "java/method_signature.tmpl" = some methodSignature := by
  simp [source, texts, Source.read?, List.lookup_cons]

theorem declaresAll_methodSignature : (source.tree? "java/method_signature.tmpl").any
    (fun t => Node.declaresAll t.nodes) = true := by
  simp (disch := exact rfl) only [Source.tree?_eq read?_methodSignature, methodSignature,
    Text.toList_unlines, List.map, Text.toList_of_eq]
  decide +kernel

/-- What the template gives is grouped as the first language has it. -/
theorem exec_render_signature {g : Generator} (hsource : g.source = source) {s : Store}
    (hs : s.cache.Consistent g.source) {frame : Frame} {m : Method} (hspelled : m.Spelled)
    (hm : frame.lookup "method" = some (.entity (.method m))) :
    (exec (g.render "java/method_signature" frame) s).1 =
      .ok (m.signature g.language.group) := by
  obtain ⟨t, ht, hdeclares⟩ := (Option.any_eq_true _ _).1 declaresAll_methodSignature
  obtain ⟨text, hread, htext⟩ := Source.tree?_eq_some_iff.1 ht
  obtain ⟨u, -, hrender⟩ :=
    Generator.exec_render_of_read frame hs normalize_names.2.2 (hsource ▸ hread)
  rw [hrender, htext]
  simp only [Except.bind, Generator.exec_start, Generator.run_eq, Render.template,
    Render.nodes_declaresAll hdeclares hspelled hm, pure_bind, exec_pure]

/-- Rendered for a method whose parameters have texts for code types, from any language that is
always there at the start and with any store, copyright text and limits, the template gives the
signature of the method and nothing else. -/
theorem render_signature {g : Generator} (hsource : g.source = source)
    (hlanguage : g.language ∈ Language.builtin) {s : Store} (hs : s.cache.Consistent g.source)
    {frame : Frame} {m : Method} (hspelled : m.Spelled)
    (hm : frame.lookup "method" = some (.entity (.method m))) :
    (exec (g.render "java/method_signature" frame) s).1 =
      .ok (m.signature ⟨"\x7b", "\x7d"⟩) := by
  have hgroup : ∀ l ∈ Language.builtin, l.group = ⟨"\x7b", "\x7d"⟩ := by decide
  rw [exec_render_signature hsource hs hspelled hm, hgroup _ hlanguage]

/-- Ranks decide about required parameters alone, and a blank declaration is left out. -/
theorem render_signature_insert :
    let parameter (name type : String) (required : Bool) : Parameter :=
      ⟨name, name, .own type, none, required, .query⟩
    let m : Method := ⟨"insert", "books", "POST", none, some ⟨"Book", none, none, none, []⟩, none,
      [parameter "page" "int" false, parameter "shelf" "String" true, parameter " " " " false,
        parameter "owner" "String" true, parameter "lang" "String" false], ["lang", "owner"]⟩
    let g : Generator := ⟨source, Language.builtin, Language.python, none, Number.ofNat 0,
      Number.ofNat 0⟩
    Cache.Consistent g.source [] ∧ m.Spelled ∧
      (exec (g.render "java/method_signature" [("method", .entity (.method m))]) {}).1 = .ok
        "(String owner, String shelf, Book content, \x7bint page, String lang\x7d)" := by
  intro parameter m g
  have hs : Cache.Consistent g.source ({} : Store).cache := Cache.consistent_nil source
  have hspelled : m.Spelled := by simp [m, parameter, Method.Spelled, PlainEntry.IsOwn]
  have hmem : g.language ∈ Language.builtin := by simp [g, Language.builtin]
  have hrender : (exec (g.render "java/method_signature" [("method", .entity (.method m))]) {}).1 =
      .ok (m.signature ⟨"\x7b", "\x7d"⟩) := render_signature rfl hmem hs hspelled rfl
  refine ⟨hs, hspelled, hrender.trans (congrArg Except.ok ?_)⟩
  have hrequired : m.requiredParameters =
      [parameter "owner" "String" true, parameter "shelf" "String" true] := by
    simp [m, parameter, Method.requiredParameters, Method.rank, List.mergeSort, List.idxOf_cons]
  rw [Method.signature, Method.ownDeclarations, hrequired]
  decide +kernel

/-- A method with an optional parameter and yet no group, since what is declared of the parameter is
blank; and a request body whose class is not written as it is named. -/
theorem render_signature_blank :
    let page : Parameter := ⟨"page", " ", .own " ", none, false, .query⟩
    let book : Model := ⟨" Book", none, none, none, []⟩
    let list : Method := ⟨"list", "books", "GET", none, none, none, [page], []⟩
    let insert : Method := ⟨"insert", "books", "GET", none, some book, none, [], []⟩
    let g : Generator := ⟨source, Language.builtin, Language.java, none, Number.ofNat 80,
      Number.ofNat 32⟩
    let rendered (m : Method) : Except TemplateError String :=
      (exec (g.render "java/method_signature" [("method", .entity (.method m))]) {}).1
    let literally (m : Method) : String := "(" ++ ", ".intercalate
      (Text.trimmed (m.requiredParameters.map Parameter.declaration) ++
        (m.requestType.toList.map fun r => r.className ++ " content") ++
        if m.optionalParameters = [] then []
        else ["\x7b" ++ ", ".intercalate
          (Text.trimmed (m.optionalParameters.map Parameter.declaration)) ++ "\x7d"]) ++ ")"
    page.checked = .ok page ∧ book.checked = .ok book ∧ list.Spelled ∧ insert.Spelled ∧
      list.checked = .ok list ∧ insert.checked = .ok insert ∧
      rendered list = .ok "()" ∧ literally list = "(\x7b\x7d)" ∧
      rendered insert = .ok "(Book content)" ∧ literally insert = "( Book content)" ∧
      ¬ ∀ m : Method, m.Spelled → rendered m = .ok (literally m) := by
  intro page book list insert g rendered literally
  have hs : Cache.Consistent g.source ({} : Store).cache := Cache.consistent_nil source
  have hrendered : ∀ m : Method, m.Spelled → rendered m = .ok (m.signature Language.braces) :=
    fun m hspelled => exec_render_signature rfl hs hspelled rfl
  have hslist : list.Spelled := by simp [list, page, Method.Spelled, PlainEntry.IsOwn]
  have hsinsert : insert.Spelled := by simp [insert, Method.Spelled]
  have hlist : list.requiredParameters = [] := by simp [list, page, Method.requiredParameters]
  have hinsert : insert.requiredParameters = [] := by simp [insert, Method.requiredParameters]
  have hempty : rendered list = .ok "()" := by
    rw [hrendered list hslist, Method.signature, Method.ownDeclarations, hlist]
    decide +kernel
  have hgroup : literally list = "(\x7b\x7d)" := by
    simp only [literally, hlist]
    decide +kernel
  refine ⟨rfl, rfl, hslist, hsinsert, rfl, rfl, hempty, hgroup, ?_, ?_, fun hall => ?_⟩
  · rw [hrendered insert hsinsert, Method.signature, Method.ownDeclarations, hinsert]
    decide +kernel
  · simp only [literally, hinsert]
    decide +kernel
  · have hsame : "()" = "(\x7b\x7d)" :=
      Except.ok.inj (hempty.symm.trans (hgroup ▸ hall list hslist))
    exact absurd hsame (by decide)

end Shipped
end CodeTemplate

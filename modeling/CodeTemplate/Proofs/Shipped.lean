import CodeTemplate.Proofs.Api.Consistency
import CodeTemplate.Proofs.Generator.Callee
import CodeTemplate.Proofs.Generator.Library
import CodeTemplate.Shipped

/-! The templates for Java that come with the library fit the models and methods of every API. Each
of these can be rendered exactly if its types are texts. -/

namespace CodeTemplate

namespace LanguageTable

theorem exists_find?_put {t : LanguageTable} {name : String} (h : ∃ l, t.find? name = some l)
    (l : Language) : ∃ l', (put l t).find? name = some l' := by
  simp only [find?, ← Option.isSome_iff_exists, List.find?_isSome] at h ⊢
  induction t with
  | nil => simp at h
  | cons k ks ih =>
    simp only [put]
    simp only [List.exists_mem_cons_iff] at h
    split
    · next hname => simpa only [List.exists_mem_cons_iff, hname] using h
    · rw [List.exists_mem_cons_iff]
      exact h.imp_right ih

/-- Further languages leave a language for each name. -/
theorem exists_find?_extending {name : String} (h : ∃ l, find? Language.builtin name = some l)
    (more : List Language) : ∃ l, (extending more).find? name = some l := by
  rw [extending]
  generalize Language.builtin = t at h ⊢
  induction more generalizing t with
  | nil => exact h
  | cons l more ih => exact ih (put l t) (exists_find?_put h l)

theorem exists_builtin {l : Language} (h : l ∈ Language.builtin) :
    ∃ l', find? Language.builtin l.name = some l' := by
  simp only [find?, ← Option.isSome_iff_exists, List.find?_isSome]
  exact ⟨l, h, beq_self_eq_true _⟩

end LanguageTable

/-- No type that a property or a parameter has is the name of an inherited member. -/
structure Description.Regular (d : Description) : Prop where
  properties : ∀ m ∈ d.models.getD [], ∀ p ∈ m.properties.getD [], p.type.Regular
  parameters : ∀ m ∈ d.methods.getD [], ∀ p ∈ m.parameters.getD [], p.type.Regular

namespace Api

open ApiBuilder

variable {l : Language} {d : Description}

theorem placed_of_links {b : ApiBuilder} {name : String} {m : Model} (h : Links b name m) :
    m.Placed := by
  induction h with
  | plain => exact .intro rfl (by simp)
  | array _ _ _ _ ih => exact .intro rfl (by simpa using ih)

theorem placed_of_makes {b : ApiBuilder} {names : List String} {x : Description.Method}
    {m : Method} (h : x.Makes l names (Links b) m) : m.Placed := by
  have hrefers : ∀ {o : Option String} {r : Option Model}, Option.Rel (Links b) o r →
      ∀ a ∈ r, a.Placed := by
    rintro _ _ (hl | _) a ⟨⟩
    exact placed_of_links hl
  exact ⟨hrefers h.requestType, hrefers h.responseType⟩

/-- The models of an API, and those that its methods refer to, are in modules. -/
theorem placed_of_ofData {raw : Data} {a : Api} (h : ofData l raw = .ok a) :
    (∀ m ∈ a.models, m.Placed) ∧ ∀ m ∈ a.methods, m.Placed := by
  cases hd : Description.ofData raw with
  | error f => simp [ofData, hd] at h
  | ok d =>
    have h : ofDescription l d = .ok a := by simpa [ofData, hd] using h
    obtain ⟨-, -, hmodels, hmethods⟩ := (ofDescription_ok (Description.named_of_ofData hd)).1 h
    refine ⟨fun m hm => ?_, fun m hm => ?_⟩
    · obtain ⟨x, -, hl⟩ := exists_right hmodels.flip hm
      exact placed_of_links hl
    · obtain ⟨x, -, hx⟩ := exists_right hmethods.flip hm
      exact placed_of_makes hx.1

theorem spelled_of_links {b : ApiBuilder} (hl : b.language ∈ Language.builtin)
    (hb : ∀ x ∈ b.models, ∀ p ∈ x.properties.getD [], p.type.Regular) {name : String} {m : Model}
    (h : Links b name m) : m.Spelled := by
  cases h with
  | plain hx _ hp =>
    intro q hq
    obtain ⟨p, hmem, hmakes⟩ := exists_right hp.flip hq
    exact hmakes.1.2.isOwn hl (hb _ hx p hmem)
  | array => simp [Model.Spelled]

theorem spelled_of_makes (hl : l ∈ Language.builtin) {names : List String}
    {refers : String → Model → Prop} {x : Description.Method} {m : Method}
    (hx : ∀ p ∈ x.parameters.getD [], p.type.Regular) (h : x.Makes l names refers m) :
    m.Spelled := by
  intro q hq
  obtain ⟨p, hp, hmakes⟩ := exists_right h.parameters.flip hq
  exact hmakes.1.2.isOwn hl (hx p hp)

/-- From a regular description a language that is always there makes texts of all types. -/
theorem spelled_of_ofData {raw : Data} {a : Api} (hl : l ∈ Language.builtin)
    (hraw : Description.ofData raw = .ok d) (hd : d.Regular) (h : ofData l raw = .ok a) :
    (∀ m ∈ a.models, m.Spelled) ∧ ∀ m ∈ a.methods, m.Spelled := by
  have h : ofDescription l d = .ok a := by simpa [ofData, hraw] using h
  obtain ⟨-, -, hmodels, hmethods⟩ := (ofDescription_ok (Description.named_of_ofData hraw)).1 h
  refine ⟨fun m hm => ?_, fun m hm => ?_⟩
  · obtain ⟨x, -, hlinks⟩ := exists_right hmodels.flip hm
    exact spelled_of_links hl hd.properties hlinks
  · obtain ⟨x, hx, hmakes⟩ := exists_right hmethods.flip hm
    exact spelled_of_makes hl (hd.parameters x hx) hmakes.1

end Api

/-! ### The templates -/

/-- The tokens of a text that is given by its characters. -/
def Token.ofChars (cs : List Char) : Except (Located ScanFault) (List Token) :=
  (Piece.cut .text {} cs).map fun pieces =>
    (⟨.eof, none, (Cursor.past {} cs).location, ""⟩ :: ofPieces [] false pieces).reverse

/-- For a text that is written out, the characters are found where the two are compared. To compute
them from the text takes much longer. -/
theorem Text.toList_of_eq {s : String} {cs : List Char} (h : s = String.ofList cs) :
    s.toList = cs := by
  rw [h, String.toList_ofList]

theorem Token.ofText_eq_ofChars (text : String) : ofText text = ofChars text.toList := rfl

theorem Source.tree?_eq {source : Source} {key text : String} (h : source.read? key = some text) :
    source.tree? key = (Token.ofChars text.toList).toOption.bind fun ts =>
      (Template.ofTokens (some key) ts).toOption := by
  simp only [tree?, h, Template.ofText, Token.ofText_eq_ofChars]
  cases Token.ofChars text.toList with
  | error l => rfl
  | ok ts => cases ht : Template.ofTokens (some key) ts <;> simp [Except.toOption, ht]

namespace Shipped

open CodeTemplate.Action

def languages (name : String) : Bool := name == "java"

/-- The keys of the templates. -/
theorem normalize_names :
    TemplateName.normalize "java/model" = .ok "java/model.tmpl" ∧
    TemplateName.normalize "java/method" = .ok "java/method.tmpl" ∧
    TemplateName.normalize "java/method_signature" = .ok "java/method_signature.tmpl" := by
  decide +kernel

/-- The templates with what they need; the method's calls the one of its signature. -/
def library : Library := [
  ("java/model.tmpl", [("model", .model)]),
  ("java/method.tmpl", [("method", .method)]),
  ("java/method_signature.tmpl", [("method", .method)])]

theorem library_needs :
    library.needs "java/model" = some [("model", .model)] ∧
    library.needs "java/method" = some [("method", .method)] ∧
    library.needs "java/method_signature" = some [("method", .method)] := by
  decide +kernel

/-- A call of the template for signatures with the method that is bound here. -/
def callsSignature : Node → Bool
  | .call name args _ => name = "java/method_signature" && args = [⟨"method", .path ⟨"method", []⟩⟩]
  | _ => false

/-- The templates fit what they need, and each of them writes the code types or calls the one that
does. The characters of the texts are put in first, since the evaluation would take long to find
them. -/
theorem library_fits :
    library.fits source languages = true ∧
    ((source.tree? "java/model.tmpl").any fun t =>
      Node.anyWritesEach ⟨"model", ["properties"]⟩ "codeType" t.nodes) = true ∧
    ((source.tree? "java/method.tmpl").any fun t => t.nodes.any callsSignature) = true ∧
    ((source.tree? "java/method_signature.tmpl").any fun t =>
      Node.anyWritesEach ⟨"method", ["requiredParameters"]⟩ "codeType" t.nodes &&
        Node.anyWritesEach ⟨"method", ["optionalParameters"]⟩ "codeType" t.nodes) = true := by
  have hmodel : source.read? "java/model.tmpl" = some model := by
    simp [source, texts, Source.read?, List.lookup_cons]
  have hmethod : source.read? "java/method.tmpl" = some method := by
    simp [source, texts, Source.read?]
  have hsignature : source.read? "java/method_signature.tmpl" = some methodSignature := by
    simp [source, texts, Source.read?, List.lookup_cons]
  simp only [library, Library.fits, Source.tree?_eq hmodel, Source.tree?_eq hmethod,
    Source.tree?_eq hsignature]
  simp (disch := exact rfl) only [model, method, methodSignature, Text.toList_unlines, List.map,
    Text.toList_of_eq]
  decide +kernel

/-! ### What can be rendered -/

theorem isOwn_of_ofEntry {e : PlainEntry} (h : ∀ member, Value.ofEntry e ≠ .inherited member) :
    e.IsOwn := by
  cases e with
  | own text => exact ⟨text, rfl⟩
  | inherited member => exact absurd rfl (h member)

/-- Where the code type of each item is written, it is a text. -/
theorem isOwn_of_eachWritten {α : Type} {s : Scope} {path : Path} {item : α → Value}
    {codeType : α → PlainEntry} {xs : List α}
    (hitem : ∀ x, (item x).attribute? "codeType" = some (Value.ofEntry (codeType x)))
    (hpath : s.resolve path = .ok (.sequence (xs.map item)))
    (h : Render.EachWritten s path "codeType") : ∀ x ∈ xs, (codeType x).IsOwn := by
  obtain ⟨items, hitems, hall⟩ := h
  obtain rfl : xs.map item = items := Value.sequence.inj (Except.ok.inj (hpath.symm.trans hitems))
  intro x hx
  obtain ⟨w, hw, hne⟩ := hall _ (List.mem_map_of_mem hx)
  obtain rfl : Value.ofEntry (codeType x) = w := Option.some.inj ((hitem x).symm.trans hw)
  exact isOwn_of_ofEntry hne

/-- Where the template for models gives a text, the model is spelled. -/
theorem spelled_of_render_model {g : Generator} (hsource : g.source = source) {s : Store}
    (hs : g.Ready s) {frame : Frame} {m : Model}
    (hm : frame.lookup "model" = some (.entity (.model m))) {text : String}
    (h : (exec (g.render "java/model" frame) s).1 = .ok text) : m.Spelled := by
  obtain ⟨-, hmodel, -⟩ := library_fits
  obtain ⟨t, ht, hwrites⟩ := (Option.any_eq_true _ _).1 hmodel
  obtain ⟨active, others, out, hout⟩ :=
    Generator.mayGive_of_render normalize_names.1 (hsource ▸ ht) hs h
  have hwritten := Render.eachWritten_of_nodes (Generator.steady_setting g t active others)
    t.nodes hwrites hout
  have hproperties : Scope.resolve [frame] ⟨"model", ["properties"]⟩ =
      .ok (.sequence (m.properties.map fun p => .entity (.property p))) := by
    simp [Scope.resolve, Scope.lookup?, hm, Scope.attributes, Value.attribute?, Entity.attributes,
      List.lookup_cons]
  exact isOwn_of_eachWritten (fun _ => rfl) hproperties hwritten

/-- Where the nodes of the template for signatures give something, the method is spelled. -/
theorem spelled_of_signature {g : Generator} {t : Template}
    (ht : source.tree? "java/method_signature.tmpl" = some t) {active others : List String}
    {frame : Frame} {m : Method} (hm : frame.lookup "method" = some (.entity (.method m)))
    {l : Language} {out : Render.Output}
    (h : MayGive g.Ready (Render.nodes (g.setting t (g.call active others)) [frame] false l t.nodes)
      out) : m.Spelled := by
  obtain ⟨-, -, -, hsignature⟩ := library_fits
  rw [ht, Option.any_some, Bool.and_eq_true] at hsignature
  have hlist : ∀ {list : String} {ps : List Parameter},
      Node.anyWritesEach ⟨"method", [list]⟩ "codeType" t.nodes = true →
      (Value.entity (.method m)).attribute? list = some (Entity.ofParameters ps) →
      ∀ p ∈ ps, p.codeType.IsOwn := by
    intro list ps hwrites hattribute
    have hwritten := Render.eachWritten_of_nodes (Generator.steady_setting g t active others)
      t.nodes hwrites h
    have hresolve : Scope.resolve [frame] ⟨"method", [list]⟩ = .ok (Entity.ofParameters ps) := by
      simp [Scope.resolve, Scope.lookup?, hm, Scope.attributes, hattribute]
    exact isOwn_of_eachWritten (fun _ => rfl) hresolve hwritten
  intro p hp
  by_cases hr : p.required = true
  · refine hlist hsignature.1 rfl p ?_
    simpa [Method.requiredParameters] using ⟨hp, hr⟩
  · refine hlist hsignature.2 rfl p ?_
    simpa [Method.optionalParameters] using ⟨hp, by simpa using hr⟩

theorem spelled_of_render_signature {g : Generator} (hsource : g.source = source) {s : Store}
    (hs : g.Ready s) {frame : Frame} {m : Method}
    (hm : frame.lookup "method" = some (.entity (.method m))) {text : String}
    (h : (exec (g.render "java/method_signature" frame) s).1 = .ok text) : m.Spelled := by
  obtain ⟨-, -, -, hsignature⟩ := library_fits
  obtain ⟨t, ht, -⟩ := (Option.any_eq_true _ _).1 hsignature
  obtain ⟨active, others, out, hout⟩ :=
    Generator.mayGive_of_render normalize_names.2.2 (hsource ▸ ht) hs h
  exact spelled_of_signature ht hm hout

/-- The template for methods calls that for signatures, with its own method. -/
theorem spelled_of_render_method {g : Generator} (hsource : g.source = source) {s : Store}
    (hs : g.Ready s) {frame : Frame} {m : Method}
    (hm : frame.lookup "method" = some (.entity (.method m))) {text : String}
    (h : (exec (g.render "java/method" frame) s).1 = .ok text) : m.Spelled := by
  obtain ⟨-, -, hmethod, -⟩ := library_fits
  obtain ⟨t, ht, hcalls⟩ := (Option.any_eq_true _ _).1 hmethod
  obtain ⟨n, hn, hcall⟩ := List.any_eq_true.1 hcalls
  obtain ⟨active, others, out, hout⟩ :=
    Generator.mayGive_of_render normalize_names.2.1 (hsource ▸ ht) hs h
  obtain ⟨l, out', st, st', hst, hnode⟩ :=
    Render.mayGive_of_mem (Generator.steady_setting g t active others) hout hn
  unfold callsSignature at hcall
  split at hcall
  · simp only [Bool.and_eq_true, decide_eq_true_eq] at hcall
    obtain ⟨rfl, rfl⟩ := hcall
    obtain ⟨args, hargs, hrun, -⟩ := Generator.exec_node_call rfl hnode
    obtain ⟨key, u, v, hnormal, hu, hv, hrun⟩ := Generator.exec_call_ok g hst hrun
    obtain rfl : "java/method_signature.tmpl" = key :=
      Except.ok.inj (normalize_names.2.2.symm.trans hnormal)
    obtain ⟨out, hgive⟩ := Generator.mayGive_of_run hv hrun
    refine spelled_of_signature (hsource ▸ hu) ?_ hgive
    simp only [ne_eq, String.reduceEq, not_false_eq_true, decide_true, List.filter_cons_of_pos,
      List.filter_nil, List.forall₂_cons_left_iff, List.forall₂_nil_left_iff] at hargs
    obtain ⟨⟨key, v⟩, _, ⟨rfl, hv⟩, rfl, hreverse⟩ := hargs
    obtain rfl : args = [("method", v)] := by simpa using congrArg List.reverse hreverse
    have hresolve : Scope.resolve [frame] ⟨"method", []⟩ = .ok (.entity (.method m)) := by
      simp [Scope.resolve, Scope.lookup?, hm, Scope.attributes]
    obtain rfl : .entity (.method m) = v := Except.ok.inj (hresolve.symm.trans hv)
    rfl
  · simp at hcall

/-- Whatever the description of an API, a model of it can be rendered by the template for Java, and
a method of it by both of its templates, exactly if its code types are texts: from any language at
the start, with any copyright text and any width. They are texts in a language that is always there,
unless a type of the description is the name of an inherited member. -/
theorem render_ok {l : Language} {raw : Data} {a : Api} (ha : Api.ofData l raw = .ok a)
    {first : Language} (hfirst : first ∈ Language.builtin) (more : List Language)
    (copyright : Option String) (lineWidth : Number) :
    (∃ g, Generator.create source
        { language := first.name, languages := more, copyright, lineWidth } = .ok g ∧
      ∀ s : Store, s.cache.Consistent source →
        (∀ m ∈ a.models, ∀ frame : Frame, frame.lookup "model" = some (.entity (.model m)) →
          ((∃ text, (exec (g.render "java/model" frame) s).1 = .ok text) ↔ m.Spelled)) ∧
        ∀ m ∈ a.methods, ∀ frame : Frame, frame.lookup "method" = some (.entity (.method m)) →
          ((∃ text, (exec (g.render "java/method" frame) s).1 = .ok text) ↔ m.Spelled) ∧
            ((∃ text, (exec (g.render "java/method_signature" frame) s).1 = .ok text) ↔
              m.Spelled)) ∧
      (l ∈ Language.builtin → ∀ d, Description.ofData raw = .ok d → d.Regular →
        (∀ m ∈ a.models, m.Spelled) ∧ ∀ m ∈ a.methods, m.Spelled) := by
  refine ⟨?_, fun hl d hraw hd => Api.spelled_of_ofData hl hraw hd ha⟩
  have hfind : ∀ {name : String}, (∃ l, LanguageTable.find? Language.builtin name = some l) →
      ∃ l, (LanguageTable.extending more).find? name = some l :=
    fun h => LanguageTable.exists_find?_extending h more
  obtain ⟨language, hlanguage⟩ := hfind (LanguageTable.exists_builtin hfirst)
  let g : Generator := ⟨source, .extending more, language, copyright, lineWidth, Number.ofNat 32⟩
  have hjava : ∀ name, languages name = true → ∃ l, g.languages.find? name = some l := by
    intro name hname
    obtain rfl : name = "java" := eq_of_beq hname
    exact hfind ⟨Language.java, rfl⟩
  have hdepth : ∀ n < library.length, (Number.ofNat 32).atMost n = false := by decide +kernel
  refine ⟨g, by simp only [Generator.create, hlanguage]; rfl, fun s hs => ?_⟩
  have hrender : ∀ {name : String} {needs : Needs} {frame : Frame},
      library.needs name = some needs → frame.Meets needs →
      ∃ text, (exec (g.render name frame) s).1 = .ok text := by
    intro name needs frame hn hm
    obtain ⟨text, t, hx, -⟩ :=
      (Generator.succeeds_render hjava library_fits.1 hdepth hn hm).exists_ok hs
    exact ⟨text, by rw [hx]⟩
  obtain ⟨hmodels, hmethods⟩ := Api.placed_of_ofData ha
  refine ⟨fun m hm frame hf => ⟨?_, fun hspelled => ?_⟩,
    fun m hm frame hf => ⟨⟨?_, fun hspelled => ?_⟩, ?_, fun hspelled => ?_⟩⟩
  · rintro ⟨text, h⟩
    exact spelled_of_render_model (g := g) rfl hs hf h
  · exact hrender library_needs.1
      (by simpa [Frame.Meets] using ⟨_, hf, m, hmodels m hm, hspelled, rfl⟩)
  · rintro ⟨text, h⟩
    exact spelled_of_render_method (g := g) rfl hs hf h
  · exact hrender library_needs.2.1
      (by simpa [Frame.Meets] using ⟨_, hf, m, hmethods m hm, hspelled, rfl⟩)
  · rintro ⟨text, h⟩
    exact spelled_of_render_signature (g := g) rfl hs hf h
  · exact hrender library_needs.2.2
      (by simpa [Frame.Meets] using ⟨_, hf, m, hmethods m hm, hspelled, rfl⟩)

/-- A method without parameters that gives a list of books. -/
theorem render_ok_books :
    let raw : Data := .object [
      ("name", .string "library"),
      ("models", .array [
        .object [("className", .string "Books"), ("arrayOf", .string "Book")],
        .object [("className", .string "Book"), ("properties", .array [
          .object [("wireName", .string "sequel"), ("$ref", .string "Book")]])]]),
      ("methods", .array [
        .object [("codeName", .string "list"), ("path", .string "books"),
          ("responseType", .string "Books")]])]
    ∃ a, Api.ofData .java raw = .ok a ∧ a.models ≠ [] ∧ a.methods ≠ [] ∧
      Language.python ∈ Language.builtin ∧
      ∃ g, Generator.create source { language := "python" } = .ok g ∧
        Cache.Consistent source ({} : Store).cache ∧
        (∀ m ∈ a.models, ∃ text,
          (exec (g.render "java/model" [("model", .entity (.model m))]) {}).1 = .ok text) ∧
        ∀ m ∈ a.methods, ∃ text,
          (exec (g.render "java/method" [("method", .entity (.method m))]) {}).1 = .ok text := by
  intro raw
  let sequel : Description.Property :=
    ⟨"sequel", none, none, ⟨none, none, none, some "Book", none, none⟩⟩
  have hok : (Api.ofData .java raw).toOption.any
      (fun a => !a.models.isEmpty && !a.methods.isEmpty) = true := by decide +kernel
  obtain ⟨a, ha, hne⟩ := (Option.any_eq_true _ _).1 hok
  have ha := ok_of_toOption ha
  have hmem : ∀ l ∈ [Language.java, Language.python], l ∈ Language.builtin := by
    simp [Language.builtin]
  obtain ⟨⟨g, hg, hr⟩, hspelled⟩ := render_ok ha (hmem .python (by simp)) [] none (Number.ofNat 80)
  have hd : Description.ofData raw = .ok ⟨"library", none, none, none, none,
      some [⟨"Books", none, some "Book", none⟩, ⟨"Book", none, none, some [sequel]⟩],
      some [⟨"list", "books", none, none, none, some "Books", none, none⟩]⟩ := by rfl
  obtain ⟨hmodel, hmethod⟩ := hspelled (hmem .java (by simp)) _ hd
    ⟨by simp [sequel, Description.Schema.Regular], by simp⟩
  have hs : Cache.Consistent source ({} : Store).cache := Cache.consistent_nil source
  obtain ⟨hmodels, hmethods⟩ := hr {} hs
  simp only [Bool.and_eq_true, Bool.not_eq_true', List.isEmpty_eq_false_iff] at hne
  exact ⟨a, ha, hne.1, hne.2, hmem .python (by simp), g, hg, hs,
    fun m hm => (hmodels m hm _ rfl).2 (hmodel m hm),
    fun m hm => (hmethods m hm _ rfl).1.2 (hmethod m hm)⟩

/-- A description is accepted whose model cannot be rendered: the type of its property is the name
of an inherited member, and so the code type is no text. -/
theorem render_constructor_fails :
    let raw : Data := .object [
      ("name", .string "library"),
      ("models", .array [
        .object [("className", .string "Book"), ("properties", .array [
          .object [("wireName", .string "title"), ("type", .string "constructor")]])]])]
    ∃ a, Api.ofData .java raw = .ok a ∧
      ∃ m ∈ a.models, ∀ (g : Generator) (s : Store) (frame : Frame), g.source = source →
        s.cache.Consistent source → frame.lookup "model" = some (.entity (.model m)) →
        ∀ text, (exec (g.render "java/model" frame) s).1 ≠ .ok text := by
  intro raw
  have hok : (Api.ofData .java raw).toOption.any (fun a => a.models.any fun m =>
      m.properties.any fun p => p.codeType = .inherited (.function "Object" 1)) = true := by
    decide +kernel
  obtain ⟨a, ha, hany⟩ := (Option.any_eq_true _ _).1 hok
  obtain ⟨m, hm, hany⟩ := List.any_eq_true.1 hany
  obtain ⟨p, hp, hinherited⟩ := List.any_eq_true.1 hany
  refine ⟨a, ok_of_toOption ha, m, hm, fun g s frame hsource hs hf text h => ?_⟩
  have hready : g.Ready s := by
    rw [Generator.Ready, hsource]
    exact hs
  obtain ⟨t, ht⟩ := spelled_of_render_model hsource hready hf h p hp
  simp [ht] at hinherited

end Shipped
end CodeTemplate

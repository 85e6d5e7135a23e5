import CodeTemplate.Proofs.Markup.Machine
import CodeTemplate.Proofs.Markup.Tags

/-! The machine that reads templates accepts exactly the grammar. A derivation moves the machine
over its tokens, whatever blocks are open; and a run that succeeds leaves tokens that close the
blocks which were open at its start. -/

namespace CodeTemplate
namespace Parser

open Grammar

variable {t start word : Token} {ts us rest : List Token} {s s' : State} {n : Node}
  {ns before all : List Node} {stack : List OpenBlock} {b : OpenBlock}

/-! ### From derivations to runs -/

theorem State.run_step (h : s.step t ts = .ok (s', rest)) : s.run (t :: ts) = s'.run rest := by
  have hk : t.kind ≠ .eof := by
    intro he
    simp [State.step, he, fail] at h
  rw [State.run_cons hk, h]
  rfl

theorem ends_subset (header : Header) : header.ends ⊆ endTags := by
  cases header <;> simp [Header.ends, Header.endTag, endTags]

theorem State.endTag?_eq_none {name : String} (h : name ∉ endTags) : s.endTag? name = none := by
  refine Option.not_isSome_iff_eq_none.1 fun he => h ?_
  have hends : name ∈ endsOf s.stack := isSome_endTag?.1 he
  cases hs : s.stack with
  | nil => simp [hs, endsOf] at hends
  | cons b bs => exact ends_subset b.header (by simpa [hs, endsOf] using hends)

theorem text_not_mem_endTags (name : TagName) : name.text ∉ endTags := by
  cases name <;> simp [TagName.text, endTags]

theorem ofText?_text (name : TagName) : TagName.ofText? name.text = some name := by
  cases name <;> rfl

theorem text_of_ofText? {name : String} {tag : TagName} (h : TagName.ofText? name = some tag) :
    tag.text = name := by
  have hf := List.find?_some h
  exact eq_of_beq hf

theorem State.step_tag {name : TagName} {g : Tag} (hs : start.kind = .blockOpen)
    (hw : IsIdent word name.text)
    (h : Parser.tag (blocksOf s.stack) start name ts = .ok (g, rest)) :
    s.step start (word :: ts) = .ok (s.after start.location g, rest) := by
  have hname := text_not_mem_endTags name
  simp only [State.step, hs, State.tag, hw.1, ↓reduceIte, bind_ok, valueOf_ok]
  refine ⟨name.text, hw.2, ?_⟩
  simp only [State.endTag?_eq_none hname, List.contains_eq_mem, hname, decide_false,
    Bool.false_eq_true, ↓reduceIte, ofText?_text, h, Except.map]

theorem State.run_tag (name : TagName) {args : List Token} {g : Tag}
    (ht : IsTag name.text start args ts)
    (h : ∀ stop, stop.kind = .blockClose →
      Parser.tag (blocksOf s.stack) start name (args ++ stop :: rest) = .ok (g, rest)) :
    s.run (ts ++ rest) = (s.after start.location g).run rest := by
  cases ht with
  | mk _ hs hw hc =>
    refine State.run_step (State.step_tag hs hw ?_)
    simpa using h _ hc

theorem State.run_leaf (h : IsLeaf ts n) : s.run (ts ++ rest) = (s.add n).run rest := by
  cases h with
  | text hk hv =>
    exact State.run_step (by simp [State.step, hk, map_ok, valueOf_ok, hv])
  | «variable» hk hp hf hc =>
    refine State.run_step ?_
    simp only [State.step, hk, map_ok, Prod.exists, variableNode_ok]
    exact ⟨_, _, ⟨_, _, _, _, _, by simp, hp, hf, hc, rfl⟩, rfl⟩
  | language ht hi =>
    exact State.run_tag .language ht fun stop hc => languageTag_ok.2 ⟨_, stop, _, rfl, hi, hc, rfl⟩
  | copyright ht =>
    exact State.run_tag .copyrightBlock ht fun stop hc => wholeTag_ok.2 ⟨stop, rfl, hc, rfl⟩
  | docComment ht hp =>
    exact State.run_tag .docCommentIf ht fun stop hc =>
      (pathWholeTag_ok (.docComment · _ _)).2 ⟨_, stop, _, rfl, hp, hc, rfl⟩
  | literal ht hp =>
    exact State.run_tag .literal ht fun stop hc =>
      (pathWholeTag_ok (.literal · _)).2 ⟨_, stop, _, rfl, hp, hc, rfl⟩
  | templateTag ht hi hm =>
    exact State.run_tag .templateTag ht fun stop hc =>
      templateTag_ok.2 ⟨_, stop, _, _, rfl, hi, find?_templateTags.2 (.inl ⟨_, hm, rfl⟩), hc, rfl⟩
  | inheritedTag ht hi hm =>
    exact State.run_tag .templateTag ht fun stop hc =>
      templateTag_ok.2 ⟨_, stop, _, _, rfl, hi, find?_templateTags.2 (.inr ⟨_, hm, rfl⟩), hc, rfl⟩
  | call ht hn hf ha hd =>
    exact State.run_tag .callTemplate ht fun stop hc =>
      callTag_ok.2 ⟨_, _, stop, _, _, by simp, hn, hf, ha, hd, hc, rfl⟩

theorem State.run_conditional {ps : List Token} {p : Path} (ht : IsTag "if" start ps ts)
    (hp : IsPath ps p) :
    s.run (ts ++ rest) = (s.open (.conditional p) start.location).run rest :=
  State.run_tag .conditional ht fun stop hc => pathFirstTag_ok.2 ⟨_, stop, _, rfl, hp, hc, rfl⟩

/-- The first tag of a block opens it, if a parameter that it may start has its place. -/
theorem State.run_opening {endTag : String} {node : List Node → Node}
    (h : Opening ts endTag node)
    (hn : Placed (inList (blocksOf s.stack)) (node ns)) :
    ∃ header l, endTag = header.endTag ∧ node = (header.node l ·) ∧
      ∀ rest, s.run (ts ++ rest) = (s.open header l).run rest := by
  cases h with
  | conditional ht hp =>
    exact ⟨.conditional _, _, rfl, rfl, fun _ => State.run_conditional ht hp⟩
  | loop ht hi hw hp =>
    exact ⟨.loop _ _, _, rfl, rfl, fun _ => State.run_tag .loop ht fun stop hc =>
      loopTag_ok.2 ⟨_, _, _, stop, _, _, rfl, hi, hw, hp, hc, rfl⟩⟩
  | filtered ht hf hs =>
    exact ⟨.filtered _, _, rfl, rfl, fun _ => State.run_tag .filter ht fun stop hc =>
      filterTag_ok.2 ⟨_, _, stop, _, _, rfl, hf, hs, hc, rfl⟩⟩
  | imports ht hp =>
    exact ⟨.imports _, _, rfl, rfl, fun _ => State.run_tag .imports ht fun stop hc =>
      pathFirstTag_ok.2 ⟨_, stop, _, rfl, hp, hc, rfl⟩⟩
  | parameterList ht =>
    exact ⟨.parameterList, _, rfl, rfl, fun _ => State.run_tag .parameterList ht fun stop hc =>
      firstTag_ok.2 ⟨stop, rfl, hc, rfl⟩⟩
  | parameter ht =>
    exact ⟨.parameter false, _, rfl, rfl, fun _ => State.run_tag .parameter ht fun stop hc =>
      parameterTag_ok.2 ⟨hn.1, .inl ⟨stop, rfl, hc, rfl⟩⟩⟩
  | groupedParameter ht hg =>
    exact ⟨.parameter true, _, rfl, rfl, fun _ => State.run_tag .parameter ht fun stop hc =>
      parameterTag_ok.2 ⟨hn.1, .inr ⟨_, stop, rfl, hg, hc, rfl⟩⟩⟩

/-- An end tag that belongs to the innermost block moves the machine out of it. -/
theorem State.run_endTag {name : String} {stop : Token} (ht : IsTag name stop [] ts)
    (h : s.endTag? name = some s') : s.run (ts ++ rest) = s'.run rest := by
  cases ht with
  | @mk word c _ hs hw hc =>
    change s.run (stop :: word :: c :: rest) = s'.run rest
    refine State.run_step ?_
    simp only [State.step, hs, State.tag, hw.1, ↓reduceIte, bind_ok, valueOf_ok]
    refine ⟨name, hw.2, ?_⟩
    simp only [h, map_ok, Prod.exists, close_ok]
    exact ⟨(), rest, ⟨c, rfl, hc⟩, rfl⟩

theorem State.endTag?_close {bs : List OpenBlock} :
    State.endTag? ⟨b :: bs, ns⟩ b.header.endTag =
      some ⟨bs, b.header.node b.start ns.reverse :: b.outside⟩ := by
  simp [State.endTag?]

theorem State.endTag?_else {l : Location} {outside : List Node} {p : Path} :
    State.endTag? ⟨⟨.conditional p, l, outside⟩ :: stack, ns⟩ "else" =
      some ⟨⟨.alternative p ns.reverse, l, outside⟩ :: stack, []⟩ := by
  simp [State.endTag?, Header.endTag]

theorem allPlaced_body {header : Header} {l : Location} {body : List Node}
    (h : Placed (inList (blocksOf stack)) (header.node l body)) :
    AllPlaced (inList (⟨header.tag, l⟩ :: blocksOf stack)) body := by
  cases header with
  | parameter grouped => exact h.2
  | alternative p thenBranch => exact h.2
  | _ => exact h

/-- A derivation moves the machine over its tokens and adds its nodes. -/
theorem State.run_derives (h : Derives ts ns) (hp : AllPlaced (inList (blocksOf s.stack)) ns) :
    s.run (ts ++ rest) = State.run ⟨s.stack, ns.reverse ++ s.nodes⟩ rest := by
  induction h generalizing s rest with
  | nil => rfl
  | @leaf ts us n ns hl _ ih =>
    rw [List.append_assoc, State.run_leaf hl, ih (s := s.add n) hp.2]
    simp [State.add]
  | @block ts inner close us endTag node stop body ns ho _ hc _ ihb ih =>
    obtain ⟨header, l, rfl, rfl, hrun⟩ := State.run_opening (s := s) ho hp.1
    simp only [List.append_assoc]
    rw [hrun, ihb (s := s.open header l) (allPlaced_body hp.1)]
    simp only [State.open, List.append_nil]
    rw [State.run_endTag hc State.endTag?_close, ih (by exact hp.2)]
    simp
  | @branches ps ts yes middle no close us start split stop p thenBranch elseBranch ns hi hpath _
      he _ hs _ iht ihe ih =>
    simp only [List.append_assoc]
    rw [State.run_conditional hi hpath, iht (s := s.open (.conditional p) start.location) hp.1.1]
    simp only [State.open, List.append_nil]
    rw [State.run_endTag he State.endTag?_else, ihe (by exact hp.1.2)]
    simp only [List.append_nil, List.reverse_reverse]
    rw [State.run_endTag hs State.endTag?_close, ih (by exact hp.2)]
    simp [Header.node]

/-! ### From runs to derivations -/

/-- What the rest of an open block makes up: its nodes and its end, or for a condition its two
branches and its end. `before` are the nodes that it has already, the last first. -/
inductive Finishes (b : OpenBlock) (place : Bool) (before : List Node) : List Token → Node → Prop
  | close {inner close : List Token} {stop : Token} {body : List Node} :
      Derives inner body → AllPlaced place body → IsTag b.header.endTag stop [] close →
      Finishes b place before (inner ++ close) (b.header.node b.start (before.reverse ++ body))
  | branches {yes middle no close : List Token} {split stop : Token} {p : Path}
      {thenBranch elseBranch : List Node} :
      b.header = .conditional p → Derives yes thenBranch → AllPlaced place thenBranch →
      IsTag "else" split [] middle → Derives no elseBranch → AllPlaced place elseBranch →
      IsTag "endif" stop [] close →
      Finishes b place before (yes ++ (middle ++ (no ++ close)))
        (.conditional p (before.reverse ++ thenBranch) (some elseBranch) b.start)

/-- The tokens finish the open blocks one by one, with nodes in between, and `all` are the nodes of
the template then. -/
def Completes : List OpenBlock → List Node → List Token → List Node → Prop
  | [], before, ts, all =>
    ∃ ns, Derives ts ns ∧ AllPlaced false ns ∧ all = before.reverse ++ ns
  | b :: bs, before, ts, all =>
    ∃ used rest n, ts = used ++ rest ∧ Finishes b (inList (blocksOf (b :: bs))) before used n ∧
      Completes bs (n :: b.outside) rest all

/-- One more node at the start. -/
theorem Completes.cons (hd : ∀ us ns, Derives us ns → Derives (ts ++ us) (n :: ns))
    (hp : Placed (inList (blocksOf stack)) n) (h : Completes stack (n :: before) us all) :
    Completes stack before (ts ++ us) all := by
  cases stack with
  | nil =>
    obtain ⟨ns, h, hns, rfl⟩ := h
    exact ⟨n :: ns, hd us ns h, ⟨hp, hns⟩, by simp⟩
  | cons b bs =>
    obtain ⟨used, rest, m, rfl, hf, hc⟩ := h
    refine ⟨ts ++ used, rest, m, by simp, ?_, hc⟩
    cases hf with
    | close hi hpi ht =>
      rw [← List.append_assoc]
      have hf : Finishes b (inList (blocksOf (b :: bs))) before _ _ :=
        .close (hd _ _ hi) ⟨hp, hpi⟩ ht
      simpa using hf
    | branches hb hy hpy he hn hpn ht =>
      rw [← List.append_assoc]
      have hf : Finishes b (inList (blocksOf (b :: bs))) before _ _ :=
        .branches hb (hd _ _ hy) ⟨hp, hpy⟩ he hn hpn ht
      simpa using hf

/-- A block opened and finished is one node. -/
theorem Completes.opened {header : Header} (ho : Opened (blocksOf stack) start ts header)
    (h : Completes (⟨header, start.location, before⟩ :: stack) [] us all) :
    Completes stack before (ts ++ us) all := by
  obtain ⟨used, rest, m, rfl, hf, hc⟩ := h
  rw [← List.append_assoc]
  cases hf with
  | close hi hpi ht =>
    refine Completes.cons (fun us ns h => ?_) (ho.placed _ hpi) hc
    simpa using Derives.block ho.opening hi ht h
  | branches hb hy hpy he hn hpn ht =>
    simp only at hb
    subst hb
    obtain ⟨ps, hi, hpath⟩ := ho.condition _ rfl
    refine Completes.cons (fun us ns h => ?_) (by exact And.intro hpy hpn) hc
    simpa using Derives.branches hi hpath hy he hn ht h

/-- What finishes the second branch of a condition finishes the condition after its `else`. -/
theorem Finishes.branch {p : Path} {l : Location} {outside thenBranch : List Node} {place : Bool}
    {split : Token} (ht : IsTag "else" split [] ts)
    (h : Finishes ⟨.alternative p thenBranch.reverse, l, outside⟩ place [] us n) :
    Finishes ⟨.conditional p, l, outside⟩ place thenBranch (ts ++ us) n := by
  cases h with
  | close hi hpi hc =>
    have hf : Finishes ⟨.conditional p, l, outside⟩ place thenBranch _ _ :=
      .branches rfl .nil trivial ht hi hpi hc
    simpa [Header.node] using hf
  | branches hb => simp at hb

theorem Completes.endTag {name : String} {stop : Token} (ht : IsTag name stop [] ts)
    (he : s.endTag? name = some s') (h : Completes s'.stack s'.nodes us all) :
    Completes s.stack s.nodes (ts ++ us) all := by
  obtain ⟨_ | ⟨⟨header, l, outside⟩, bs⟩, nodes⟩ := s
  · simp [State.endTag?] at he
  · simp only [State.endTag?] at he
    split at he
    · next hname =>
      subst hname
      obtain rfl := Option.some.inj he
      have hf : Finishes ⟨header, l, outside⟩ (inList (blocksOf (⟨header, l, outside⟩ :: bs)))
          nodes _ _ := .close .nil trivial ht
      exact ⟨ts, us, _, rfl, by simpa using hf, h⟩
    · split at he
      · next p =>
        split at he
        · next hname =>
          subst hname
          obtain rfl := Option.some.inj he
          obtain ⟨used, rest, m, rfl, hf, hc⟩ := h
          exact ⟨ts ++ used, rest, m, by simp, hf.branch ht, hc⟩
        · simp at he
      · simp at he

/-- The tokens lead from the first state to the second: what completes the open blocks after them
completes those before, with these tokens in front. -/
def Leads (s : State) (ts : List Token) (s' : State) : Prop :=
  Within ts ∧ ∀ us all, Completes s'.stack s'.nodes us all →
    Completes s.stack s.nodes (ts ++ us) all

theorem leads_leaf (h : IsLeaf ts n) : Leads s ts (s.add n) :=
  ⟨h.within, fun _ _ hc => Completes.cons (fun _ _ hd => .leaf h hd) (h.placed _) hc⟩

theorem leads_tag {g : Tag} (h : g.Fits (blocksOf s.stack) start ts) :
    Leads s ts (s.after start.location g) := by
  cases g with
  | node n => exact leads_leaf h
  | block header => exact ⟨h.opening.within, fun _ _ hc => Completes.opened h hc⟩

theorem leads_endTag {name : String} {stop : Token} (ht : IsTag name stop [] ts)
    (he : s.endTag? name = some s') : Leads s ts s' :=
  ⟨ht.within inner_nil, fun _ _ hc => Completes.endTag ht he hc⟩

theorem State.tag_sound (hs : start.kind = .blockOpen) (h : s.tag start ts = .ok (s', rest)) :
    ∃ used, start :: ts = used ++ rest ∧ Leads s used s' := by
  cases ts with
  | nil => simp [State.tag, fail] at h
  | cons word ts =>
    simp only [State.tag] at h
    split at h
    · next hk =>
      obtain ⟨name, hv, h⟩ := bind_ok.1 h
      rw [valueOf_ok] at hv
      split at h
      · next r he =>
        simp only [map_ok, Prod.exists, close_ok, Prod.mk.injEq] at h
        obtain ⟨_, _, ⟨stop, rfl, hc⟩, rfl, rfl⟩ := h
        exact ⟨[start, word, stop], rfl, leads_endTag (.mk [] hs ⟨hk, hv⟩ hc) he⟩
      · split at h
        · simp [fail] at h
        · split at h
          · simp [fail] at h
          · next tagName hname =>
            obtain ⟨⟨g, r⟩, hg, h⟩ := map_ok.1 h
            obtain rfl := text_of_ofText? hname
            obtain ⟨used, rfl, hfits⟩ := Parser.tag_sound hs ⟨hk, hv⟩ hg
            have hl := leads_tag hfits
            cases g <;> obtain ⟨rfl, rfl⟩ := Prod.mk.inj h <;> exact ⟨_, rfl, hl⟩
    · simp [fail] at h

theorem State.step_sound (h : s.step t ts = .ok (s', rest)) :
    ∃ used, t :: ts = used ++ rest ∧ Leads s used s' := by
  unfold State.step at h
  split at h
  · next hk =>
    obtain ⟨v, hv, h⟩ := map_ok.1 h
    obtain ⟨rfl, rfl⟩ := Prod.mk.inj h
    exact ⟨[t], rfl, leads_leaf (.text hk (valueOf_ok.1 hv))⟩
  · next hk =>
    obtain ⟨⟨n, r⟩, hv, h⟩ := map_ok.1 h
    obtain ⟨rfl, rfl⟩ := Prod.mk.inj h
    obtain ⟨ps, fs, stop, p, filters, rfl, hp, hf, hc, rfl⟩ := variableNode_ok.1 hv
    exact ⟨t :: (ps ++ (fs ++ [stop])), by simp, leads_leaf (.variable hk hp hf hc)⟩
  · next hk => exact State.tag_sound hk h
  · simp [fail] at h

theorem content_append (h : Within ts) : content (ts ++ us) = ts ++ content us :=
  List.takeWhile_append_of_pos (by simpa [Within] using h)

theorem State.finish_sound (h : s.finish = .ok all) : Completes s.stack s.nodes [] all := by
  obtain ⟨_ | ⟨b, bs⟩, nodes⟩ := s
  · simp only [State.finish, Except.ok.injEq] at h
    exact ⟨[], .nil, trivial, by simp [h]⟩
  · simp [State.finish] at h

/-- A run that succeeds completes the blocks that were open at its start. -/
theorem State.run_sound (h : s.run ts = .ok all) :
    Completes s.stack s.nodes (content ts) all := by
  fun_induction State.run s ts with
  | case1 s => exact State.finish_sound h
  | case2 s t ts hk => simpa [content, hk] using State.finish_sound h
  | case3 => simp at h
  | case4 s t ts hk s' rest hs _ ih =>
    obtain ⟨used, heq, hw, hl⟩ := State.step_sound hs
    rw [heq, content_append hw]
    exact hl _ _ (ih h)

theorem State.run_rest (h : rest = [] ∨ ∃ t us, rest = t :: us ∧ t.kind = .eof) :
    s.run rest = s.finish := by
  rcases h with rfl | ⟨t, us, rfl, hk⟩
  · simp [State.run]
  · simp [State.run, hk]

theorem exists_content (ts : List Token) :
    ∃ rest, ts = content ts ++ rest ∧ (rest = [] ∨ ∃ t us, rest = t :: us ∧ t.kind = .eof) := by
  refine ⟨ts.dropWhile (·.kind != .eof), (List.takeWhile_append_dropWhile).symm, ?_⟩
  cases h : ts.dropWhile (·.kind != .eof) with
  | nil => exact .inl rfl
  | cons t us =>
    have ht := List.head?_dropWhile_not (·.kind != .eof) ts
    exact .inr ⟨t, us, rfl, by simpa [h] using ht⟩

theorem ofTokens_ok :
    ofTokens ts = .ok ns ↔ Derives (content ts) ns ∧ AllPlaced false ns := by
  rw [ofTokens_eq_run]
  constructor
  · intro h
    obtain ⟨ns, hd, hp, rfl⟩ := State.run_sound h
    exact ⟨hd, hp⟩
  · rintro ⟨hd, hp⟩
    obtain ⟨rest, heq, hrest⟩ := exists_content ts
    rw [heq, State.run_derives (s := {}) hd hp, State.run_rest hrest]
    simp [State.finish]

end Parser

/-- Tokens make up a template exactly if those before the end of the text derive its nodes and each
parameter has its place. -/
theorem Template.ofTokens_eq_ok_iff {name : Option String} {ts : List Token} {t : Template} :
    Template.ofTokens name ts = .ok t ↔
      t.name = name ∧ Grammar.Derives (Grammar.content ts) t.nodes ∧
        Grammar.AllPlaced false t.nodes := by
  obtain ⟨n, ns⟩ := t
  simp only [Template.ofTokens, map_ok, Parser.ofTokens_ok, Template.mk.injEq]
  constructor
  · rintro ⟨_, h, rfl, rfl⟩
    exact ⟨rfl, h⟩
  · rintro ⟨rfl, h⟩
    exact ⟨ns, h, rfl, rfl⟩

/-- A tag is accepted whose name stands for no text: the table of the texts inherits the name. -/
theorem Template.ofTokens_constructor :
    let ts : List Token := [⟨.blockOpen, some "\x7b%", ⟨1, 1⟩, ""⟩,
      ⟨.ident, some "templatetag", ⟨1, 4⟩, ""⟩, ⟨.ident, some "constructor", ⟨1, 16⟩, ""⟩,
      ⟨.blockClose, some "%\x7d", ⟨1, 28⟩, ""⟩, ⟨.eof, none, ⟨1, 30⟩, ""⟩]
    Template.ofTokens none ts = .ok ⟨none, [.inherited (.function "Object" 1)]⟩ ∧
      ∀ text, ("constructor", text) ∉ templateTags := by
  intro ts
  have hderives : Grammar.Derives (Grammar.content ts) [.inherited (.function "Object" 1)] :=
    .leaf (.inheritedTag (.mk _ rfl ⟨rfl, rfl⟩ rfl) ⟨rfl, rfl⟩ (by decide)) .nil
  have hread : Parser.ofTokens ts = .ok [.inherited (.function "Object" 1)] :=
    Parser.ofTokens_ok.2 ⟨hderives, trivial, trivial⟩
  refine ⟨map_ok.2 ⟨_, hread, rfl⟩, fun text h => ?_⟩
  simp [templateTags] at h

end CodeTemplate

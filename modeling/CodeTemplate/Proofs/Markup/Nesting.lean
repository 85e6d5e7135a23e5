import CodeTemplate.Proofs.Markup.Locality
import CodeTemplate.Render.Error

/-! How tags are nested. A check that goes once along the names of the tags, with the open blocks on
a stack, tells whether tags that are well formed by themselves make up a template; where it stops,
reading stops, and with the fault that it says. -/

namespace CodeTemplate
namespace Nesting

open Grammar
open CodeTemplate.Parser (endTags OpenBlock Header State blocksOf inList parameterFault? valueOf_ok)

/-- A block tag: its name, where its opening delimiter stands, and where its name. -/
structure BlockTag where
  name : String
  start : Location
  place : Location
  deriving DecidableEq, Repr

def BlockTag.ofTokens (start word : Token) : BlockTag :=
  ⟨word.value.getD "", start.location, word.location⟩

/-- The block tags among the tokens. -/
def blockTags : List Token → List BlockTag
  | start :: word :: ts =>
    if start.kind = .blockOpen then .ofTokens start word :: blockTags ts
    else blockTags (word :: ts)
  | _ => []

/-- An open block, by its first tag. A condition is in its second part after `else`. -/
structure Level where
  tag : String
  start : Location
  second : Bool
  deriving DecidableEq, Repr

/-- Of the open parameters and parameter lists the innermost. -/
def owner? (levels : List Level) : Option Level :=
  levels.find? fun b => b.tag == "parameter" || b.tag == "parameter_list"

/-- The open blocks after a tag, the innermost first, or none if the tag has no place in them. -/
def step (levels : List Level) (t : BlockTag) : Option (List Level) :=
  if t.name = "else" then
    match levels with
    | [] => none
    | b :: bs =>
      if b.tag = "if" ∧ b.second = false then some ({ b with second := true } :: bs) else none
  else if t.name ∈ endTags then
    match levels with
    | [] => none
    | b :: bs => if blocks.lookup b.tag = some t.name then some bs else none
  else if t.name = "parameter" ∧ (owner? levels).map (·.tag) ≠ some "parameter_list" then none
  else if (blocks.lookup t.name).isSome then some (⟨t.name, t.start, false⟩ :: levels)
  else some levels

/-- The open blocks after all the tags. -/
def openAfter (tags : List BlockTag) : Option (List Level) := tags.foldlM step []

/-- Why a tag has no place in the open blocks, and where it is at fault. -/
def refusal (levels : List Level) (t : BlockTag) : Located ParseFault :=
  if t.name ∈ endTags then ⟨.strayEnd t.name (levels.head?.map fun b => (b.tag, b.start)), t.place⟩
  else
    match owner? levels with
    | none => ⟨.parameterOutsideList, t.start⟩
    | some b => ⟨.parameterInParameter b.start, t.start⟩

/-- What is said of an end tag that has no place: its name, and the innermost open block. -/
def strayText (tag : String) : List Level → String
  | [] => "Unexpected '" ++ tag ++ "' outside of any block"
  | b :: _ => "Unexpected '" ++ tag ++ "' inside '" ++ b.tag ++ "' block opened at " ++
      s!"line {b.start.line}, column {b.start.column}"

/-- Texts, variables and tags, each of them well formed by itself. -/
inductive WellFormed : List Token → Prop
  | nil : WellFormed []
  | leaf {ts us : List Token} {n : Node} : IsLeaf ts n → WellFormed us → WellFormed (ts ++ us)
  | opening {ts us : List Token} {endTag : String} {node : List Node → Node} :
      Opening ts endTag node → WellFormed us → WellFormed (ts ++ us)
  | ending {ts us : List Token} {name : String} {stop : Token} :
      name ∈ endTags → IsTag name stop [] ts → WellFormed us → WellFormed (ts ++ us)

variable {t start word : Token} {ts us rest : List Token} {s : State} {name : String}

/-! ### The tags of tokens -/

theorem blockTags_cons (h : t.kind ≠ .blockOpen) (us : List Token) :
    blockTags (t :: us) = blockTags us := by
  cases us with
  | nil => rfl
  | cons u us => rw [blockTags, if_neg h]

theorem blockTags_inner (h : Inner ts) (us : List Token) :
    blockTags (ts ++ us) = blockTags us := by
  induction ts with
  | nil => rfl
  | cons t ts ih =>
    obtain ⟨hk, hts⟩ := inner_cons.1 h
    have hne : t.kind ≠ .blockOpen := by
      intro he
      simp [he] at hk
    rw [List.cons_append, blockTags_cons hne, ih hts]

/-- A tag is one of the block tags, and nothing in it is. -/
theorem exists_blockTag {args : List Token} (ht : IsTag name start args ts) (ha : Inner args) :
    ∃ word more, ts = start :: word :: more ∧ start.kind = .blockOpen ∧ IsIdent word name ∧
      ∀ us, blockTags (ts ++ us) = ⟨name, start.location, word.location⟩ :: blockTags us := by
  cases ht with
  | @mk word stop _ hs hw hc =>
    refine ⟨word, args ++ [stop], rfl, hs, hw, fun us => ?_⟩
    have hstop : stop.kind ≠ .blockOpen := by simp [hc]
    have htag : BlockTag.ofTokens start word = ⟨name, start.location, word.location⟩ := by
      simp [BlockTag.ofTokens, hw.2]
    rw [List.cons_append, List.cons_append, blockTags, if_pos hs, htag, List.append_assoc,
      blockTags_inner ha, List.singleton_append, blockTags_cons hstop]

/-! ### The machine as the check sees it -/

def level (b : OpenBlock) : Level :=
  { tag := b.header.tag
    start := b.start
    second := match b.header with
      | .alternative .. => true
      | _ => false }

def levels (s : State) : List Level := s.stack.map level

theorem lookup_tag (header : Header) : blocks.lookup header.tag = some header.endTag := by
  cases header <;> rfl

theorem endTag_ne_else (header : Header) : header.endTag ≠ "else" := by
  cases header <;> simp [Header.endTag]

/-- An end tag does to the open blocks what the check says. -/
theorem step_endTag {tag : BlockTag} (h : tag.name ∈ endTags) :
    step (levels s) tag = (s.endTag? tag.name).map levels := by
  obtain ⟨_ | ⟨⟨header, start, outside⟩, bs⟩, nodes⟩ := s
  · simp [step, h, levels, State.endTag?]
  · by_cases helse : tag.name = "else"
    · have hne : ¬ "else" = header.endTag := fun he => endTag_ne_else header he.symm
      simp only [step, helse, ↓reduceIte, levels, List.map_cons, State.endTag?, hne]
      cases header <;> simp [level, Header.tag, levels]
    · have hlookup := lookup_tag header
      simp only [step, helse, ↓reduceIte, h, levels, List.map_cons, State.endTag?, level, hlookup,
        Option.some.injEq, eq_comm (a := header.endTag)]
      split
      · simp [levels]
      · split <;> simp

theorem parameterFault?_eq (stack : List OpenBlock) :
    parameterFault? (blocksOf stack) =
      match owner? (stack.map level) with
      | none => some .parameterOutsideList
      | some b =>
        if b.tag = "parameter_list" then none else some (.parameterInParameter b.start) := by
  induction stack with
  | nil => rfl
  | cons b bs ih =>
    obtain ⟨header, start, outside⟩ := b
    cases header with
    | parameterList => rfl
    | parameter grouped => rfl
    | _ => exact ih

/-- A parameter may come next exactly if the innermost of the parameters and lists is a list. -/
theorem inList_iff (stack : List OpenBlock) :
    inList (blocksOf stack) = true ↔
      (owner? (stack.map level)).map (·.tag) = some "parameter_list" := by
  rw [inList, parameterFault?_eq]
  cases owner? (stack.map level) with
  | none => simp
  | some b => by_cases h : b.tag = "parameter_list" <;> simp [h]

theorem ne_else (h : name ∉ endTags) : name ≠ "else" := by
  rintro rfl
  exact h (by simp [endTags])

/-- Of the tags that end nothing only a parameter may have no place. -/
theorem parameter_of_step {ls : List Level} {l place : Location} (hend : name ∉ endTags)
    (h : step ls ⟨name, l, place⟩ = none) :
    name = "parameter" ∧ (owner? ls).map (·.tag) ≠ some "parameter_list" := by
  simp only [step, ne_else hend, hend, ↓reduceIte] at h
  split at h
  · next hp => exact hp
  · split at h <;> simp at h

theorem refusal_parameter (hend : name ∉ endTags)
    (h : (owner? (levels s)).map (·.tag) ≠ some "parameter_list") (l place : Location) :
    ∃ f, parameterFault? (blocksOf s.stack) = some f ∧
      refusal (levels s) ⟨name, l, place⟩ = ⟨f, l⟩ := by
  rw [parameterFault?_eq, refusal, if_neg hend]
  change (owner? (s.stack.map level)).map _ ≠ _ at h
  rw [levels]
  cases ho : owner? (s.stack.map level) with
  | none => exact ⟨_, rfl, rfl⟩
  | some b =>
    rw [ho] at h
    have hne : b.tag ≠ "parameter_list" := by simpa using h
    exact ⟨_, if_neg hne, rfl⟩

/-- The machine stops at a tag that has no place, whatever comes behind its name. -/
theorem run_refused (hs : start.kind = .blockOpen) (hw : IsIdent word name)
    (h : step (levels s) ⟨name, start.location, word.location⟩ = none) (more : List Token) :
    s.run (start :: word :: more) =
      .error (refusal (levels s) ⟨name, start.location, word.location⟩) := by
  have hk : start.kind ≠ .eof := by simp [hs]
  refine State.run_error hk ?_
  simp only [State.step, hs]
  rw [State.tag_eq hw]
  by_cases hend : name ∈ endTags
  · have hnone : s.endTag? name = none := by
      rw [step_endTag hend] at h
      simpa using h
    simp [hnone, hend, refusal, Parser.fail, State.innermost?, levels, level, Function.comp_def]
  · obtain ⟨hname, howner⟩ := parameter_of_step hend h
    obtain ⟨f, hf, hrefusal⟩ := refusal_parameter hend howner start.location word.location
    have hofText : Parser.TagName.ofText? name = some .parameter := by
      rw [hname]
      rfl
    rw [State.endTag?_eq_none hend, hrefusal]
    simp [hend, hofText, Parser.tag, Parser.parameterTag, hf, Parser.fail, Except.map]

/-- Whatever blocks are open, their end tags make up the rest of a template. -/
theorem State.exists_run_ok (s : State) : ∃ more ns, s.run more = .ok ns := by
  obtain ⟨stack, nodes⟩ := s
  induction stack generalizing nodes with
  | nil => exact ⟨[], nodes.reverse, by simp [State.run, State.finish]⟩
  | cons b bs ih =>
    obtain ⟨more, ns, hrun⟩ := ih (b.header.node b.start nodes.reverse :: b.outside)
    let token (kind : TokenKind) : Token := ⟨kind, some b.header.endTag, ⟨0, 0⟩, ""⟩
    have hend : IsTag b.header.endTag (token .blockOpen) []
        [token .blockOpen, token .ident, token .blockClose] := .mk [] rfl ⟨rfl, rfl⟩ rfl
    refine ⟨[token .blockOpen, token .ident, token .blockClose] ++ more, ns, ?_⟩
    rw [State.run_endTag hend State.endTag?_close, hrun]

/-! ### Tags one after the other -/

/-- The machine goes over the tokens without a fault and has the given blocks open then. -/
def Goes (s : State) (ts : List Token) (ls : List Level) : Prop :=
  ∃ s', levels s' = ls ∧ ∀ rest, s.run (ts ++ rest) = s'.run rest

theorem Goes.append {ls ls' : List Level} (h : Goes s ts ls)
    (h' : ∀ s', levels s' = ls → Goes s' us ls') : Goes s (ts ++ us) ls' := by
  obtain ⟨s', hs', hrun⟩ := h
  obtain ⟨s'', hs'', hrun'⟩ := h' s' hs'
  exact ⟨s'', hs'', fun rest => by rw [List.append_assoc, hrun, hrun']⟩

/-- A part of the tokens has no block tag, or it is one. The machine goes over it as the check goes
over its tags. -/
inductive Part (ts : List Token) : Prop
  | silent : (∀ us, blockTags (ts ++ us) = blockTags us) → (∀ s, Goes s ts (levels s)) → Part ts
  | tag {start word : Token} {more : List Token} {name : String} :
      ts = start :: word :: more → start.kind = .blockOpen → IsIdent word name →
      (∀ us, blockTags (ts ++ us) = ⟨name, start.location, word.location⟩ :: blockTags us) →
      (∀ s ls, step (levels s) ⟨name, start.location, word.location⟩ = some ls → Goes s ts ls) →
      Part ts

theorem ne_of_leafTags (h : name ∈ leafTags) :
    name ∉ endTags ∧ name ≠ "parameter" ∧ blocks.lookup name = none := by
  simp only [leafTags, List.mem_cons, List.not_mem_nil, or_false] at h
  rcases h with rfl | rfl | rfl | rfl | rfl | rfl <;> decide

/-- Texts, variables and tags without a body leave the open blocks as they are. -/
theorem part_leaf {n : Node} (h : IsLeaf ts n) : Part ts := by
  have hgoes : ∀ s, Goes s ts (levels s) := fun s => ⟨s.add n, rfl, fun _ => State.run_leaf h⟩
  rcases h.cases_tag with ⟨t, rfl, hk⟩ | ⟨start, inner, stop, rfl, hk, hi, hc⟩ |
    ⟨name, start, args, hname, ht, ha⟩
  · have hne : t.kind ≠ .blockOpen := by simp [hk]
    exact .silent (fun us => blockTags_cons hne us) hgoes
  · refine .silent (fun us => ?_) hgoes
    have hstart : start.kind ≠ .blockOpen := by simp [hk]
    have hstop : stop.kind ≠ .blockOpen := by simp [hc]
    rw [List.cons_append, List.append_assoc, blockTags_cons hstart, blockTags_inner hi,
      List.singleton_append, blockTags_cons hstop]
  · obtain ⟨word, more, heq, hs, hw, htags⟩ := exists_blockTag ht ha
    obtain ⟨hend, hparameter, hlookup⟩ := ne_of_leafTags hname
    refine .tag heq hs hw htags fun s ls h => ?_
    have hsame : levels s = ls := by
      simpa [step, ne_else hend, hend, hparameter, hlookup] using h
    exact hsame ▸ hgoes s

theorem not_mem_endTags {endTag : String} (h : (name, endTag) ∈ blocks) :
    name ∉ endTags ∧ (blocks.lookup name).isSome = true := by
  simp only [blocks, List.mem_cons, Prod.mk.injEq, List.not_mem_nil, or_false] at h
  rcases h with ⟨rfl, -⟩ | ⟨rfl, -⟩ | ⟨rfl, -⟩ | ⟨rfl, -⟩ | ⟨rfl, -⟩ | ⟨rfl, -⟩ <;> decide

theorem level_of_openedBy? {header : Header} {l l' : Location} {body : List Node}
    (h : openedBy? (header.node l body) = some (name, l')) (outside : List Node) :
    level ⟨header, l, outside⟩ = ⟨name, l', false⟩ := by
  cases header with
  | alternative => simp [Header.node, openedBy?] at h
  | _ =>
    obtain ⟨rfl, rfl⟩ := Prod.mk.inj (Option.some.inj h)
    rfl

theorem placed_opening {endTag : String} {node : List Node → Node} {place : Bool} {l : Location}
    (h : Opening ts endTag node) (hnode : openedBy? (node []) = some (name, l))
    (hp : name = "parameter" → place = true) : Placed place (node []) := by
  cases h with
  | parameter | groupedParameter =>
    obtain ⟨rfl, -⟩ := Prod.mk.inj (Option.some.inj hnode)
    exact ⟨hp rfl, trivial⟩
  | _ => trivial

/-- The first tag of a block is the innermost open block then. -/
theorem part_opening {endTag : String} {node : List Node → Node} (h : Opening ts endTag node) :
    Part ts := by
  obtain ⟨name, start, args, hblock, ht, ha, hnode⟩ := h.exists_tag
  obtain ⟨word, more, heq, hs, hw, htags⟩ := exists_blockTag ht ha
  obtain ⟨hend, hlookup⟩ := not_mem_endTags hblock
  refine .tag heq hs hw htags fun s ls hstep => ?_
  simp only [step, ne_else hend, hend, ↓reduceIte, hlookup] at hstep
  split at hstep
  · simp at hstep
  · next hplace =>
    have hin : name = "parameter" → inList (blocksOf s.stack) = true := by
      intro hparameter
      rw [inList_iff]
      by_contra howner
      exact hplace ⟨hparameter, howner⟩
    obtain ⟨header, l, -, rfl, hrun⟩ := State.run_opening h (placed_opening h (hnode []) hin)
    obtain rfl := Option.some.inj hstep
    exact ⟨s.open header l, congrArg (· :: levels s) (level_of_openedBy? (hnode []) _), hrun⟩

/-- An end tag closes the innermost open block or splits it. -/
theorem part_ending {stop : Token} (hname : name ∈ endTags) (ht : IsTag name stop [] ts) :
    Part ts := by
  obtain ⟨word, more, heq, hs, hw, htags⟩ := exists_blockTag ht inner_nil
  refine .tag heq hs hw htags fun s ls hstep => ?_
  rw [step_endTag hname] at hstep
  obtain ⟨s', hs', rfl⟩ := Option.map_eq_some_iff.1 hstep
  exact ⟨s', rfl, fun _ => State.run_endTag ht hs'⟩

/-- Tokens that are parts one after the other. -/
inductive Parted : List Token → Prop
  | nil : Parted []
  | cons {ts us : List Token} : Part ts → Parted us → Parted (ts ++ us)

theorem WellFormed.parted (h : WellFormed us) : Parted us := by
  induction h with
  | nil => exact .nil
  | leaf hl _ ih => exact .cons (part_leaf hl) ih
  | opening ho _ ih => exact .cons (part_opening ho) ih
  | ending hn ht _ ih => exact .cons (part_ending hn ht) ih

/-- The machine goes over the tokens if the check accepts their tags. -/
theorem Parted.goes (h : Parted us) {ls : List Level}
    (hls : (blockTags us).foldlM step (levels s) = some ls) : Goes s us ls := by
  induction h generalizing s with
  | nil => exact ⟨s, Option.some.inj hls, fun _ => rfl⟩
  | @cons ts us hp _ ih =>
    cases hp with
    | silent htags hgoes =>
      rw [htags] at hls
      exact (hgoes s).append fun s' hs' => ih (hs' ▸ hls)
    | tag _ _ _ htags hgoes =>
      rw [htags, List.foldlM_cons, Option.bind_eq_bind, Option.bind_eq_some_iff] at hls
      obtain ⟨ls', hstep, hls⟩ := hls
      exact (hgoes s ls' hstep).append fun s' hs' => ih (hs' ▸ hls)

/-- Each of the tags is somewhere in the tokens, with the tags before it in front. -/
theorem Parted.exists_tag (h : Parted us) {before after : List BlockTag} {tag : BlockTag}
    (heq : blockTags us = before ++ tag :: after) :
    ∃ vs start word ws name, us = vs ++ start :: word :: ws ∧ Parted vs ∧
      blockTags vs = before ∧ start.kind = .blockOpen ∧ IsIdent word name ∧
      tag = ⟨name, start.location, word.location⟩ := by
  induction h generalizing before with
  | nil => simp [blockTags] at heq
  | @cons ts us hp _ ih =>
    cases hp with
    | silent htags hgoes =>
      rw [htags] at heq
      obtain ⟨vs, start, word, ws, name, rfl, hv, hbefore, hs, hw, rfl⟩ := ih heq
      refine ⟨ts ++ vs, start, word, ws, name, by simp, .cons (.silent htags hgoes) hv, ?_, hs, hw,
        rfl⟩
      rw [htags, hbefore]
    | tag hts hs hw htags hgoes =>
      rw [htags] at heq
      rcases before with _ | ⟨first, before⟩
      · obtain ⟨rfl, -⟩ := List.cons.inj heq
        exact ⟨[], _, _, _, _, by rw [hts]; rfl, .nil, rfl, hs, hw, rfl⟩
      · obtain ⟨rfl, hrest⟩ := List.cons.inj heq
        obtain ⟨vs, start', word', ws, name', rfl, hv, hbefore, hs', hw', rfl⟩ := ih hrest
        refine ⟨ts ++ vs, start', word', ws, name', by simp,
          .cons (.tag hts hs hw htags hgoes) hv, ?_, hs', hw', rfl⟩
        rw [htags, hbefore]

/-- Where the check fails there is a first tag that has no place. -/
theorem exists_of_foldlM_eq_none {tags : List BlockTag} {ls : List Level}
    (h : tags.foldlM step ls = none) :
    ∃ before tag after ls', tags = before ++ tag :: after ∧
      before.foldlM step ls = some ls' ∧ step ls' tag = none := by
  induction tags generalizing ls with
  | nil => simp at h
  | cons t tags ih =>
    rw [List.foldlM_cons, Option.bind_eq_bind] at h
    cases hstep : step ls t with
    | none => exact ⟨[], t, tags, ls, rfl, rfl, hstep⟩
    | some ls' =>
      rw [hstep, Option.bind_some] at h
      obtain ⟨before, tag, after, ls'', rfl, hbefore, htag⟩ := ih h
      refine ⟨t :: before, tag, after, ls'', rfl, ?_, htag⟩
      rw [List.foldlM_cons, hstep]
      exact hbefore

/-! ### What is reported -/

/-- A stray end tag is reported at its name, with the innermost open block, and a parameter that is
out of place at its opening delimiter. -/
theorem refusal_spec {ls : List Level} {tag : BlockTag} (h : step ls tag = none) :
    (Cause.parse (refusal ls tag).fault).kind = "ParseError" ∧
      (tag.name ∈ endTags ∧ (refusal ls tag).location = tag.place ∧
          (refusal ls tag).fault.message = strayText tag.name ls ∨
        tag.name = "parameter" ∧ (refusal ls tag).location = tag.start) := by
  by_cases hend : tag.name ∈ endTags
  · have hrefusal : refusal ls tag =
        ⟨.strayEnd tag.name (ls.head?.map fun b => (b.tag, b.start)), tag.place⟩ := if_pos hend
    rw [hrefusal]
    refine ⟨rfl, .inl ⟨hend, rfl, ?_⟩⟩
    cases ls <;> rfl
  · rw [refusal, if_neg hend]
    cases owner? ls <;> exact ⟨rfl, .inr ⟨(parameter_of_step hend h).1, rfl⟩⟩

end Nesting

namespace Template

open Grammar Nesting

/-- Reading stops at the tokens: something may follow those before them, but whatever follows these,
they are at fault. -/
def StopsAt (name : Option String) (before ts : List Token) (l : Located ParseFault) : Prop :=
  (∃ more t, ofTokens name (before ++ more) = .ok t) ∧
    ∀ more, ofTokens name (before ++ (ts ++ more)) = .error l

theorem exists_ofTokens_of_goes {ts : List Token} {ls : List Level} (h : Goes {} ts ls)
    (name : Option String) : ∃ more t, ofTokens name (ts ++ more) = .ok t := by
  obtain ⟨s', -, hrun⟩ := h
  obtain ⟨more, ns, hns⟩ := State.exists_run_ok s'
  have hread : Parser.ofTokens (ts ++ more) = .ok ns :=
    (Parser.ofTokens_eq_run _).trans ((hrun more).trans hns)
  exact ⟨more, _, map_ok.2 ⟨ns, hread, rfl⟩⟩

theorem stopsAt_of_refused {us : List Token} {start word : Token} {ls : List Level} {tag : String}
    (h : Goes {} us ls) (hs : start.kind = .blockOpen) (hw : IsIdent word tag)
    (hstep : step ls ⟨tag, start.location, word.location⟩ = none) (name : Option String) :
    StopsAt name us [start, word] (refusal ls ⟨tag, start.location, word.location⟩) := by
  refine ⟨exists_ofTokens_of_goes h name, fun more => ?_⟩
  obtain ⟨s', rfl, hrun⟩ := h
  have hfail : Parser.ofTokens (us ++ start :: word :: more) = _ :=
    (Parser.ofTokens_eq_run _).trans ((hrun _).trans (run_refused hs hw hstep more))
  exact congrArg (Except.map (Template.mk name)) hfail

/-- At the end of the tokens the innermost open block is at fault, if there is one. -/
theorem ofTokens_of_goes {ts : List Token} {ls : List Level} (h : Goes {} (content ts) ls)
    (name : Option String) :
    (ls = [] → ∃ t, ofTokens name ts = .ok t) ∧
      ∀ b bs, ls = b :: bs → ofTokens name ts = .error ⟨.unclosed b.tag, b.start⟩ := by
  obtain ⟨⟨stack, nodes⟩, rfl, hrun⟩ := h
  obtain ⟨rest, heq, hrest⟩ := Parser.exists_content ts
  have hfinish : ofTokens name ts = (Parser.State.finish ⟨stack, nodes⟩).map (⟨name, ·⟩) := by
    rw [ofTokens, Parser.ofTokens_eq_run, heq, hrun, Parser.State.run_rest hrest]
  cases stack with
  | nil => exact ⟨fun _ => ⟨_, hfinish⟩, fun b bs h => by simp [levels] at h⟩
  | cons c cs =>
    refine ⟨fun h => by simp [levels] at h, fun b bs h => ?_⟩
    obtain ⟨rfl, -⟩ := List.cons.inj h
    exact hfinish

/-- Tags that are well formed by themselves make up a template exactly if the check accepts them all
and no block is open then. Else reading stops where the check does: at the first tag that has no
place in the blocks that are open at it, or at the end, where the innermost open block is named. -/
theorem ofTokens_of_wellFormed {ts : List Token} (h : WellFormed (content ts))
    (name : Option String) :
    ((∃ t, ofTokens name ts = .ok t) ↔ openAfter (blockTags (content ts)) = some []) ∧
    (∀ before tag after ls, blockTags (content ts) = before ++ tag :: after →
      openAfter before = some ls → step ls tag = none →
      let e := refusal ls tag
      ofTokens name ts = .error e ∧
      (Cause.parse e.fault).kind = "ParseError" ∧
      (tag.name ∈ Parser.endTags ∧ e.location = tag.place ∧
          e.fault.message = strayText tag.name ls ∨
        tag.name = "parameter" ∧ e.location = tag.start) ∧
      ∃ us start word vs, ts = us ++ start :: word :: vs ∧ blockTags us = before ∧
        tag = .ofTokens start word ∧ StopsAt name us [start, word] e) ∧
    (∀ b bs, openAfter (blockTags (content ts)) = some (b :: bs) →
      ofTokens name ts = .error ⟨.unclosed b.tag, b.start⟩ ∧
      (Cause.parse (.unclosed b.tag)).kind = "ParseError" ∧
      (ParseFault.unclosed b.tag).message = "Unclosed '" ++ b.tag ++ "' block" ∧
      ∃ more t, ofTokens name (content ts ++ more) = .ok t) := by
  have hgoes : ∀ {ls}, openAfter (blockTags (content ts)) = some ls → Goes {} (content ts) ls :=
    fun hls => h.parted.goes hls
  have hstops : ∀ {before tag after ls}, blockTags (content ts) = before ++ tag :: after →
      openAfter before = some ls → step ls tag = none →
      ∃ us start word vs, ts = us ++ start :: word :: vs ∧ blockTags us = before ∧
        tag = .ofTokens start word ∧ StopsAt name us [start, word] (refusal ls tag) := by
    intro before tag after ls htags hls hstep
    obtain ⟨us, start, word, vs, tagName, heq, hus, rfl, hs, hw, rfl⟩ := h.parted.exists_tag htags
    obtain ⟨rest, hrest, -⟩ := Parser.exists_content ts
    refine ⟨us, start, word, vs ++ rest, ?_, rfl, by simp [BlockTag.ofTokens, hw.2], ?_⟩
    · rw [hrest, heq]
      simp
    · exact stopsAt_of_refused (hus.goes hls) hs hw hstep name
  have hfails : ∀ {before tag after ls}, blockTags (content ts) = before ++ tag :: after →
      openAfter before = some ls → step ls tag = none →
      ofTokens name ts = .error (refusal ls tag) := by
    intro before tag after ls htags hls hstep
    obtain ⟨us, start, word, vs, rfl, -, -, -, hstop⟩ := hstops htags hls hstep
    exact hstop vs
  refine ⟨⟨?_, fun hls => (ofTokens_of_goes (hgoes hls) name).1 rfl⟩, ?_, ?_⟩
  · rintro ⟨t, ht⟩
    cases hls : openAfter (blockTags (content ts)) with
    | none =>
      obtain ⟨before, tag, after, ls, htags, hbefore, hstep⟩ := exists_of_foldlM_eq_none hls
      simp [hfails htags hbefore hstep] at ht
    | some ls =>
      rcases ls with _ | ⟨b, bs⟩
      · rfl
      · simp [(ofTokens_of_goes (hgoes hls) name).2 b bs rfl] at ht
  · intro before tag after ls htags hls hstep e
    obtain ⟨hkind, hplace⟩ := refusal_spec hstep
    exact ⟨hfails htags hls hstep, hkind, hplace, hstops htags hls hstep⟩
  · intro b bs hls
    exact ⟨(ofTokens_of_goes (hgoes hls) name).2 b bs rfl, rfl, rfl,
      exists_ofTokens_of_goes (hgoes hls) name⟩

/-- The second part of a condition ends while a list in it is open. -/
theorem ofTokens_of_wellFormed_stray :
    let block (name : String) (line : Nat) (args : List Token) : List Token :=
      [⟨.blockOpen, some "\x7b%", ⟨line, 1⟩, ""⟩, ⟨.ident, some name, ⟨line, 4⟩, ""⟩] ++
        (args ++ [⟨.blockClose, some "%\x7d", ⟨line, 20⟩, ""⟩])
    let ts : List Token := block "if" 1 [⟨.ident, some "a", ⟨1, 7⟩, ""⟩] ++ (block "else" 2 [] ++
      (block "parameter_list" 3 [] ++ (block "endif" 4 [] ++ [⟨.eof, none, ⟨5, 1⟩, ""⟩])))
    WellFormed (content ts) ∧
      ofTokens none ts = .error ⟨.strayEnd "endif" (some ("parameter_list", ⟨3, 1⟩)), ⟨4, 4⟩⟩ ∧
      (Cause.parse (.strayEnd "endif" (some ("parameter_list", ⟨3, 1⟩)))).kind = "ParseError" ∧
      ¬ ∃ t, ofTokens none ts = .ok t := by
  intro block ts
  have hwell : WellFormed (content ts) :=
    .opening (.conditional (.mk _ rfl ⟨rfl, rfl⟩ rfl) (.mk ⟨rfl, rfl⟩ .nil))
      (.ending (by decide) (.mk [] rfl ⟨rfl, rfl⟩ rfl)
        (.opening (.parameterList (.mk [] rfl ⟨rfl, rfl⟩ rfl))
          (.ending (by decide) (.mk [] rfl ⟨rfl, rfl⟩ rfl) .nil)))
  obtain ⟨hiff, hstray, -⟩ := ofTokens_of_wellFormed hwell none
  let before : List BlockTag :=
    [⟨"if", ⟨1, 1⟩, ⟨1, 4⟩⟩, ⟨"else", ⟨2, 1⟩, ⟨2, 4⟩⟩, ⟨"parameter_list", ⟨3, 1⟩, ⟨3, 4⟩⟩]
  obtain ⟨herror, hkind, -⟩ := hstray before ⟨"endif", ⟨4, 1⟩, ⟨4, 4⟩⟩ []
    [⟨"parameter_list", ⟨3, 1⟩, false⟩, ⟨"if", ⟨1, 1⟩, true⟩] rfl (by decide) (by decide)
  refine ⟨hwell, herror, hkind, fun hok => ?_⟩
  have hnone : openAfter (blockTags (content ts)) = none := by decide
  simp [hiff.1 hok] at hnone

end Template
end CodeTemplate

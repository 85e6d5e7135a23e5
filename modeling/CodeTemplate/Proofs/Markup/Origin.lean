import CodeTemplate.Proofs.Markup.Indent
import CodeTemplate.Proofs.Markup.Locality

/-! Where in a text something was read. The tag of a node starts at an opening delimiter. A text
that is no template is at fault where something starts in it: a token, or what cannot be cut. -/

namespace CodeTemplate

/-- The text starts with a delimiter that opens a variable or a block tag. -/
def OpensTag (cs : List Char) : Prop := ['\x7b', '\x7b'] <+: cs ∨ ['\x7b', '%'] <+: cs

namespace Node

/-- Where the tag of a node starts. Text has none. -/
def start? : Node → Option Location
  | .text _ | .inherited _ => none
  | .variable _ _ start | .conditional _ _ _ start | .loop _ _ _ start | .filtered _ _ start
  | .imports _ _ start | .call _ _ start | .docComment _ _ start | .literal _ start
  | .parameterList _ start | .parameter _ _ start | .language _ start | .copyright _ start =>
    some start

/-- The node can have been read of the text: its tag starts there, and the template that it may call
has a usable name. -/
structure ReadOf (text : String) (n : Node) : Prop where
  start : ∀ l ∈ n.start?, l.Marks text.toList OpensTag
  name : ∀ name args l, n = .call name args l → TemplateName.fault? name = none

end Node

namespace Grammar

open Node (allWithin)

variable {ts : List Token} {ns : List Node}

theorem IsTag.opens {name : String} {start : Token} {args : List Token}
    (h : IsTag name start args ts) : start.kind = .blockOpen := by
  cases h with
  | mk _ hs _ _ => exact hs

/-- The tag of a node starts with an opening token. -/
theorem Derives.exists_start (h : Derives ts ns) {n : Node} (hn : n ∈ allWithin ns) {l : Location}
    (hl : l ∈ n.start?) :
    ∃ t ∈ ts, (t.kind = .varOpen ∨ t.kind = .blockOpen) ∧ t.location = l := by
  have htag : ∀ {name : String} {start : Token} {args us : List Token},
      us ⊆ ts → IsTag name start args us →
      ∃ t ∈ ts, (t.kind = .varOpen ∨ t.kind = .blockOpen) ∧ t.location = start.location :=
    fun hs ht => ⟨_, hs ht.start_mem, .inr ht.opens, rfl⟩
  refine h.forall_mem (P := fun n => ∀ l ∈ n.start?,
    ∃ t ∈ ts, (t.kind = .varOpen ∨ t.kind = .blockOpen) ∧ t.location = l) ?_ ?_ ?_ n hn l hl
  · rintro us n hs hleaf l hl
    cases hleaf with
    | text => simp [Node.start?] at hl
    | templateTag | inheritedTag => simp [Node.start?] at hl
    | «variable» hk =>
      obtain rfl := Option.some.inj hl
      exact ⟨_, hs List.mem_cons_self, .inl hk, rfl⟩
    | language ht | copyright ht | docComment ht | literal ht | call ht =>
      obtain rfl := Option.some.inj hl
      exact htag hs ht
  · rintro us endTag node body hs ho l hl
    cases ho with
    | conditional ht | loop ht | filtered ht | imports ht | parameterList ht | parameter ht
      | groupedParameter ht =>
      obtain rfl := Option.some.inj hl
      exact htag hs ht
  · rintro us start ps p thenBranch elseBranch hs ht l hl
    obtain rfl := Option.some.inj hl
    exact htag hs ht

theorem Derives.fault?_call (h : Derives ts ns) {name : String} {args : List Argument}
    {l : Location} (hn : .call name args l ∈ allWithin ns) : TemplateName.fault? name = none := by
  refine h.forall_mem (P := fun n => n = .call name args l → TemplateName.fault? name = none)
    ?_ ?_ ?_ _ hn rfl
  · rintro us n - hleaf rfl
    cases hleaf with
    | call _ _ hf => exact hf
  · rintro us endTag node body - ho heq
    cases ho <;> contradiction
  · rintro us start ps p thenBranch elseBranch - - heq
    contradiction

end Grammar

theorem Token.Heads.opensTag {t : Token} {cs : List Char} (h : t.Heads cs)
    (hk : t.kind = .varOpen ∨ t.kind = .blockOpen) : OpensTag cs := by
  rcases hk with hk | hk
  · exact .inl (by simpa [Heads, hk] using h)
  · exact .inr (by simpa [Heads, hk] using h)

namespace Template

variable {name : Option String} {text : String} {t : Template}

theorem readOf_of_ofText (h : ofText name text = .ok t) :
    ∀ n ∈ Node.allWithin t.nodes, n.ReadOf text := by
  obtain ⟨-, ts, hts, hd, -⟩ := ofText_iff_derives.1 h
  obtain ⟨us, stop, -, -, -, hmarks⟩ := Token.ofText_spec hts
  have hsub : Grammar.content ts ⊆ ts := List.takeWhile_subset _
  refine fun n hn => ⟨fun l hl => ?_, ?_⟩
  · obtain ⟨t, ht, hk, rfl⟩ := hd.exists_start hn hl
    exact (hmarks t (hsub ht)).mono fun _ hheads => hheads.opensTag hk
  · rintro name args l rfl
    exact hd.fault?_call hn

theorem placed_of_ofText (h : ofText name text = .ok t) : Grammar.AllPlaced false t.nodes := by
  obtain ⟨-, ts, -, -, hplaced⟩ := ofText_iff_derives.1 h
  exact hplaced

theorem name_of_ofText (h : ofText name text = .ok t) : t.name = name :=
  (ofText_iff_derives.1 h).1

/-- The cause and the place of a fault of the text: something that cannot be cut, a token that
cannot stand where it does, or a block that is not closed. -/
inductive Faulty (text : String) : Cause → Location → Prop
  | scan {f : ScanFault} {l : Location} : l.Marks text.toList f.Heads → Faulty text (.scan f) l
  | token {ts : List Token} {t : Token} {f : ParseFault} :
      Token.ofText text = .ok ts → t ∈ ts → t.location.Marks text.toList t.Heads → f.InTag →
      Faulty text (.parse f) t.location
  | block {ts before after : List Token} {start word : Token} {name : String} :
      Token.ofText text = .ok ts → ts = before ++ start :: word :: after →
      start.kind = .blockOpen → Grammar.IsIdent word name →
      start.location.Marks text.toList start.Heads →
      Faulty text (.parse (.unclosed name)) start.location

theorem Faulty.line_pos {cause : Cause} {l : Location} (h : Faulty text cause l) :
    1 ≤ l.line ∧ 1 ≤ l.column := by
  cases h with
  | scan hl => exact hl.line_pos
  | token _ _ hl _ => exact hl.line_pos
  | block _ _ _ _ hl => exact hl.line_pos

theorem Faulty.not_internal {f : ParseFault} {l : Location} (h : Faulty text (.parse f) l) :
    ¬ f.Internal := by
  cases h with
  | token _ _ _ hf => exact hf.not_internal
  | block => exact not_false

/-- A text that is no template is faulty at the place that is reported, under the name it has. -/
theorem faulty_of_ofText {e : TemplateError} (h : ofText name text = .error e) :
    ∃ l, e.position = some ⟨name, l⟩ ∧ Faulty text e.cause l := by
  simp only [ofText] at h
  split at h
  · next f hf =>
    obtain rfl := Except.error.inj h
    exact ⟨f.location, rfl, .scan (Token.ofText_error hf)⟩
  · next ts hts =>
    split at h
    · next f hf =>
      obtain rfl := Except.error.inj h
      obtain ⟨us, stop, -, -, -, hmarks⟩ := Token.ofText_spec hts
      refine ⟨f.location, rfl, ?_⟩
      cases (ofTokens_spec hts name).2 f hf with
      | token ht hin => exact .token hts ht (hmarks _ ht) hin
      | block heq hs hw => exact .block hts heq hs hw (hmarks _ (by simp [heq]))
    · simp at h

end Template
end CodeTemplate

import CodeTemplate.Markup.Tree.OfTokens
import CodeTemplate.Proofs.Markup.Reading

/-! What the reader of tags accepts: the tags of the grammar, each in the places where it may
stand. -/

namespace CodeTemplate.Parser

open Grammar

variable {t start word : Token} {ts rest : List Token} {g : Tag} {around : List Block}
  {header : Header} {name : String} {n : Node}

/-- Whether a parameter may come next in the open blocks. -/
def inList (around : List Block) : Bool := (parameterFault? around).isNone

/-- The tokens are the first tag of a block that may be opened inside the others. -/
structure Opened (around : List Block) (start : Token) (ts : List Token) (h : Header) :
    Prop where
  opening : Opening ts h.endTag (h.node start.location)
  condition : ∀ p, h = .conditional p → ∃ ps, IsTag "if" start ps ts ∧ IsPath ps p
  placed : ∀ body, AllPlaced (inList (⟨h.tag, start.location⟩ :: around)) body →
    Placed (inList around) (h.node start.location body)

/-- The tokens are the tag. -/
def Tag.Fits (around : List Block) (start : Token) (ts : List Token) : Tag → Prop
  | .node n => IsLeaf ts n
  | .block h => Opened around start ts h

/-- A tag that has nothing more to read than its end. -/
theorem close_map_ok {tag : Tag} :
    (close name ts).map (fun r => (tag, r.2)) = .ok (g, rest) ↔
      ∃ stop, ts = stop :: rest ∧ stop.kind = .blockClose ∧ g = tag := by
  simp only [map_ok, Prod.exists, close_ok, Prod.mk.injEq]
  constructor
  · rintro ⟨_, _, ⟨stop, rfl, hk⟩, rfl, rfl⟩
    exact ⟨stop, rfl, hk, rfl⟩
  · rintro ⟨stop, rfl, hk, rfl⟩
    exact ⟨(), rest, ⟨stop, rfl, hk⟩, rfl, rfl⟩

theorem wholeTag_ok :
    wholeTag name n ts = .ok (g, rest) ↔
      ∃ stop, ts = stop :: rest ∧ stop.kind = .blockClose ∧ g = .node n :=
  close_map_ok

theorem firstTag_ok :
    firstTag header ts = .ok (g, rest) ↔
      ∃ stop, ts = stop :: rest ∧ stop.kind = .blockClose ∧ g = .block header :=
  close_map_ok

theorem pathTag_ok {f : Path → List Token → Outcome (Tag × List Token)} :
    pathTag ts f = .ok (g, rest) ↔
      ∃ ps us p, ts = ps ++ us ∧ IsPath ps p ∧ Stops (· == .dot) us ∧ f p us = .ok (g, rest) := by
  simp only [pathTag, bind_ok, Prod.exists, path_ok]
  constructor
  · rintro ⟨p, us, ⟨ps, rfl, hp, hs⟩, h⟩
    exact ⟨ps, us, p, rfl, hp, hs, h⟩
  · rintro ⟨ps, us, p, rfl, hp, hs, h⟩
    exact ⟨p, us, ⟨ps, rfl, hp, hs⟩, h⟩

/-- A tag that has only a path. -/
theorem pathTag_end_ok {f : Path → List Token → Outcome (Tag × List Token)} {tag : Path → Tag}
    (hf : ∀ p us, f p us = .ok (g, rest) ↔
      ∃ stop, us = stop :: rest ∧ stop.kind = .blockClose ∧ g = tag p) :
    pathTag ts f = .ok (g, rest) ↔
      ∃ ps stop p, ts = ps ++ stop :: rest ∧ IsPath ps p ∧ stop.kind = .blockClose ∧ g = tag p := by
  simp only [pathTag_ok, hf]
  constructor
  · rintro ⟨ps, _, p, rfl, hp, _, stop, rfl, hk, rfl⟩
    exact ⟨ps, stop, p, rfl, hp, hk, rfl⟩
  · rintro ⟨ps, stop, p, rfl, hp, hk, rfl⟩
    exact ⟨ps, _, p, rfl, hp, by simp [hk], stop, rfl, hk, rfl⟩

theorem pathFirstTag_ok {header : Path → Header} :
    (pathTag ts fun p => firstTag (header p)) = .ok (g, rest) ↔
      ∃ ps stop p, ts = ps ++ stop :: rest ∧ IsPath ps p ∧ stop.kind = .blockClose ∧
        g = .block (header p) :=
  pathTag_end_ok fun _ _ => firstTag_ok

theorem pathWholeTag_ok (node : Path → Node) :
    (pathTag ts fun p => wholeTag name (node p)) = .ok (g, rest) ↔
      ∃ ps stop p, ts = ps ++ stop :: rest ∧ IsPath ps p ∧ stop.kind = .blockClose ∧
        g = .node (node p) :=
  pathTag_end_ok fun _ _ => wholeTag_ok

theorem loopTag_ok :
    loopTag ts = .ok (g, rest) ↔
      ∃ item within ps stop name p, ts = item :: within :: (ps ++ stop :: rest) ∧
        IsIdent item name ∧ IsIdent within "in" ∧ IsPath ps p ∧ stop.kind = .blockClose ∧
        g = .block (.loop name p) := by
  simp only [loopTag, bind_ok, Prod.exists, ident_ok, word_ok, pathFirstTag_ok]
  constructor
  · rintro ⟨name, _, ⟨item, rfl, hi⟩, _, _, ⟨within, rfl, hw⟩, ps, stop, p, rfl, hp, hk, rfl⟩
    exact ⟨item, within, ps, stop, name, p, rfl, hi, hw, hp, hk, rfl⟩
  · rintro ⟨item, within, ps, stop, name, p, rfl, hi, hw, hp, hk, rfl⟩
    exact ⟨name, _, ⟨item, rfl, hi⟩, (), _, ⟨within, rfl, hw⟩, ps, stop, p, rfl, hp, hk, rfl⟩

theorem filterTag_ok :
    filterTag ts = .ok (g, rest) ↔
      ∃ t fs stop f filters, ts = t :: (fs ++ stop :: rest) ∧ IsFilter t f ∧
        Items IsPiped fs filters ∧ stop.kind = .blockClose ∧
        g = .block (.filtered (f :: filters)) := by
  simp only [filterTag, bind_ok, Prod.exists, filters_ok, firstTag_ok]
  constructor
  · rintro ⟨_, _, ⟨t, fs, f, filters, rfl, rfl, hf, hs, _⟩, stop, rfl, hk, rfl⟩
    exact ⟨t, fs, stop, f, filters, rfl, hf, hs, hk, rfl⟩
  · rintro ⟨t, fs, stop, f, filters, rfl, hf, hs, hk, rfl⟩
    exact ⟨_, _, ⟨t, fs, f, filters, rfl, rfl, hf, hs, by simp [hk]⟩, stop, rfl, hk, rfl⟩

theorem languageTag_ok {l : Location} :
    languageTag l ts = .ok (g, rest) ↔
      ∃ t stop name, ts = t :: stop :: rest ∧ IsIdent t name ∧ stop.kind = .blockClose ∧
        g = .node (.language name l) := by
  simp only [languageTag, bind_ok, Prod.exists, ident_ok, wholeTag_ok]
  constructor
  · rintro ⟨name, _, ⟨t, rfl, ht⟩, stop, rfl, hk, rfl⟩
    exact ⟨t, stop, name, rfl, ht, hk, rfl⟩
  · rintro ⟨t, stop, name, rfl, ht, hk, rfl⟩
    exact ⟨name, _, ⟨t, rfl, ht⟩, stop, rfl, hk, rfl⟩

theorem mem_of_lookup {α : Type} {table : List (String × α)} {a : α}
    (h : table.lookup name = some a) : (name, a) ∈ table := by
  obtain ⟨l, _, heq, _⟩ := List.lookup_eq_some_iff.1 h
  simp [heq]

/-- What the table of texts finds: what was put there, and under other names what is inherited. -/
theorem find?_templateTags {entry : PlainEntry} :
    PlainEntry.find? templateTags name = some entry ↔
      (∃ text, (name, text) ∈ templateTags ∧ entry = .own text) ∨
        ∃ member, (name, member) ∈ Inherited.all ∧ entry = .inherited member := by
  constructor
  · intro h
    simp only [PlainEntry.find?] at h
    split at h
    · next text hl => exact .inl ⟨text, mem_of_lookup hl, (Option.some.inj h).symm⟩
    · obtain ⟨member, hm, rfl⟩ := Option.map_eq_some_iff.1 h
      exact .inr ⟨member, mem_of_lookup hm, rfl⟩
  · rintro (⟨text, h, rfl⟩ | ⟨member, h, rfl⟩)
    · simp only [templateTags, List.mem_cons, Prod.mk.injEq, List.not_mem_nil, or_false] at h
      rcases h with h | h | h | h | h | h | h | h <;> obtain ⟨rfl, rfl⟩ := h <;> rfl
    · simp only [Inherited.all, List.mem_cons, Prod.mk.injEq, List.not_mem_nil, or_false] at h
      rcases h with h | h | h | h | h | h | h | h | h | h | h | h <;> obtain ⟨rfl, rfl⟩ := h <;> rfl

theorem templateTag_ok :
    templateTag ts = .ok (g, rest) ↔
      ∃ t stop name entry, ts = t :: stop :: rest ∧ IsIdent t name ∧
        PlainEntry.find? templateTags name = some entry ∧ stop.kind = .blockClose ∧
        g = .node entry.node := by
  simp only [templateTag, bind_ok, Prod.exists, ident_ok]
  constructor
  · rintro ⟨name, _, ⟨t, rfl, ht⟩, h⟩
    split at h
    · next entry hl =>
      obtain ⟨stop, rfl, hk, rfl⟩ := wholeTag_ok.1 h
      exact ⟨t, stop, name, entry, rfl, ht, hl, hk, rfl⟩
    · simp [fail] at h
  · rintro ⟨t, stop, name, entry, rfl, ht, hl, hk, rfl⟩
    refine ⟨name, _, ⟨t, rfl, ht⟩, ?_⟩
    rw [hl]
    exact wholeTag_ok.2 ⟨stop, rfl, hk, rfl⟩

theorem callTag_ok {l : Location} :
    callTag l ts = .ok (g, rest) ↔
      ∃ ns as stop name args, ts = ns ++ (as ++ stop :: rest) ∧ IsName ns name ∧
        TemplateName.fault? name = none ∧ IsArguments as args ∧ (args.map (·.key)).Nodup ∧
        stop.kind = .blockClose ∧ g = .node (.call name args l) := by
  simp only [callTag, bind_ok, Prod.exists, templateName_ok, wholeTag_ok]
  constructor
  · rintro ⟨name, _, ⟨hw, hf⟩, args, _, ha, stop, rfl, hk, rfl⟩
    obtain ⟨ns, rfl, hn⟩ := writtenName_sound hw
    obtain ⟨as, _, rfl, rfl, has, hd⟩ := arguments_sound ha (by simp)
    exact ⟨ns, as, stop, name, _, rfl, hn, hf, has, hd, hk, rfl⟩
  · rintro ⟨ns, as, stop, name, args, rfl, hn, hf, has, hd, hk, rfl⟩
    have hend : Ends (stop :: rest) := ⟨stop, rest, rfl, hk⟩
    have hstop : Stops isNameSign (as ++ stop :: rest) := by
      cases has with
      | nil => exact hend.stops rfl
      | path h _ _ _ => simp [h.1, isNameSign]
      | string h _ _ _ => simp [h.1, isNameSign]
    exact ⟨name, _, ⟨writtenName_complete hn hstop, hf⟩, args, _,
      arguments_complete has [] hd hend, stop, rfl, hk, rfl⟩

theorem parameterTag_ok :
    parameterTag around start ts = .ok (g, rest) ↔
      inList around = true ∧
        ((∃ stop, ts = stop :: rest ∧ stop.kind = .blockClose ∧ g = .block (.parameter false)) ∨
        ∃ group stop, ts = group :: stop :: rest ∧ IsIdent group "group" ∧
          stop.kind = .blockClose ∧ g = .block (.parameter true)) := by
  simp only [parameterTag, inList]
  cases parameterFault? around with
  | some f => simp [fail]
  | none =>
    cases ts with
    | nil => simp [firstTag_ok]
    | cons t ts =>
      by_cases hk : t.kind = .ident
      · simp only [hk, ↓reduceIte, bind_ok, Prod.exists, word_ok, firstTag_ok]
        constructor
        · rintro ⟨_, _, ⟨group, heq, hg⟩, stop, rfl, hs, rfl⟩
          exact ⟨rfl, .inr ⟨group, stop, heq, hg, hs, rfl⟩⟩
        · rintro ⟨_, ⟨stop, heq, hs, _⟩ | ⟨group, stop, heq, hg, hs, rfl⟩⟩
          · obtain ⟨rfl, rfl⟩ := List.cons.inj heq
            simp [hk] at hs
          · exact ⟨(), _, ⟨group, heq, hg⟩, stop, rfl, hs, rfl⟩
      · simp only [hk, ↓reduceIte, firstTag_ok]
        constructor
        · intro h
          exact ⟨rfl, .inl h⟩
        · rintro ⟨_, h | ⟨group, stop, heq, hg, _⟩⟩
          · exact h
          · obtain ⟨rfl, rfl⟩ := List.cons.inj heq
            exact absurd hg.1 hk

theorem opened_conditional {ps : List Token} {p : Path} (ht : IsTag "if" start ps ts)
    (hp : IsPath ps p) : Opened around start ts (.conditional p) where
  opening := .conditional ht hp
  condition := by
    intro q hq
    obtain rfl := Header.conditional.inj hq
    exact ⟨ps, ht, hp⟩
  placed _ h := h

/-- The tag of the name that was read, up to its end. -/
theorem tag_sound {name : TagName} (hs : start.kind = .blockOpen) (hw : IsIdent word name.text)
    (h : tag around start name ts = .ok (g, rest)) :
    ∃ used, ts = used ++ rest ∧ g.Fits around start (start :: word :: used) := by
  cases name with
  | language =>
    obtain ⟨t, stop, name, rfl, ht, hk, rfl⟩ := languageTag_ok.1 h
    exact ⟨[t, stop], rfl, .language (.mk [t] hs hw hk) ht⟩
  | copyrightBlock =>
    obtain ⟨stop, rfl, hk, rfl⟩ := wholeTag_ok.1 h
    exact ⟨[stop], rfl, .copyright (.mk [] hs hw hk)⟩
  | conditional =>
    obtain ⟨ps, stop, p, rfl, hp, hk, rfl⟩ := pathFirstTag_ok.1 h
    exact ⟨ps ++ [stop], by simp, opened_conditional (.mk ps hs hw hk) hp⟩
  | loop =>
    obtain ⟨item, within, ps, stop, name, p, rfl, hi, hin, hp, hk, rfl⟩ := loopTag_ok.1 h
    exact ⟨item :: within :: (ps ++ [stop]), by simp,
      .loop (.mk (item :: within :: ps) hs hw hk) hi hin hp, by simp, fun _ h => h⟩
  | filter =>
    obtain ⟨t, fs, stop, f, filters, rfl, hf, hfs, hk, rfl⟩ := filterTag_ok.1 h
    exact ⟨t :: (fs ++ [stop]), by simp,
      .filtered (.mk (t :: fs) hs hw hk) hf hfs, by simp, fun _ h => h⟩
  | imports =>
    obtain ⟨ps, stop, p, rfl, hp, hk, rfl⟩ := pathFirstTag_ok.1 h
    exact ⟨ps ++ [stop], by simp, .imports (.mk ps hs hw hk) hp, by simp, fun _ h => h⟩
  | callTemplate =>
    obtain ⟨ns, as, stop, name, args, rfl, hn, hf, has, hd, hk, rfl⟩ := callTag_ok.1 h
    exact ⟨ns ++ as ++ [stop], by simp, .call (.mk (ns ++ as) hs hw hk) hn hf has hd⟩
  | docCommentIf =>
    obtain ⟨ps, stop, p, rfl, hp, hk, rfl⟩ :=
      (pathWholeTag_ok (.docComment · start.indent start.location)).1 h
    exact ⟨ps ++ [stop], by simp, .docComment (.mk ps hs hw hk) hp⟩
  | literal =>
    obtain ⟨ps, stop, p, rfl, hp, hk, rfl⟩ :=
      (pathWholeTag_ok (.literal · start.location)).1 h
    exact ⟨ps ++ [stop], by simp, .literal (.mk ps hs hw hk) hp⟩
  | parameterList =>
    obtain ⟨stop, rfl, hk, rfl⟩ := firstTag_ok.1 h
    exact ⟨[stop], rfl, .parameterList (.mk [] hs hw hk), by simp, fun _ h => h⟩
  | parameter =>
    obtain ⟨hl, ⟨stop, rfl, hk, rfl⟩ | ⟨group, stop, rfl, hg, hk, rfl⟩⟩ := parameterTag_ok.1 h
    · exact ⟨[stop], rfl, .parameter (.mk [] hs hw hk), by simp, fun _ h => ⟨hl, h⟩⟩
    · exact ⟨[group, stop], rfl, .groupedParameter (.mk [group] hs hw hk) hg, by simp,
        fun _ h => ⟨hl, h⟩⟩
  | templateTag =>
    obtain ⟨t, stop, name, entry, rfl, ht, hl, hk, rfl⟩ := templateTag_ok.1 h
    refine ⟨[t, stop], rfl, ?_⟩
    rcases find?_templateTags.1 hl with ⟨text, hm, rfl⟩ | ⟨member, hm, rfl⟩
    · exact .templateTag (.mk [t] hs hw hk) ht hm
    · exact .inheritedTag (.mk [t] hs hw hk) ht hm

end CodeTemplate.Parser

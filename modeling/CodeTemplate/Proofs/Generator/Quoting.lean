import CodeTemplate.Proofs.Generator.Naming

/-! Quoted text. Each text is what some template renders to: the text itself, with a tag in the
place of each opening brace. No other character can start anything, and the tags, which have no
dashes, leave the text around them as it is. -/

namespace CodeTemplate

namespace Template

/-- The tag that a brace is written as. -/
def braceTag : List Char := "\x7b% templatetag openbrace %\x7d".toList

def quoteChars (cs : List Char) : List Char :=
  cs.flatMap fun c => if c = '\x7b' then braceTag else [c]

/-- The text with a tag in the place of each opening brace. -/
def quote (text : String) : String := String.ofList (quoteChars text.toList)

variable {cs : List Char}

theorem quoteChars_plain {c : Char} (hc : c ≠ '\x7b') (cs : List Char) :
    quoteChars (c :: cs) = c :: quoteChars cs := by
  simp [quoteChars, hc]

theorem quoteChars_eq_self (h : '\x7b' ∉ cs) : quoteChars cs = cs := by
  induction cs with
  | nil => rfl
  | cons c cs ih =>
    rw [List.mem_cons, not_or] at h
    rw [quoteChars_plain (Ne.symm h.1), ih h.2]

theorem quote_eq_self {text : String} (h : '\x7b' ∉ text.toList) : quote text = text := by
  rw [quote, quoteChars_eq_self h, String.ofList_toList]

/-- A quoted text is as it was up to the first brace. -/
theorem quoteChars_eq_append (cs : List Char) :
    quoteChars cs = cs.takeWhile (· ≠ '\x7b') ++ quoteChars (cs.dropWhile (· ≠ '\x7b')) := by
  induction cs with
  | nil => rfl
  | cons c cs ih =>
    by_cases hc : c = '\x7b'
    · simp [hc]
    · rw [quoteChars_plain hc, List.takeWhile_cons_of_pos (by simpa using hc),
        List.dropWhile_cons_of_pos (by simpa using hc), List.cons_append, ← ih]

theorem stretch_quoteChars (cs : List Char) :
    Piece.stretch (quoteChars cs) = (cs.takeWhile (· ≠ '\x7b')).length := by
  induction cs with
  | nil => rfl
  | cons c cs ih =>
    by_cases hc : c = '\x7b'
    · subst hc
      rfl
    · have ho : Piece.opens (c :: quoteChars cs) = false := by simp [Piece.opens, hc]
      rw [quoteChars_plain hc, List.takeWhile_cons_of_pos (by simpa using hc), Piece.stretch,
        if_neg (by simp [ho]), ih, List.length_cons]

end Template

open Template (braceTag quoteChars)

/-! ### Tokens -/

namespace Piece

theorem Cuts.part {mode : Mode} {start : Cursor} {c : Char} {word rest : List Char}
    {kind : PieceKind} {ps : List Piece} (hn : next mode c (word ++ rest) = .ok (kind, word.length))
    (h : Cuts (mode.after start.location kind) (start.past (c :: word)) rest ps) :
    Cuts mode start (c :: word ++ rest) (⟨kind, c :: word, start⟩ :: ps) := by
  have hcons := @Cuts.cons mode start c (word ++ rest) kind word.length ps hn
  rw [List.take_left, List.drop_left] at hcons
  exact hcons h

end Piece

namespace Token

theorem braceTag_eq : braceTag = '\x7b' :: ['%'] ++ (' ' :: [] ++ ('t' :: "emplatetag".toList ++
    (' ' :: [] ++ ('o' :: "penbrace".toList ++ (' ' :: [] ++ ('%' :: ['\x7d'])))))) :=
  rfl

/-- Tokens are read as a tag that stands for a brace, and others. -/
theorem exists_braceTag {start : Cursor} {rest : List Char} {ps : List Piece}
    (h : Piece.Cuts .text (start.past braceTag) rest ps) :
    ∃ qs ts, Piece.Cuts .text start (braceTag ++ rest) qs ∧
      (∀ before, ofPieces before false qs = ofPieces (ts.reverse ++ before) false ps) ∧
      Grammar.IsLeaf ts (.text "\x7b") := by
  rw [braceTag_eq] at h ⊢
  simp only [Cursor.past_append] at h
  simp only [List.append_assoc]
  -- What each piece is does not depend on the text behind the tag, so it can be computed.
  have hcuts : Piece.Cuts .text start _ (⟨.blockOpen false, ['\x7b', '%'], start⟩ ::
      ⟨.blanks, [' '], _⟩ :: ⟨.ident, 't' :: "emplatetag".toList, _⟩ :: ⟨.blanks, [' '], _⟩ ::
      ⟨.ident, 'o' :: "penbrace".toList, _⟩ :: ⟨.blanks, [' '], _⟩ ::
      ⟨.blockClose false, ['%', '\x7d'], _⟩ :: ps) :=
    .part rfl (.part rfl (.part rfl (.part rfl (.part rfl (.part rfl (.part rfl h))))))
  exact ⟨_, [⟨.blockOpen, some Delimiter.blockOpen, start.location, start.indent⟩,
    ⟨.ident, some "templatetag", _, ""⟩, ⟨.ident, some "openbrace", _, ""⟩,
    ⟨.blockClose, some Delimiter.blockClose, _, ""⟩], hcuts, fun before => rfl,
    .templateTag (.mk [_] rfl ⟨rfl, rfl⟩ rfl) ⟨rfl, rfl⟩ (by decide)⟩

/-- The induction is on the length of the text; each step takes a brace or all that is before the
next one. -/
theorem exists_quoteChars (cs : List Char) (start : Cursor) :
    ∃ ps ts vs, Piece.Cuts .text start (quoteChars cs) ps ∧
      (∀ before, ofPieces before false ps = ts.reverse ++ before) ∧
      Grammar.Derives ts (vs.map .text) ∧ String.join vs = String.ofList cs := by
  induction hn : cs.length using Nat.strongRecOn generalizing cs start with
  | ind n ih =>
    subst hn
    cases cs with
    | nil => exact ⟨[], [], [], .nil, fun before => rfl, .nil, rfl⟩
    | cons c cs =>
      by_cases hc : c = '\x7b'
      · subst hc
        obtain ⟨ps, ts, vs, hcuts, hts, hd, hvs⟩ :=
          ih _ (Nat.lt_succ_self cs.length) cs (start.past braceTag) rfl
        obtain ⟨qs, tag, hqs, htag, hleaf⟩ := exists_braceTag hcuts
        refine ⟨qs, tag ++ ts, "\x7b" :: vs, hqs, fun before => ?_, .leaf hleaf hd, ?_⟩
        · rw [htag, hts, List.reverse_append, List.append_assoc]
        · rw [String.join_cons, hvs, ← String.ofList_append]
          rfl
      · let body := cs.takeWhile (· ≠ '\x7b')
        let rest := cs.dropWhile (· ≠ '\x7b')
        have hlt : rest.length < (c :: cs).length :=
          Nat.lt_succ_of_le (List.dropWhile_suffix _).length_le
        obtain ⟨ps, ts, vs, hcuts, hts, hd, hvs⟩ := ih _ hlt rest (start.past (c :: body)) rfl
        have hrest : quoteChars cs = body ++ quoteChars rest := Template.quoteChars_eq_append cs
        have hnext : Piece.next .text c (body ++ quoteChars rest) = .ok (.text, body.length) := by
          have ho : Piece.opens (c :: (body ++ quoteChars rest)) = false := by
            simp [Piece.opens, hc]
          rw [Piece.next, if_neg (by simp [ho]), ← hrest, Template.stretch_quoteChars]
        rw [Template.quoteChars_plain hc, hrest]
        refine ⟨_, ⟨.text, some (String.ofList (c :: body)), start.location, ""⟩ :: ts,
          String.ofList (c :: body) :: vs, .part hnext hcuts, fun before => ?_,
          .leaf (.text rfl rfl) hd, ?_⟩
        · rw [List.reverse_cons, List.append_assoc, List.singleton_append]
          exact hts _
        · rw [String.join_cons, hvs, ← String.ofList_append, List.cons_append,
            List.takeWhile_append_dropWhile]

end Token

/-! ### Rendering -/

/-- A quoted text is a template of texts. -/
theorem Template.exists_quote (name : Option String) (text : String) :
    ∃ vs, ofText name (quote text) = .ok ⟨name, vs.map .text⟩ ∧ String.join vs = text := by
  obtain ⟨ps, ts, vs, hcuts, hts, hd, hvs⟩ := Token.exists_quoteChars text.toList {}
  refine ⟨vs, ?_, by rw [hvs, String.ofList_toList]⟩
  have htokens : Token.ofPieces [] false ps = ts.reverse := by rw [hts, List.append_nil]
  have hcut : Piece.cut .text {} (quote text).toList = .ok ps := by
    rw [quote, String.toList_ofList]
    exact Piece.cut_of_cuts hcuts
  refine ofText_iff_derives.2 ⟨rfl, _, congrArg (Except.map _) hcut, ?_, ?_⟩
  · rw [Token.content_ofPieces, htokens, List.reverse_reverse]
    exact hd
  · clear hvs hd
    induction vs with
    | nil => exact trivial
    | cons v vs ih => exact ⟨trivial, ih⟩

namespace Render

open CodeTemplate.Action

theorem nodes_texts {σ : Type} (c : Setting σ) (s : Scope) (inList : Bool) (l : Language)
    (vs : List String) :
    nodes c s inList l (vs.map .text) = pure ⟨String.join vs, l, []⟩ := by
  induction vs with
  | nil => rfl
  | cons v vs ih => simp [nodes, node, ih, Output.append, String.join_cons]

end Render

namespace Generator

open CodeTemplate.Action

theorem exec_start_texts (g : Generator) (root name : Option String) (vs : List String)
    (frame : Frame) (s : Store) :
    (exec (g.start root ⟨name, vs.map .text⟩ frame) s).1 = .ok (String.join vs) := by
  rw [exec_start, run_eq, Render.template, Render.nodes_texts]
  rfl

/-- Each text is rendered by some template, with any bindings, in any language and whatever was
rendered before: the text with a tag in the place of each opening brace, which is the text itself if
it has none. It does not matter whether the template has a name. -/
theorem renderText_quote (g : Generator) (frame : Frame) (s : Store) (text : String) :
    (exec (g.renderText (Template.quote text) frame none) s).1 = .ok text ∧
      (∀ name key, TemplateName.normalize name = .ok key →
        (exec (g.renderText (Template.quote text) frame (some name)) s).1 = .ok text ∧
          (s.cache.Consistent g.source → g.source.read? key = some (Template.quote text) →
            (exec (g.render name frame) s).1 = .ok text)) ∧
      ('\x7b' ∉ text.toList → Template.quote text = text) := by
  refine ⟨?_, fun name key hkey => ⟨?_, fun hs htext => ?_⟩, Template.quote_eq_self⟩
  · obtain ⟨vs, ht, hvs⟩ := Template.exists_quote none text
    rw [renderText, exec_observed]
    simp only [ht]
    rw [exec_start_texts, hvs]
  · obtain ⟨vs, ht, hvs⟩ := Template.exists_quote (some name) text
    have hk : exec (Generator.key name none) s = (.ok key, s) := by rw [exec_key, hkey]
    rw [renderText, exec_observed]
    simp only [ht]
    rw [exec_bind_ok hk, exec_start_texts, hvs]
  · obtain ⟨vs, ht, hvs⟩ := Template.exists_quote (some key) text
    obtain ⟨u, -, hrender⟩ := exec_render_of_read frame hs hkey htext
    rw [hrender, ht]
    exact (exec_start_texts ..).trans (by rw [hvs])

/-- Text that looks like tags with dashes, between blank lines. -/
theorem renderText_quote_tags :
    let text := "\n \x7b%- if x -%\x7d \n\n'\x7b\x7b\" \x7d\x7d\x7b"
    let ending := " -%\x7d\n"
    let g : Generator := ⟨[("page.tmpl", Template.quote text)], Language.builtin, Language.default,
      none, Number.ofNat 80, Number.ofNat 32⟩
    let frame : Frame := [("x", .string "v")]
    TemplateName.normalize "page" = .ok "page.tmpl" ∧
      g.source.read? "page.tmpl" = some (Template.quote text) ∧
      '\x7b' ∉ ending.toList ∧ Template.quote ending = ending ∧
      (exec (g.renderText (Template.quote text) frame none) {}).1 = .ok text ∧
      (exec (g.renderText (Template.quote text) frame (some "page")) {}).1 = .ok text ∧
      (exec (g.render "page" frame) {}).1 = .ok text := by
  intro text ending g frame
  have hkey : TemplateName.normalize "page" = .ok "page.tmpl" := by decide +kernel
  have hread : g.source.read? "page.tmpl" = some (Template.quote text) := rfl
  have hbrace : '\x7b' ∉ ending.toList := by decide +kernel
  obtain ⟨hnone, hnamed, -⟩ := renderText_quote g frame {} text
  obtain ⟨hsome, hrender⟩ := hnamed "page" "page.tmpl" hkey
  obtain ⟨-, -, hself⟩ := renderText_quote g frame {} ending
  exact ⟨hkey, hread, hbrace, hself hbrace, hnone, hsome, hrender (Cache.consistent_nil _) hread⟩

end Generator
end CodeTemplate

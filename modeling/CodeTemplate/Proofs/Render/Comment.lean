import CodeTemplate.Proofs.Comment.Ending
import CodeTemplate.Proofs.Markup.Indent
import CodeTemplate.Proofs.Render.Congruence

/-! No text breaks out of the comment that it is put in, be it the description of a value in a
comment of its own or a text in the body of one. -/

namespace CodeTemplate
namespace Render

open CodeTemplate.Action Comment Text

variable {σ : Type} {l : Language} {indent : String}

/-- The languages whose comments are in stars. -/
def starLanguages : List Language := [.default, .java, .gwt]

theorem style_of_mem (hl : l ∈ starLanguages) :
    l.docStyle = Language.starDoc ∧ l.commentLead = " * " ∧
      l.sanitize = Language.protectText := by
  simp only [starLanguages, List.mem_cons, List.not_mem_nil, or_false] at hl
  rcases hl with rfl | rfl | rfl <;> exact ⟨rfl, rfl, rfl⟩

theorem not_ends_sanitize (hl : l.sanitize = Language.protectText) (text : String) :
    ¬ Ends (l.sanitize text).toList := by
  rw [hl, Language.protectText, String.toList_ofList]
  exact not_ends_protect text.toList

theorem enclosed_docCommentText (hl : l ∈ starLanguages) (hi : Indents indent) (w : Width)
    (description : String) :
    docCommentText l w indent description = "" ∨
      Enclosed (docCommentText l w indent description) := by
  obtain ⟨hstyle, -, hprotects⟩ := style_of_mem hl
  by_cases hb : isBlank description = true
  · left
    rw [docCommentText, if_pos hb]
  · rw [docCommentText, if_neg hb, hstyle]
    exact .inr (enclosed_document hi w (not_ends_sanitize hprotects _))

theorem hashed_docCommentText (hi : Indents indent) (w : Width) (description : String) :
    Hashed indent (docCommentText .python w indent description) := by
  by_cases hb : isBlank description = true
  · rw [docCommentText, if_pos hb]
    exact ⟨by decide, .inl rfl⟩
  · rw [docCommentText, if_neg hb]
    exact hashed_document hi w _

theorem not_ends_commentBody (hl : l ∈ starLanguages) (w : Width) (text : String) :
    ¬ Ends (Filter.commentBody l w text).toList := by
  obtain ⟨-, hlead, hprotects⟩ := style_of_mem hl
  rw [Filter.commentBody, hlead]
  exact not_ends_reflow w (not_ends_sanitize hprotects text)

/-- A comment that is emitted is the comment for some description, and it emits nothing else. -/
theorem exec_docComment_ok {c : Setting σ} {s : Scope} {inList : Bool} {subject : Path}
    {start : Location} {state state' : σ} {out : Output}
    (h : exec (node c s inList l (.docComment subject indent start)) state = (.ok out, state')) :
    ∃ description, out.text = docCommentText l c.width indent description := by
  simp only [node, resolve] at h
  rw [exec_bind] at h
  cases hv : s.resolve subject with
  | error f => simp [hv] at h
  | ok v =>
    simp only [hv, exec_pure] at h
    rw [exec_bind] at h
    split at h
    · next description _ _ =>
      simp only [exec_pure, Prod.mk.injEq, Except.ok.injEq] at h
      exact ⟨description, by rw [← h.1]⟩
    · simp at h

theorem exec_docComment {c : Setting σ} {s : Scope} {inList : Bool} {subject : Path}
    {start : Location} {v : Value} {description : String} (hv : s.resolve subject = .ok v)
    (hd : v.attribute? "description" = some (.string description)) (state : σ) :
    exec (node c s inList l (.docComment subject indent start)) state =
      (.ok ⟨docCommentText l c.width indent description, l, []⟩, state) := by
  simp [node, resolve, hv, descriptionOf, hd, ofValue, Value.toText]

/-- Whatever a value is described with, wherever the tag for its comment stands and how wide lines
may be, the comment is emitted and holds the description. In comments in stars that is the text up
to the only end of a comment in it, and behind hashes the lines that start with one. Text that the
filter lays out for the body of a comment in stars does not end it either. -/
theorem comments_contain {name : Option String} {text : String} {t : Template}
    (ht : Template.ofText name text = .ok t) {subject : Path} {start : Location}
    (hm : .docComment subject indent start ∈ Node.allWithin t.nodes) (c : Setting σ) (s : Scope)
    (inList : Bool) (l : Language) (state : σ) :
    (∀ v description, s.resolve subject = .ok v →
      v.attribute? "description" = some (.string description) →
      exec (node c s inList l (.docComment subject indent start)) state =
        (.ok ⟨docCommentText l c.width indent description, l, []⟩, state)) ∧
    (∀ out state',
      exec (node c s inList l (.docComment subject indent start)) state = (.ok out, state') →
      (l ∈ starLanguages → out.text = "" ∨ Enclosed out.text) ∧
      (l = .python → Hashed indent out.text)) ∧
    (l ∈ starLanguages → ∀ w v value, v.toText = .ok value →
      ∃ out, Filter.blockComment.apply l w v = .ok out ∧ ¬ Ends out.toList) := by
  have hi : Indents indent := Template.indents_of_ofText ht hm
  refine ⟨fun v description hv hd => exec_docComment hv hd state, ?_, ?_⟩
  · intro out state' h
    obtain ⟨description, htext⟩ := exec_docComment_ok h
    rw [htext]
    refine ⟨fun hl => enclosed_docCommentText hl hi c.width description, ?_⟩
    rintro rfl
    exact hashed_docCommentText hi c.width description
  · intro hl w v value hv
    refine ⟨Filter.commentBody l w value, ?_, not_ends_commentBody hl w value⟩
    simp only [Filter.apply, hv]
    rfl

/-- A description that holds the end of a comment as text, behind markup and as an entity. -/
theorem comments_contain_ending :
    let t : Template := ⟨none, [.text "  ", .docComment ⟨"x", []⟩ "  " ⟨1, 3⟩]⟩
    let c : Setting Unit := ⟨none, Language.builtin, none, .columns 40, none⟩
    let s : Scope := [[("x", .record [("description", .string "a */ b *<i>/</i> *&#47;")])]]
    Template.ofText none "  \x7b% doc_comment_if x %\x7d" = .ok t ∧
      .docComment ⟨"x", []⟩ "  " ⟨1, 3⟩ ∈ Node.allWithin t.nodes ∧
      (∃ out, exec (node c s false .java (.docComment ⟨"x", []⟩ "  " ⟨1, 3⟩)) () = (.ok out, ()) ∧
        out.text = "/**\n   * a *&#47; b *&#47; *&#47;\n   */" ∧ Enclosed out.text) ∧
      ∃ out, Filter.blockComment.apply .java (.columns 40) (.string " * a */") = .ok out ∧
        out = " * a *&#47;" ∧ ¬ Ends out.toList := by
  intro t c s
  let first : Token := ⟨.text, some "  ", ⟨1, 1⟩, ""⟩
  let word : Token := ⟨.ident, some "x", ⟨1, 21⟩, ""⟩
  let tag : List Token := [⟨.blockOpen, some "\x7b%", ⟨1, 3⟩, "  "⟩,
    ⟨.ident, some "doc_comment_if", ⟨1, 6⟩, ""⟩, word, ⟨.blockClose, some "%\x7d", ⟨1, 23⟩, ""⟩]
  let last : Token := ⟨.eof, none, ⟨1, 25⟩, ""⟩
  have htokens : Token.ofText "  \x7b% doc_comment_if x %\x7d" = .ok (first :: (tag ++ [last])) :=
    ok_of_toOption (by decide +kernel)
  have htag : Grammar.IsTag "doc_comment_if" ⟨.blockOpen, some "\x7b%", ⟨1, 3⟩, "  "⟩ [word] tag :=
    .mk [word] rfl ⟨rfl, rfl⟩ rfl
  have hnodes : Grammar.Derives ([first] ++ (tag ++ [])) t.nodes :=
    .leaf (.text rfl rfl) (.leaf (.docComment htag (.mk ⟨rfl, rfl⟩ .nil)) .nil)
  have hplaced : Grammar.AllPlaced false t.nodes := by
    simp [t, Grammar.AllPlaced, Grammar.Placed]
  have hrun : Parser.ofTokens (first :: (tag ++ [last])) = .ok t.nodes :=
    Parser.ofTokens_ok.2 ⟨hnodes, hplaced⟩
  have ht : Template.ofText none "  \x7b% doc_comment_if x %\x7d" = .ok t := by
    rw [Template.ofText, htokens]
    simp only [Template.ofTokens, hrun]
    rfl
  have hm : .docComment ⟨"x", []⟩ "  " ⟨1, 3⟩ ∈ Node.allWithin t.nodes := by
    simp [t, Node.allWithin, Node.nested]
  have hjava : Language.java ∈ starLanguages := by simp [starLanguages]
  obtain ⟨hemits, hcontains, hfilter⟩ := comments_contain ht hm c s false .java ()
  have hout := hemits _ _ rfl rfl
  have htext : docCommentText .java (.columns 40) "  " "a */ b *<i>/</i> *&#47;" =
      "/**\n   * a *&#47; b *&#47; *&#47;\n   */" := by
    decide +kernel
  refine ⟨ht, hm, ⟨_, hout, htext, ?_⟩, ?_⟩
  · exact ((hcontains _ _ hout).1 hjava).resolve_left (by decide +kernel)
  · obtain ⟨out, happly, hends⟩ := hfilter hjava (.columns 40) (.string " * a */") _ rfl
    have hbody : Filter.blockComment.apply .java (.columns 40) (.string " * a */") =
      .ok " * a *&#47;" := ok_of_toOption (by decide +kernel)
    exact ⟨out, happly, Except.ok.inj (happly.symm.trans hbody), hends⟩

end Render
end CodeTemplate

import CodeTemplate.Proofs.Render.Collector

/-! Parameter lists. Main statement: the text of a list is made up of the parameters that are
rendered with it as the innermost list around them, in the order in which they are rendered, and of
nothing else. -/

namespace CodeTemplate

namespace Node

mutual

/-- The node without the texts outside its parameters. -/
def quiet : Node → Node
  | .conditional condition thenBranch none start =>
    .conditional condition (allQuiet thenBranch) none start
  | .conditional condition thenBranch (some elseBranch) start =>
    .conditional condition (allQuiet thenBranch) (some (allQuiet elseBranch)) start
  | .loop item collection body start => .loop item collection (allQuiet body) start
  | .filtered filters body start => .filtered filters (allQuiet body) start
  | .imports subject body start => .imports subject (allQuiet body) start
  | .parameterList body start => .parameterList (allQuiet body) start
  | n => n

def allQuiet : List Node → List Node
  | [] => []
  | .text _ :: ns => allQuiet ns
  | .inherited _ :: ns => allQuiet ns
  | n :: ns => quiet n :: allQuiet ns

end

end Node

theorem Filter.exists_apply_string (l : Language) (w : Comment.Width) (text : String)
    (f : Filter) : ∃ r, f.apply l w (.string text) = .ok r := by
  cases f with
  | capfirst => exact ⟨_, rfl⟩
  | blockComment => exact ⟨_, rfl⟩
  | noBlankLines => exact ⟨_, rfl⟩
  | literal => exact ⟨_, rfl⟩

/-- A text goes through all filters. -/
theorem Filter.exists_applyAll_string (l : Language) (w : Comment.Width) (text : String)
    (fs : List Filter) : ∃ r, applyAll l w (.string text) fs = .ok r := by
  induction fs generalizing text with
  | nil => exact ⟨_, rfl⟩
  | cons f fs ih =>
    obtain ⟨r, hr⟩ := exists_apply_string l w text f
    obtain ⟨r', hr'⟩ := ih r
    exact ⟨r', by rw [applyAll, hr]; exact hr'⟩

namespace Render

open CodeTemplate.Action
open Collecting (current lift)

variable {σ : Type}

/-! ### Without the texts outside parameters -/

/-- A rendering without the text that it gives. -/
def silenced (x : Action σ Output) : Action σ Output := do
  let out ← x
  return { out with text := "" }

theorem silenced_bind {α : Type} (x : Action σ α) (f : α → Action σ Output) :
    silenced (x >>= f) = x >>= fun a => silenced (f a) := by
  simp only [silenced, bind_assoc]

theorem silenced_append (x : Action σ Output) (x' : Language → Action σ Output) :
    silenced (do let a ← x; let b ← x' a.language; return a.append b) =
      (do let a ← silenced x; let b ← silenced (x' a.language); return a.append b) := by
  simp [silenced, Output.append]

theorem silenced_eachItem {body body' : Scope → Language → Action σ Output}
    (h : ∀ s l, silenced (body s l) = silenced (body' s l)) (s : Scope) (item : String)
    (count i : Nat) (vs : List Value) (l : Language) :
    silenced (eachItem body s item count i vs l) =
      silenced (eachItem body' s item count i vs l) := by
  induction vs generalizing i l with
  | nil => rfl
  | cons v vs ih =>
    simp only [eachItem]
    rw [silenced_append _ (eachItem body s item count (i + 1) vs),
      silenced_append _ (eachItem body' s item count (i + 1) vs), h]
    simp only [ih]

/-- What filters make of a text is only a text. -/
theorem silenced_filter (x : Action σ Output) (p : Position) (w : Comment.Width)
    (fs : List Filter) :
    silenced (do
      let out ← x
      let text ← ofValue p (Filter.applyAll out.language w (.string out.text) fs)
      return { out with text }) = silenced x := by
  rw [silenced_bind, silenced]
  refine congrArg (x >>= ·) (funext fun out => ?_)
  obtain ⟨r, hr⟩ := Filter.exists_applyAll_string out.language w out.text fs
  simp [hr, ofValue, silenced]

/-- The text in a list is of no use. -/
theorem list_silenced (x : Action σ Output) :
    (do let out ← x; return ⟨parameterListText out.language.group out.entries, out.language, []⟩) =
      (do
        let out ← silenced x
        return ⟨parameterListText out.language.group out.entries, out.language, []⟩ :
        Action σ Output) := by
  simp [silenced]

mutual

theorem silenced_node (c : Setting σ) (n : Node) (s : Scope) (inList : Bool) (l : Language) :
    silenced (node c s inList l n.quiet) = silenced (node c s inList l n) := by
  cases n with
  | conditional condition thenBranch elseBranch start =>
    cases elseBranch with
    | none =>
      simp only [Node.quiet, node, silenced_bind, apply_ite silenced,
        silenced_nodes c thenBranch]
    | some elseBranch =>
      simp only [Node.quiet, node, silenced_bind, apply_ite silenced,
        silenced_nodes c thenBranch, silenced_nodes c elseBranch]
  | loop item collection body start =>
    simp only [Node.quiet, node, silenced_bind]
    simp only [silenced_eachItem fun s l => silenced_nodes c body s inList l]
  | filtered filters body start =>
    simp only [Node.quiet, node, silenced_filter]
    exact silenced_nodes c body s inList l
  | imports subject body start =>
    simp only [Node.quiet, node, silenced_bind, silenced_nodes c body]
  | parameterList body start =>
    simp only [Node.quiet, node]
    rw [list_silenced, silenced_nodes c body s true l, ← list_silenced]
  | _ => rfl

/-- A text stands for itself alone; it leaves the language to the nodes after it. -/
theorem silenced_nodes (c : Setting σ) (ns : List Node) (s : Scope) (inList : Bool)
    (l : Language) :
    silenced (nodes c s inList l (Node.allQuiet ns)) = silenced (nodes c s inList l ns) := by
  cases ns with
  | nil => rfl
  | cons n ns =>
    have hrest : ∀ l, silenced (nodes c s inList l (Node.allQuiet ns)) =
        silenced (nodes c s inList l ns) := silenced_nodes c ns s inList
    rw [nodes, silenced_append _ fun l => nodes c s inList l ns]
    by_cases hn : (∃ value, n = .text value) ∨ ∃ member, n = .inherited member
    · obtain ⟨value, rfl⟩ | ⟨member, rfl⟩ := hn
      all_goals
        rw [Node.allQuiet, hrest]
        simp [node, silenced, Output.append]
    · have hquiet : Node.allQuiet (n :: ns) = n.quiet :: Node.allQuiet ns := by
        cases n <;> simp_all [Node.allQuiet]
      rw [hquiet, nodes, silenced_append _ fun l => nodes c s inList l (Node.allQuiet ns),
        silenced_node c n s inList l]
      simp only [hrest]

end

/-! ### What a list consists of -/

/-- The trimmed texts that are not blank, of the grouped parameters or of the others, that were
rendered with so many lists around them. -/
def ownTexts (depth : Nat) (grouped : Bool) (executed : List Executed) : List String :=
  ((executed.filter fun p => p.depth == depth && p.grouped == grouped).map
    (Text.trim ·.text)).filter (· ≠ "")

theorem textsOf_entriesAt (depth : Nat) (grouped : Bool) (ps : List Executed) :
    textsOf grouped (entriesAt depth ps) = ownTexts depth grouped ps := by
  induction ps with
  | nil => rfl
  | cons p ps ih =>
    have hcons : entriesAt depth (p :: ps) = entriesAt depth [p] ++ entriesAt depth ps :=
      entriesAt_append depth [p] ps
    rw [hcons, textsOf_append, ih]
    by_cases hd : p.depth = depth <;> by_cases hg : p.grouped = grouped <;>
      by_cases ht : Text.trim p.text = "" <;>
      simp [ownTexts, textsOf, entriesAt, parameterEntries, hd, hg, ht]

theorem parameterListText_eq (group : Group) (entries : List Entry) :
    parameterListText group entries = "(" ++ ", ".intercalate (textsOf false entries ++
      if textsOf true entries = [] then []
      else [group.opening ++ ", ".intercalate (textsOf true entries) ++ group.closing]) ++ ")" := by
  simp [parameterListText, textsOf]

/-- A computation with no list around it and nothing collected before. -/
def apart {α : Type} (l : Language) (y : Action (Collecting σ) α) : Action σ α := fun st =>
  let (r, t) := y ⟨st, l, [], []⟩
  (r, t.state)

/-- A call is a computation with the state and the language in effect; it has no part in what is
collected around it. -/
theorem emit_call_eq (c : Setting σ) (s : Scope) (name : String) (args : List Argument)
    (start : Location) : ∃ x : Language → Action σ String,
      emit c s (.call name args start) = (do lift (x (← current))) := by
  simp only [emit]
  generalize (⟨c.template, start⟩ : Position) = p
  cases c.call with
  | none => exact ⟨fun _ => fail (.callsNothing name) p, rfl⟩
  | some call =>
    refine ⟨fun l => do let frame ← bindings s p [] args; call name frame l p, funext fun t => ?_⟩
    obtain ⟨r, hx, hy⟩ := rel_bindings (settled σ (Collecting σ)) s p args []
    cases r with
    | error e =>
      refine (exec_bind_error (hy t)).trans ?_
      refine Eq.trans ?_ (exec_bind_ok (Collecting.exec_current t)).symm
      rw [Collecting.exec_lift, exec_bind_error (hx t.state)]
    | ok frame =>
      refine (exec_bind_ok (hy t)).trans ?_
      refine Eq.trans ?_ (exec_bind_ok (Collecting.exec_current t)).symm
      rw [exec_bind_ok (Collecting.exec_current t), Collecting.exec_lift, Collecting.exec_lift,
        exec_bind_ok (hx t.state)]

/-- A template is rendered without a list around it, whatever is around the call of it. -/
theorem template_eq_apart (c : Setting σ) (frame : Frame) (l : Language) (tmpl : Template) :
    template c frame l tmpl = apart l (emitAll c [frame] tmpl.nodes) := by
  funext st
  have h := realizes_nodes c tmpl.nodes [frame] false l ⟨st, l, [], []⟩ rfl rfl
  change exec (template c frame l tmpl) st =
    ((exec (emitAll c [frame] tmpl.nodes) ⟨st, l, [], []⟩).1,
      (exec (emitAll c [frame] tmpl.nodes) ⟨st, l, [], []⟩).2.state)
  rw [template, exec_bind]
  change Matches _ (exec _ st) _ at h
  generalize exec (nodes c [frame] false l tmpl.nodes) st = r,
    exec (emitAll c [frame] tmpl.nodes) ⟨st, l, [], []⟩ = r' at h
  cases h with
  | error _ _ => rfl
  | ok _ _ => rfl

theorem parameterList_allQuiet (c : Setting σ) (s : Scope) (inList : Bool) (l : Language)
    (body : List Node) (start : Location) :
    node c s inList l (.parameterList (Node.allQuiet body) start) =
      node c s inList l (.parameterList body start) := by
  simp only [node]
  rw [list_silenced, silenced_nodes, ← list_silenced]

/-- The list is rendered with collectors, from any state, and what it reports is compared with the
rendering that passes parameters up: both have one result. The collectors are as they were before,
also when the body fails. Of the parameters that the body has rendered, those that have this list as
the innermost one make up the text; they are the ones that are passed up. Texts outside parameters
may as well be left out. A call neither changes what is collected nor depends on it, and a template
is rendered as one that has no list around it. -/
theorem parameterList_collected (c : Setting σ) (s : Scope) (body : List Node) (start : Location)
    (t : Collecting σ) :
    let list := Node.parameterList body start
    let r := exec (emit c s list) t
    let depth := t.collectors.length + 1
    exec (node c s (!t.collectors.isEmpty) t.language list) t.state =
      (r.1.map (⟨·, r.2.language, []⟩), r.2.state) ∧
    r.2.collectors = t.collectors ∧
    (∀ text, r.1 = .ok text → ∃ out new,
      exec (nodes c s true t.language body) t.state = (.ok out, r.2.state) ∧
      out.language = r.2.language ∧
      r.2.executed = t.executed ++ new ∧
      (∀ grouped, textsOf grouped out.entries = ownTexts depth grouped new) ∧
      text = "(" ++ ", ".intercalate (ownTexts depth false new ++
        if ownTexts depth true new = [] then []
        else [r.2.language.group.opening ++ ", ".intercalate (ownTexts depth true new) ++
          r.2.language.group.closing]) ++ ")") ∧
    (∀ inList l, node c s inList l (.parameterList (Node.allQuiet body) start) =
      node c s inList l list) ∧
    (∀ name args start', ∃ x : Language → Action σ String,
      emit c s (.call name args start') = (do lift (x (← current)))) ∧
    ∀ tmpl frame l, template c frame l tmpl = apart l (emitAll c [frame] tmpl.nodes) := by
  intro list r depth
  have hlists : Lists t (exec (nodes c s true t.language body) t.state) r := by
    simpa [r, list, emit] using
      lists_of_realizes (realizes_nodes c body s true t.language) t rfl
  refine ⟨?_, ?_, ?_, fun inList l => parameterList_allQuiet c s inList l body start,
    emit_call_eq c s, fun tmpl frame l => template_eq_apart c frame l tmpl⟩
  · simp only [list, node]
    rw [exec_bind]
    generalize exec (nodes c s true t.language body) t.state = x, r = r at hlists
    cases hlists with
    | error _ => rfl
    | ok _ _ => rfl
  · generalize exec (nodes c s true t.language body) t.state = x, r = r at hlists
    cases hlists with
    | error hsame => exact hsame
    | ok _ _ => rfl
  · intro text htext
    generalize exec (nodes c s true t.language body) t.state = x, r = r at hlists htext
    cases hlists with
    | error _ => cases htext
    | @ok out st new hnew _ =>
      have hown : ∀ grouped, textsOf grouped out.entries = ownTexts depth grouped new := by
        intro grouped
        rw [← hnew, textsOf_entriesAt]
      obtain rfl := Except.ok.inj htext
      refine ⟨out, new, rfl, rfl, rfl, hown, ?_⟩
      rw [parameterListText_eq, hown, hown]

/-- Grouped parameters of a loop come last; the list in a parameter is only a text there. -/
theorem parameterList_collected_nested :
    let c : Setting Unit := ⟨none, Language.builtin, none, .columns 40, none⟩
    let s : Scope := [[("xs", .sequence [.string "a", .string " ", .string "b"])]]
    let body : List Node := [.text "-",
      .loop "x" ⟨"xs", []⟩ [.parameter true [.variable ⟨"x", []⟩ [] ⟨1, 2⟩] ⟨1, 2⟩] ⟨1, 1⟩,
      .parameter false [.text " f", .parameterList [.parameter true [.text "g"] ⟨2, 1⟩] ⟨2, 1⟩]
        ⟨2, 1⟩]
    let t : Collecting Unit := ⟨(), Language.default, [{}], []⟩
    let r := exec (emit c s (.parameterList body ⟨1, 1⟩)) t
    r.1 = .ok "(f(\x7bg\x7d), \x7ba, b\x7d)" ∧ r.2.collectors = [{}] ∧
      ∃ new, ownTexts 2 false new = ["f(\x7bg\x7d)"] ∧ ownTexts 2 true new = ["a", "b"] ∧
        "(f(\x7bg\x7d), \x7ba, b\x7d)" = "(" ++ ", ".intercalate (ownTexts 2 false new ++
          if ownTexts 2 true new = [] then []
          else ["\x7b" ++ ", ".intercalate (ownTexts 2 true new) ++ "\x7d"]) ++ ")" := by
  intro c s body t r
  have hr : r.1 = .ok "(f(\x7bg\x7d), \x7ba, b\x7d)" := ok_of_toOption (by decide +kernel)
  have hplain : ownTexts 2 false r.2.executed = ["f(\x7bg\x7d)"] := by decide +kernel
  have hgrouped : ownTexts 2 true r.2.executed = ["a", "b"] := by decide +kernel
  have hgroup : r.2.language.group = Language.braces := by decide +kernel
  obtain ⟨-, hsame, htext, -⟩ := parameterList_collected c s body ⟨1, 1⟩ t
  obtain ⟨u, hu⟩ : ∃ u, exec (emit c s (.parameterList body ⟨1, 1⟩)) t = u := ⟨_, rfl⟩
  have hru : r = u := hu
  rw [hu] at hsame htext
  rw [hru] at hr hplain hgrouped hgroup ⊢
  obtain ⟨out, new, -, -, hnew, -, heq⟩ := htext _ hr
  obtain rfl : u.2.executed = new := hnew
  rw [hgroup] at heq
  exact ⟨hr, hsame, _, hplain, hgrouped, heq⟩

end Render
end CodeTemplate

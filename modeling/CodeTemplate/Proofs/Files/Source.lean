import Mathlib.Data.String.Basic
import CodeTemplate.Proofs.Files.Tree

/-! The source of the templates in some directories. A name has the text of the first directory that
has a template of it, and the names are those of all templates, each once and in order. -/

namespace CodeTemplate

namespace Source

variable {s : Source} {texts : List (String × String)}

/-- Texts with keys as names: each is found under its own, with the text that it is given there
alone. -/
theorem exists_adding (hkey : ∀ x ∈ texts, TemplateName.normalize x.1 = .ok x.1)
    (hs : (s.map (·.1)).Nodup)
    (hone : ∀ name text text', (name, text) ∈ texts → (name, text') ∈ texts → text = text') :
    ∃ s', s.adding texts = .ok s' ∧ (s'.map (·.1)).Nodup ∧ ∀ name text,
      s'.read? name = some text ↔ (name, text) ∈ texts ∨
        (∀ text', (name, text') ∉ texts) ∧ s.read? name = some text := by
  induction texts generalizing s with
  | nil => exact ⟨s, rfl, hs, by simp⟩
  | cons x texts ih =>
    obtain ⟨first, own⟩ := x
    have hown := hkey (first, own) List.mem_cons_self
    obtain ⟨s', hs', hnodup, hread⟩ :=
      ih (s := setKey first own s) (fun x hx => hkey x (List.mem_cons_of_mem _ hx))
        (nodup_setKey hs first own) fun name text text' h h' =>
          hone name text text' (List.mem_cons_of_mem _ h) (List.mem_cons_of_mem _ h')
    refine ⟨s', by simp [adding, hown, hs'], hnodup, fun name text => ?_⟩
    have hkept : Source.read? (setKey first own s) name =
        if name = first then some own else s.read? name := lookup_setKey first name own s
    rw [hread, hkept]
    by_cases hname : name = first
    · obtain rfl := hname
      rw [if_pos rfl, Option.some.injEq]
      constructor
      · rintro (h | ⟨-, rfl⟩)
        · exact .inl (List.mem_cons_of_mem _ h)
        · exact .inl List.mem_cons_self
      · rintro (h | ⟨h, -⟩)
        · obtain rfl : text = own := hone _ _ _ h List.mem_cons_self
          by_cases hagain : ∃ text', (name, text') ∈ texts
          · obtain ⟨text', h'⟩ := hagain
            have heq := hone name text text' h (List.mem_cons_of_mem _ h')
            exact .inl (heq ▸ h')
          · exact .inr ⟨not_exists.1 hagain, rfl⟩
        · exact absurd List.mem_cons_self (h own)
    · simp [hname]

theorem exists_adding_error (h : ∃ x ∈ texts, TemplateName.fault? x.1 ≠ none) :
    ∃ f, s.adding texts = .error f := by
  induction texts generalizing s with
  | nil => simp at h
  | cons x texts ih =>
    obtain ⟨name, text⟩ := x
    cases hname : TemplateName.normalize name with
    | error f => exact ⟨f, by simp [adding, hname]⟩
    | ok key =>
      have hrest : ∃ x ∈ texts, TemplateName.fault? x.1 ≠ none := by
        obtain ⟨y, hy, hfault⟩ := h
        rcases List.mem_cons.1 hy with rfl | hy
        · obtain ⟨f, hf⟩ := Option.ne_none_iff_exists'.1 hfault
          rw [TemplateName.normalize_eq_error_iff.2 hf] at hname
          cases hname
        · exact ⟨y, hy, hfault⟩
      simpa [adding, hname] using ih hrest

theorem mem_names {name : String} : name ∈ s.names ↔ ∃ text, s.read? name = some text := by
  have hsome : (∃ text, s.read? name = some text) ↔ ∃ x ∈ s, name = x.1 := by
    rw [← Option.isSome_iff_exists, read?, List.lookup_isSome_iff]
    simp only [beq_iff_eq]
  rw [names, List.mem_mergeSort, List.mem_map, hsome]
  simp only [eq_comm]

/-- The names are in order, and no two of them are the same. -/
theorem names_ascend (hs : (s.map (·.1)).Nodup) : s.names.Pairwise (· < ·) := by
  have hle : s.names.Pairwise (· ≤ ·) := by
    have htrans : ∀ a b c : String, decide (a ≤ b) = true → decide (b ≤ c) = true →
        decide (a ≤ c) = true := by
      intro a b c hab hbc
      exact decide_eq_true (le_trans (of_decide_eq_true hab) (of_decide_eq_true hbc))
    have htotal : ∀ a b : String, (decide (a ≤ b) || decide (b ≤ a)) = true := by
      intro a b
      simpa using le_total a b
    simpa [names] using List.pairwise_mergeSort htrans htotal (s.map (·.1))
  have hne : s.names.Nodup := (List.mergeSort_perm _ _).nodup_iff.2 hs
  exact (hle.and hne).imp fun h => lt_of_le_of_ne h.1 h.2

end Source

namespace FileTree

variable {t : FileTree} {dirs : List Directory}

/-- A template below a directory that is asked for. -/
def HoldsAt (t : FileTree) (d : Directory) (name text : String) : Prop :=
  ∃ u, t.find? d.path = some u ∧ u.Holds name text

/-- The first of the directories that have a template of the name has it with this text. -/
def Wins (t : FileTree) (dirs : List Directory) (name text : String) : Prop :=
  ∃ before d after, dirs = before ++ d :: after ∧ t.HoldsAt d name text ∧
    ∀ d' ∈ before, ∀ text', ¬ t.HoldsAt d' name text'

theorem mem_templatesAt (ht : t.Proper) {d : Directory} {name text : String} :
    (name, text) ∈ (t.find? d.path).elim [] templates ↔ t.HoldsAt d name text := by
  cases hu : t.find? d.path with
  | none => simp [HoldsAt, hu]
  | some u => simp [HoldsAt, hu, mem_templates (ht.along hu).2]

theorem HoldsAt.unique (ht : t.Proper) {d : Directory} {name text text' : String}
    (h : t.HoldsAt d name text) (h' : t.HoldsAt d name text') : text = text' := by
  obtain ⟨u, hu, hholds⟩ := h
  obtain ⟨u', hu', hholds'⟩ := h'
  obtain rfl := Option.some.inj (hu.symm.trans hu')
  exact hholds.unique (ht.along hu).2 hholds'

theorem not_wins_nil {name text : String} : ¬ t.Wins [] name text := by
  rintro ⟨before, d, after, heq, -⟩
  simp at heq

theorem wins_cons {d : Directory} {name text : String} :
    t.Wins (d :: dirs) name text ↔ t.HoldsAt d name text ∨
      (∀ text', ¬ t.HoldsAt d name text') ∧ t.Wins dirs name text := by
  constructor
  · rintro ⟨before, d', after, heq, hholds, hbefore⟩
    cases before with
    | nil =>
      obtain ⟨rfl, -⟩ := List.cons.inj heq
      exact .inl hholds
    | cons first before =>
      obtain ⟨rfl, rfl⟩ := List.cons.inj heq
      exact .inr ⟨hbefore d List.mem_cons_self, before, d', after, rfl, hholds,
        fun x hx => hbefore x (List.mem_cons_of_mem _ hx)⟩
  · rintro (h | ⟨hnot, before, d', after, rfl, hholds, hbefore⟩)
    · exact ⟨[], d, dirs, rfl, h, by simp⟩
    · exact ⟨d :: before, d', after, rfl, hholds, List.forall_mem_cons.2 ⟨hnot, hbefore⟩⟩

theorem Wins.unique (ht : t.Proper) {name text text' : String} (h : t.Wins dirs name text)
    (h' : t.Wins dirs name text') : text = text' := by
  induction dirs with
  | nil => exact absurd h not_wins_nil
  | cons d dirs ih =>
    rcases wins_cons.1 h with h | ⟨hnot, h⟩
    · rcases wins_cons.1 h' with h' | ⟨hnot', -⟩
      · exact h.unique ht h'
      · exact absurd h (hnot' text)
    · rcases wins_cons.1 h' with h' | ⟨-, h'⟩
      · exact absurd h' (hnot text')
      · exact ih h h'

/-- A name is won if and only if one of the directories has a template of it. -/
theorem exists_wins_iff {name : String} :
    (∃ text, t.Wins dirs name text) ↔ ∃ d ∈ dirs, ∃ text, t.HoldsAt d name text := by
  induction dirs with
  | nil => simp [not_wins_nil]
  | cons d dirs ih =>
    simp only [wins_cons, List.exists_mem_cons_iff, ← ih]
    by_cases hd : ∃ text, t.HoldsAt d name text
    · obtain ⟨text, hd⟩ := hd
      exact iff_of_true ⟨text, .inl hd⟩ (.inl ⟨text, hd⟩)
    · simp [not_exists.1 hd]

/-! ### Gathering -/

/-- The templates below a directory whose names are not among those that were found. -/
def unfound (t : FileTree) (found : List (String × String)) (d : Directory) :
    List (String × String) :=
  ((t.find? d.path).elim [] templates).filter fun x => (found.lookup x.1).isNone

theorem gather_cons (t : FileTree) (found : List (String × String)) (d : Directory)
    (dirs : List Directory) : t.gather found (d :: dirs) =
      if t.isDirectory d.path then t.gather (found ++ t.unfound found d) dirs
      else .error { cause := .noDirectory d.text } := rfl

theorem mem_unfound (ht : t.Proper) {found : List (String × String)} {d : Directory}
    {name text : String} : (name, text) ∈ t.unfound found d ↔
      t.HoldsAt d name text ∧ ∀ text', (name, text') ∉ found := by
  rw [unfound, List.mem_filter, mem_templatesAt ht]
  refine and_congr_right fun _ => ?_
  rw [Option.isNone_iff_eq_none, List.lookup_eq_none_iff]
  constructor
  · intro h text' hm
    simpa using h _ hm
  · intro h x hx
    refine bne_iff_ne.2 ?_
    rintro rfl
    exact h x.2 hx

/-- What is gathered is what was found before, and of each other name the text that wins. -/
theorem exists_gather (ht : t.Proper) (hd : ∀ d ∈ dirs, t.isDirectory d.path = true)
    (found : List (String × String)) :
    ∃ texts, t.gather found dirs = .ok texts ∧ ∀ name text, (name, text) ∈ texts ↔
      (name, text) ∈ found ∨ (∀ text', (name, text') ∉ found) ∧ t.Wins dirs name text := by
  induction dirs generalizing found with
  | nil => exact ⟨found, rfl, by simp [not_wins_nil]⟩
  | cons d dirs ih =>
    obtain ⟨hfirst, hrest⟩ := List.forall_mem_cons.1 hd
    obtain ⟨texts, htexts, hmem⟩ := ih hrest (found ++ t.unfound found d)
    refine ⟨texts, by rw [gather_cons, if_pos hfirst, htexts], fun name text => ?_⟩
    rw [hmem, List.mem_append, mem_unfound ht, wins_cons]
    by_cases hold : ∃ text', (name, text') ∈ found
    · obtain ⟨text', h⟩ := hold
      have hnot : ¬ ∀ text', (name, text') ∉ found := fun hall => hall text' h
      have hnot' : ¬ ∀ text', (name, text') ∉ found ++ t.unfound found d := fun hall =>
        hall text' (List.mem_append_left _ h)
      simp only [hnot, hnot', and_false, false_and, or_false]
    · have hall := not_exists.1 hold
      simp only [hall, List.mem_append, mem_unfound ht, not_false_eq_true, implies_true, and_true,
        true_and, false_or]

/-- Directories that are missing make an error, the one for the first of them. -/
theorem exists_gather_error (h : ∃ d ∈ dirs, t.isDirectory d.path = false)
    (found : List (String × String)) :
    ∃ d ∈ dirs, t.isDirectory d.path = false ∧
      t.gather found dirs = .error { cause := .noDirectory d.text } := by
  induction dirs generalizing found with
  | nil => simp at h
  | cons d dirs ih =>
    cases hd : t.isDirectory d.path with
    | false => exact ⟨d, List.mem_cons_self, hd, by simp [gather_cons, hd]⟩
    | true =>
      obtain ⟨x, hx, hmissing⟩ := h
      rcases List.mem_cons.1 hx with rfl | hx
      · rw [hd] at hmissing
        cases hmissing
      · obtain ⟨y, hy, hgone, hgather⟩ := ih ⟨x, hx, hmissing⟩ (found ++ t.unfound found d)
        exact ⟨y, List.mem_cons_of_mem _ hy, hgone, by rw [gather_cons, if_pos hd, hgather]⟩

/-- The templates in some directories make a source if and only if each directory is there and each
template in one of them has a usable name. The names of the source are those of the templates, in
order; each is read as the text of its file in the first directory that has one, and nothing else is
read. Else the error is that templates are not found. -/
theorem source_first_wins (ht : t.Proper) (dirs : List Directory) :
    ((∀ d ∈ dirs, t.isDirectory d.path = true) →
      (∀ d ∈ dirs, ∀ name text, t.HoldsAt d name text → TemplateName.fault? name = none) →
      ∃ source, t.source dirs = .ok source ∧ source.names.Pairwise (· < ·) ∧
        (∀ name, name ∈ source.names ↔ ∃ d ∈ dirs, ∃ text, t.HoldsAt d name text) ∧
        (∀ key text, source.read? key = some text ↔ t.Wins dirs key text) ∧
        ∀ key, key ∉ source.names → source.read? key = none) ∧
    ((∃ d ∈ dirs, t.isDirectory d.path = false) ∨
      (∃ d ∈ dirs, ∃ name text, t.HoldsAt d name text ∧ TemplateName.fault? name ≠ none) →
      ∃ e, t.source dirs = .error e ∧ e.cause.kind = "TemplateNotFoundError") := by
  constructor
  · intro hd husable
    obtain ⟨texts, htexts, hmem⟩ := exists_gather ht hd []
    have hwins : ∀ name text, (name, text) ∈ texts ↔ t.Wins dirs name text := by
      simpa using hmem
    have hkey : ∀ x ∈ texts, TemplateName.normalize x.1 = .ok x.1 := by
      rintro ⟨name, text⟩ hx
      obtain ⟨d, hd, text', u, hu, hholds⟩ := exists_wins_iff.1 ⟨text, (hwins name text).1 hx⟩
      exact hholds.normalize_eq_self (ht.along hu).2 (husable d hd name text' ⟨u, hu, hholds⟩)
    have hone : ∀ name text text', (name, text) ∈ texts → (name, text') ∈ texts → text = text' :=
      fun name text text' h h' => ((hwins name text).1 h).unique ht ((hwins name text').1 h')
    obtain ⟨source, hsource, hnodup, hread⟩ := Source.exists_adding (s := []) hkey (by simp) hone
    have hreads : ∀ key text, source.read? key = some text ↔ t.Wins dirs key text := by
      intro key text
      rw [hread, hwins]
      simp [Source.read?]
    have hnames : ∀ name, name ∈ source.names ↔ ∃ d ∈ dirs, ∃ text, t.HoldsAt d name text := by
      intro name
      rw [Source.mem_names, ← exists_wins_iff]
      simp only [hreads]
    refine ⟨source, by simp [FileTree.source, htexts, Source.ofTexts, hsource],
      Source.names_ascend hnodup, hnames, hreads, fun key hkey => ?_⟩
    refine Option.eq_none_iff_forall_ne_some.2 fun text htext => ?_
    exact hkey (Source.mem_names.2 ⟨text, htext⟩)
  · intro h
    by_cases hd : ∀ d ∈ dirs, t.isDirectory d.path = true
    · obtain ⟨texts, htexts, hmem⟩ := exists_gather ht hd []
      have hbad : ∃ x ∈ texts, TemplateName.fault? x.1 ≠ none := by
        rcases h with ⟨d, hdir, hmissing⟩ | ⟨d, hdir, name, text, hholds, hfault⟩
        · rw [hd d hdir] at hmissing
          cases hmissing
        · obtain ⟨text', hwins⟩ := exists_wins_iff.2 ⟨d, hdir, text, hholds⟩
          exact ⟨(name, text'), (hmem name text').2 (.inr ⟨by simp, hwins⟩), hfault⟩
      obtain ⟨f, hf⟩ := Source.exists_adding_error (s := []) hbad
      have hsource : t.source dirs = .error { cause := .badName f } := by
        simp only [FileTree.source, htexts, Source.ofTexts, hf]
      exact ⟨_, hsource, rfl⟩
    · have hmissing : ∃ d ∈ dirs, t.isDirectory d.path = false := by
        simpa using hd
      obtain ⟨d, -, -, hgather⟩ := exists_gather_error hmissing []
      have hsource : t.source dirs = .error { cause := .noDirectory d.text } := by
        simp only [FileTree.source, hgather]
      exact ⟨_, hsource, rfl⟩

/-- A name in two directories, one that is further below, and a directory that is missing. -/
theorem source_first_wins_overlap :
    let own := directory [("x.tmpl", file "own")]
    let sub := directory [("y.tmpl", file "below")]
    let shared := directory [("x.tmpl", file "shared"), ("sub", sub)]
    let t := directory [("own", own), ("shared", shared)]
    let dirs : List Directory := [⟨⟨["own"]⟩, false⟩, ⟨⟨["shared"]⟩, false⟩]
    let missing : Directory := ⟨⟨["none"]⟩, true⟩
    t.Proper ∧
      (∃ source, t.source dirs = .ok source ∧ source.names.Pairwise (· < ·) ∧
        source.read? "x.tmpl" = some "own" ∧ source.read? "sub/y.tmpl" = some "below" ∧
        source.read? "y.tmpl" = none) ∧
      ∃ e, t.source (dirs ++ [missing]) = .error e ∧ e.cause.kind = "TemplateNotFoundError" := by
  intro own sub shared t dirs missing
  have ht : t.Proper := by
    have hfiles : t = ofFiles .root [("own/x.tmpl", some "own"), ("shared/x.tmpl", some "shared"),
      ("shared/sub/y.tmpl", some "below")] := rfl
    rw [hfiles]
    exact proper_ofFiles (by simp [AbsolutePath.root]) _
  have hx : Text.endsWith "x.tmpl" TemplateName.extension = true := by decide
  have hy : Text.endsWith "y.tmpl" TemplateName.extension = true := by decide
  have hfirst : ∀ name text, t.HoldsAt ⟨⟨["own"]⟩, false⟩ name text →
      (name, text) = ("x.tmpl", "own") := by
    intro name text h
    have hm : (name, text) ∈ own.templates := (mem_templatesAt ht).2 h
    simpa [own, templates, Text.mem_listed, entryTemplates, hx] using hm
  have hsecond : ∀ name text, t.HoldsAt ⟨⟨["shared"]⟩, false⟩ name text →
      (name, text) = ("x.tmpl", "shared") ∨ (name, text) = ("sub/y.tmpl", "below") := by
    intro name text h
    have hm : (name, text) ∈ shared.templates := (mem_templatesAt ht).2 h
    simpa [shared, sub, templates, Text.mem_listed, entryTemplates, hx, hy, eq_comm] using hm
  have hheld : ∀ d ∈ dirs, ∀ name text, t.HoldsAt d name text →
      name = "x.tmpl" ∨ name = "sub/y.tmpl" := by
    intro d hd name text h
    rcases List.mem_cons.1 hd with rfl | hd
    · exact .inl (Prod.mk.inj (hfirst name text h)).1
    · obtain rfl := List.mem_singleton.1 hd
      exact (hsecond name text h).imp (fun h => (Prod.mk.inj h).1) fun h => (Prod.mk.inj h).1
  have husable : ∀ d ∈ dirs, ∀ name text, t.HoldsAt d name text →
      TemplateName.fault? name = none := by
    intro d hd name text h
    rcases hheld d hd name text h with rfl | rfl <;> decide
  obtain ⟨source, hsource, hascend, hnames, hread, hnone⟩ :=
    (source_first_wins ht dirs).1 (by decide) husable
  refine ⟨ht, ⟨source, hsource, hascend, (hread _ _).2 ?_, (hread _ _).2 ?_, hnone _ ?_⟩, ?_⟩
  · exact ⟨[], _, _, rfl, ⟨own, rfl, ["x.tmpl"], rfl, rfl, hx⟩, by simp⟩
  · refine ⟨[⟨⟨["own"]⟩, false⟩], _, [], rfl,
      ⟨shared, rfl, ["sub", "y.tmpl"], rfl, by decide, by decide⟩, fun d hd text' h => ?_⟩
    obtain rfl := List.mem_singleton.1 hd
    exact absurd (Prod.mk.inj (hfirst _ _ h)).1 (by decide)
  · rw [hnames]
    rintro ⟨d, hd, text, h⟩
    rcases hheld d hd _ text h with h | h <;> exact absurd h (by decide)
  · exact (source_first_wins ht (dirs ++ [missing])).2 (.inl ⟨missing, by simp, rfl⟩)

end FileTree
end CodeTemplate

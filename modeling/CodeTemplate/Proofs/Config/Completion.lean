import CodeTemplate.Proofs.Config.Acceptance
import CodeTemplate.Proofs.Files.Path

/-! What configurations are completed to. A configuration that is accepted gives one that generators
can be made of, unless the file with the copyright text is not there. -/

namespace CodeTemplate.Config

/-- The configuration is what the data says, with the copyright text of the file and the defaults
for all that the data leaves open. -/
structure Completes (files : FileTree) (base : AbsolutePath) (d : Data) (config : Config) :
    Prop where
  language : (d.field? "language").getD (.string "default") = .string config.language
  searchPath : ∃ p : SearchPath, (d.field? "searchPath").getD (.string "templates") = p.data ∧
    config.searchPath = p.dirs.map base.resolve
  copyright : d.field? "copyrightFile" = none ∧
      config.copyright.map .string = d.field? "copyright" ∨
    ∃ name text, d.field? "copyrightFile" = some (.string name) ∧
      files.read? (base.resolve name) = some text ∧ config.copyright = some text
  lineWidth : (d.field? "lineWidth").getD (.number (.ofNat 80)) = .number config.lineWidth
  maxDepth : (d.field? "maxDepth").getD (.number (.ofNat 32)) = .number config.maxDepth
  debug : (d.field? "debug").getD (.bool false) = .bool config.debug

/-- What a generator relies on: its limits are positive integers, and there are directories to find
templates in, which are the same from wherever it is used. -/
structure Usable (config : Config) : Prop where
  lineWidth : config.lineWidth.IsPositiveInteger
  maxDepth : config.maxDepth.IsPositiveInteger
  nonempty : config.searchPath ≠ []
  absolute : ∀ p ∈ config.searchPath, ∀ cwd : AbsolutePath, cwd.resolve p.text = p

/-- What is found where the file with the copyright text should be is a file. -/
def Readable (files : FileTree) (base : AbsolutePath) (c : ConfigFile) : Prop :=
  ∀ name t, c.copyrightFile = some name → files.find? (base.resolve name) = some t →
    ∃ text, t = .file text

variable {files : FileTree} {base : AbsolutePath} {c : ConfigFile} {d : Data} {config : Config}

theorem copyrightOf_eq_ok_iff {copyright : Option String} :
    copyrightOf files base c = .ok copyright ↔
      c.copyrightFile = none ∧ copyright = c.copyright ∨
        ∃ name text, c.copyrightFile = some name ∧
          files.read? (base.resolve name) = some text ∧ copyright = some text := by
  rw [copyrightOf]
  cases c.copyrightFile with
  | none => simp [eq_comm]
  | some name =>
    cases hread : files.read? (base.resolve name) <;> simp [hread, eq_comm]

theorem copyrightOf_eq_error_iff {f : ConfigFault} : copyrightOf files base c = .error f ↔
    ∃ name, c.copyrightFile = some name ∧ files.read? (base.resolve name) = none ∧
      f = .noCopyrightFile (base.resolve name) := by
  rw [copyrightOf]
  cases c.copyrightFile with
  | none => simp
  | some name =>
    cases hread : files.read? (base.resolve name) <;> simp [hread, eq_comm]

theorem complete_eq_ok_iff : complete files base c = .ok config ↔
    ∃ copyright, copyrightOf files base c = .ok copyright ∧ config =
      { language := c.language.getD "default"
        searchPath := (c.searchPath.getD (.one "templates")).dirs.map base.resolve
        copyright
        lineWidth := c.lineWidth.getD (.ofNat 80)
        maxDepth := c.maxDepth.getD (.ofNat 32)
        debug := c.debug.getD false } := by
  cases h : copyrightOf files base c <;>
    simp [complete, h, bind, Except.bind, pure, Except.pure, eq_comm]

theorem complete_eq_error_iff {f : ConfigFault} :
    complete files base c = .error f ↔ copyrightOf files base c = .error f := by
  cases h : copyrightOf files base c <;>
    simp [complete, h, bind, Except.bind, pure, Except.pure]

theorem completes_of_says (hsaid : c.Says d) (h : complete files base c = .ok config) :
    config.Completes files base d := by
  obtain ⟨copyright, hcopyright, rfl⟩ := complete_eq_ok_iff.1 h
  rw [copyrightOf_eq_ok_iff] at hcopyright
  refine ⟨?_, ⟨c.searchPath.getD (.one "templates"), ?_, rfl⟩, ?_, ?_, ?_, ?_⟩
  · rw [← hsaid.language, Option.getD_map]
  · rw [← hsaid.searchPath]
    exact Option.getD_map SearchPath.data (.one "templates") c.searchPath
  · rw [← hsaid.copyright, ← hsaid.copyrightFile]
    rcases hcopyright with ⟨hfile, rfl⟩ | ⟨name, text, hfile, hread, rfl⟩
    · exact .inl ⟨by simp [hfile], rfl⟩
    · exact .inr ⟨name, text, by simp [hfile], hread, rfl⟩
  · rw [← hsaid.lineWidth, Option.getD_map]
  · rw [← hsaid.maxDepth, Option.getD_map]
  · rw [← hsaid.debug, Option.getD_map]

theorem isPositiveInteger_getD {o : Option Number} (ho : ∀ n ∈ o, n.IsPositiveInteger)
    {n : Number} (hn : n.IsPositiveInteger) : (o.getD n).IsPositiveInteger := by
  cases o with
  | none => exact hn
  | some m => exact ho m rfl

theorem usable_of_valid (hbase : base.Normal) (hvalid : c.Valid)
    (h : complete files base c = .ok config) : config.Usable := by
  obtain ⟨copyright, -, rfl⟩ := complete_eq_ok_iff.1 h
  refine ⟨?_, ?_, ?_, ?_⟩
  · exact isPositiveInteger_getD hvalid.lineWidth
      (Number.isPositiveInteger_ofNat (by decide) (by decide))
  · exact isPositiveInteger_getD hvalid.maxDepth
      (Number.isPositiveInteger_ofNat (by decide) (by decide))
  · have hdirs : (c.searchPath.getD (.one "templates")).dirs ≠ [] := by
      cases hp : c.searchPath with
      | none => exact List.cons_ne_nil _ _
      | some p => exact (hvalid.searchPath p hp).dirs_ne_nil
    simpa using hdirs
  · intro p hp cwd
    obtain ⟨dir, -, rfl⟩ := List.mem_map.1 hp
    exact (hbase.resolve dir).resolve_text cwd

theorem maxDepth_of_generator {languages : List Language} {g : Generator}
    (hg : config.generator files languages = .ok g) : g.maxDepth = config.maxDepth := by
  cases hsource : files.source (config.searchPath.map ({ path := · })) with
  | error e => simp [generator, hsource, bind, Except.bind] at hg
  | ok source =>
    simp only [generator, hsource, bind, Except.bind, Generator.create] at hg
    split at hg
    · cases hg
    · obtain rfl := Except.ok.inj hg
      rfl

/-- A generator lets some number of templates be nested, and at least one. -/
theorem Usable.exists_depth (h : config.Usable) {languages : List Language} {g : Generator}
    (hg : config.generator files languages = .ok g) :
    ∃ depth : ℕ, 0 < depth ∧ ∀ n : ℕ, g.maxDepth.atMost n = true ↔ depth ≤ n := by
  rw [maxDepth_of_generator hg]
  exact h.maxDepth.exists_atMost_iff

theorem complete_of_valid (hsaid : c.Says d) (hvalid : c.Valid) (hbase : base.Normal)
    (hreadable : Readable files base c) :
    (∃ name, c.copyrightFile = some name ∧ files.find? (base.resolve name) = none ∧
        complete files base c = .error (.noCopyrightFile (base.resolve name))) ∨
      ∃ config, complete files base c = .ok config ∧ config.Completes files base d ∧
        config.Usable := by
  cases h : complete files base c with
  | error f =>
    obtain ⟨name, hname, hread, rfl⟩ := copyrightOf_eq_error_iff.1 (complete_eq_error_iff.1 h)
    refine .inl ⟨name, hname, Option.eq_none_iff_forall_ne_some.2 fun t ht => ?_, rfl⟩
    obtain ⟨text, rfl⟩ := hreadable name t hname ht
    rw [FileTree.read?, ht] at hread
    cases hread
  | ok config =>
    exact .inr ⟨config, rfl, completes_of_says hsaid h, usable_of_valid hbase hvalid h⟩

/-- Data is accepted exactly if it is that of a configuration, and refused with an issue else. What
is accepted is completed from any directory, unless the file with the copyright text is missing. -/
theorem accepted_usable (d : Data) :
    ((∃ c, ConfigFile.ofData d = .ok c) ↔ ConfigFile.Acceptable d) ∧
      (¬ ConfigFile.Acceptable d →
        ∃ issues, issues ≠ [] ∧ ConfigFile.ofData d = .error (.invalid issues)) ∧
      ∀ c, ConfigFile.ofData d = .ok c → c.Says d ∧
        ∀ (files : FileTree) (base : AbsolutePath), base.Normal → Readable files base c →
          (∃ name, c.copyrightFile = some name ∧ files.find? (base.resolve name) = none ∧
              complete files base c = .error (.noCopyrightFile (base.resolve name))) ∨
            ∃ config, complete files base c = .ok config ∧ config.Completes files base d ∧
              config.Usable := by
  have hiff := ConfigFile.exists_ofData_eq_ok_iff (d := d)
  refine ⟨hiff, fun hd => ?_, fun c hc => ?_⟩
  · cases h : ConfigFile.ofData d with
    | ok c => exact absurd (hiff.1 ⟨c, h⟩) hd
    | error f =>
      obtain ⟨issues, hne, rfl⟩ := ConfigFile.exists_issue h
      exact ⟨issues, hne, rfl⟩
  · obtain ⟨-, hsaid, hvalid⟩ := ConfigFile.ofData_eq_ok_iff.1 hc
    exact ⟨hsaid, fun files base hbase => complete_of_valid hsaid hvalid hbase⟩

/-- A path that leads back, a file with the copyright text, once without it; a limit that is no
integer. -/
theorem accepted_usable_notice :
    let refused : Data := .object [("maxDepth", .number (.ofRatio false 1 2))]
    let d : Data := .object [("language", .string "java"), ("debug", .missing),
      ("searchPath", .array [.string "templates", .string "/shared/../common/"]),
      ("copyrightFile", .string "NOTICE"), ("lineWidth", .number (.ofNat 100))]
    let c : ConfigFile := {
      language := some "java"
      searchPath := some (.many ["templates", "/shared/../common/"])
      copyrightFile := some "NOTICE"
      lineWidth := some (.ofNat 100) }
    let base := AbsolutePath.ofText "/work"
    let files := FileTree.ofFiles base [("NOTICE", some "All rights reserved")]
    ¬ ConfigFile.Acceptable refused ∧
      (∃ issues, issues ≠ [] ∧ ConfigFile.ofData refused = .error (.invalid issues)) ∧
      ConfigFile.Acceptable d ∧ ConfigFile.ofData d = .ok c ∧ base.Normal ∧
      complete .empty base c = .error (.noCopyrightFile ⟨["work", "NOTICE"]⟩) ∧
      ∃ config, complete files base c = .ok config ∧ config.Completes files base d ∧
        config.Usable := by
  intro refused d c base files
  have hrefused : ConfigFile.ofData refused =
      .error (.invalid [⟨["maxDepth"], .wrongType "integer" "float"⟩]) := rfl
  have hnot : ¬ ConfigFile.Acceptable refused := by
    rw [← (accepted_usable refused).1, hrefused]
    rintro ⟨c, hc⟩
    cases hc
  have hd : ConfigFile.ofData d = .ok c := rfl
  have hbase : base.Normal := AbsolutePath.normal_ofText _
  obtain ⟨hiff, -, haccepted⟩ := accepted_usable d
  obtain ⟨-, hcomplete⟩ := haccepted c hd
  refine ⟨hnot, (accepted_usable refused).2.1 hnot, hiff.1 ⟨c, hd⟩, hd, hbase, ?_, ?_⟩
  · have hreadable : Readable .empty base c := by
      rintro name t hname ht
      obtain rfl := Option.some.inj hname
      cases ht
    rcases hcomplete .empty base hbase hreadable with ⟨name, hname, -, h⟩ | ⟨config, h, -⟩
    · obtain rfl := Option.some.inj hname
      exact h
    · cases h
  · have hreadable : Readable files base c := by
      rintro name t hname ht
      obtain rfl := Option.some.inj hname
      exact ⟨_, (Option.some.inj ht).symm⟩
    rcases hcomplete files base hbase hreadable with ⟨name, hname, hnone, -⟩ | h
    · obtain rfl := Option.some.inj hname
      cases hnone
    · exact h

end CodeTemplate.Config

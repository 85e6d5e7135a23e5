import CodeTemplate.Proofs.Generator.Journal

/-! The stream of events. Each rendering tells the templates that it loads and then its result;
whatever generators on one source do with one cache, between two times that the cache is cleared
the template of a key is parsed once, and before it is taken from the cache. -/

namespace CodeTemplate
namespace Generator

open CodeTemplate.Action

variable {g : Generator} {s : Store}

/-! ### Tasks -/

/-- The events of a rendering with the result: those of the templates that it loads, in order, and
one that tells the length of the text, or the kind and the message of the error. -/
def Block (g : Generator) (root : Root) (frame : Frame) (s : Store)
    (r : Except TemplateError String) (es : List Event) : Prop :=
  (g.journal root frame s).1 = r ∧
    ∃ loads last, es = loads ++ [last] ∧
      loads.map Event.parsed? = (g.loads root frame s).map some ∧
      (∀ text, r = .ok text → last = .rendered root.title (Text.units text)) ∧
      ∀ e, r = .error e → last = .failed root.title e.cause.kind e.message

/-- The events of renderings one after the other. -/
inductive Blocks (g : Generator) :
    Store → List (String × Frame) → List (Except TemplateError String) → List Event → Prop
  | nil {s : Store} : Blocks g s [] [] []
  | cons {s t : Store} {name : String} {frame : Frame} {jobs : List (String × Frame)}
      {r : Except TemplateError String} {rs : List (Except TemplateError String)}
      {es fs : List Event} :
      exec (g.render name frame) s = (r, t) → Block g (.named name) frame s r es →
      Blocks g t jobs rs fs → Blocks g s ((name, frame) :: jobs) (r :: rs) (es ++ fs)

/-- The events of a task with the answer. -/
inductive Told (g : Generator) (s : Store) : Task → Answer → List Event → Prop
  | parsed {name key : String} {t : Template} {cached : Bool} :
      TemplateName.normalize name = .ok key →
      Told g s (.parse name) (.template (.ok t)) [.parsed key cached]
  | unparsed {name : String} {e : TemplateError} :
      Told g s (.parse name) (.template (.error e)) []
  | rendered {name : String} {frame : Frame} {r : Except TemplateError String}
      {es : List Event} :
      Block g (.named name) frame s r es → Told g s (.render name frame) (.text r) es
  | renderedText {text : String} {frame : Frame} {name : Option String}
      {r : Except TemplateError String} {es : List Event} :
      Block g (.ofText text name) frame s r es →
      Told g s (.renderText text frame name) (.text r) es
  | renderedAll {jobs : List (String × Frame)} {rs : List (Except TemplateError String)}
      {es : List Event} :
      Blocks g s jobs rs es → Told g s (.renderAll jobs) (.texts rs) es

theorem block_render (root : Root) (frame : Frame) (hs : s.cache.Consistent g.source) :
    ∃ es, Tells s (exec (root.render g frame) s).2 es ∧
      Block g root frame s (exec (root.render g frame) s).1 es := by
  obtain ⟨hrun, es, htells, hkeys⟩ := g.journal_spec root frame hs
  rw [Root.render_eq, exec_observed, hrun]
  refine ⟨es ++ [_], htells.tell ?_, rfl, es, _, rfl, hkeys, ?_, ?_⟩
  · cases (g.journal root frame s).1 <;> rfl
  · intro text h
    rw [h]
    rfl
  · intro e h
    rw [h]
    rfl

theorem blocks_renderAll (jobs : List (String × Frame)) (hs : s.cache.Consistent g.source) :
    ∃ es, Tells s ((g.renderAll jobs).run s).2 es ∧
      Blocks g s jobs ((g.renderAll jobs).run s).1 es := by
  induction jobs generalizing s with
  | nil => exact ⟨[], .refl s, .nil⟩
  | cons job jobs ih =>
    obtain ⟨name, frame⟩ := job
    obtain ⟨es, htells, hblock⟩ := block_render (.named name) frame hs
    obtain ⟨r, t, -, hx, -, ht, -, -, -⟩ := sameResult_render g name frame s s hs hs
    rw [Root.render, hx] at htells hblock
    obtain ⟨fs, htells', hblocks⟩ := ih ht
    rw [run_renderAll_cons, hx]
    exact ⟨es ++ fs, htells.trans htells', .cons hx hblock hblocks⟩

theorem told_parse (name : String) (hs : s.cache.Consistent g.source) :
    ∃ es, Tells s (g.perform (.parse name) s).2 es ∧
      Told g s (.parse name) (g.perform (.parse name) s).1 es := by
  simp only [perform, load, exec_bind, exec_key]
  cases hn : TemplateName.normalize name with
  | error f => exact ⟨[], .refl s, .unparsed⟩
  | ok key =>
    obtain ⟨t, hl, -, -⟩ := exec_loadKey g key none hs
    obtain ⟨es, htells, hkeys⟩ := tells_loadKey g key none hs
    rw [hl] at htells
    simp only [hl]
    refine ⟨es, htells, ?_⟩
    cases ht : g.source.parse key none with
    | error e =>
      obtain rfl : es = [] := by simpa [Source.has?_of_parse_error ht] using hkeys
      exact .unparsed
    | ok tree =>
      have hone : es.map Event.parsed? = [some key] := by
        simpa [Source.has?_of_parse_ok ht] using hkeys
      obtain ⟨e, rfl, he⟩ := List.map_eq_singleton_iff.1 hone
      cases e with
      | parsed k cached =>
        obtain rfl : k = key := by simpa [Event.parsed?] using he
        exact .parsed hn
      | rendered | failed => simp [Event.parsed?] at he

/-- Each task tells its events. -/
theorem told_perform (task : Task) (hs : s.cache.Consistent g.source) :
    ∃ es, Tells s (g.perform task s).2 es ∧ Told g s task (g.perform task s).1 es := by
  cases task with
  | parse name => exact told_parse name hs
  | render name frame =>
    obtain ⟨es, htells, hblock⟩ := block_render (.named name) frame hs
    exact ⟨es, htells, .rendered hblock⟩
  | renderText text frame name =>
    obtain ⟨es, htells, hblock⟩ := block_render (.ofText text name) frame hs
    exact ⟨es, htells, .renderedText hblock⟩
  | renderAll jobs =>
    obtain ⟨es, htells, hblocks⟩ := blocks_renderAll jobs hs
    exact ⟨es, htells, .renderedAll hblocks⟩

/-! ### Tasks one after the other -/

/-- What can be done with a store: a generator's task, or clearing the cache. -/
inductive Operation where
  | task (g : Generator) (task : Task)
  | clear

namespace Operation

def run : Operation → Store → Store
  | task g t, s => (g.perform t s).2
  | clear, s => { s with cache := [] }

def runAll (ops : List Operation) (s : Store) : Store := ops.foldl (fun s op => op.run s) s

/-- The operation is none of a generator on another source. -/
def On (source : Source) : Operation → Prop
  | task g _ => g.source = source
  | clear => True

variable {source : Source} {ops : List Operation}

theorem runAll_append (ops more : List Operation) (s : Store) :
    runAll (ops ++ more) s = runAll more (runAll ops s) :=
  List.foldl_append

theorem consistent_run {op : Operation} (h : op.On source) (hs : s.cache.Consistent source) :
    (op.run s).cache.Consistent source := by
  cases op with
  | task g task =>
    obtain rfl : g.source = source := h
    exact (perform_spec g task hs hs).2.1
  | clear => exact Cache.consistent_nil source

theorem consistent_runAll (h : ∀ op ∈ ops, op.On source) (hs : s.cache.Consistent source) :
    (runAll ops s).cache.Consistent source := by
  induction ops generalizing s with
  | nil => exact hs
  | cons op ops ih =>
    obtain ⟨hop, hops⟩ := List.forall_mem_cons.1 h
    exact ih hops (consistent_run hop hs)

/-- Tasks tell their events one after the other. -/
theorem tells_runAll (h : ∀ op ∈ ops, op.On source) (hclear : clear ∉ ops)
    (hs : s.cache.Consistent source) : ∃ es, Tells s (runAll ops s) es := by
  induction ops generalizing s with
  | nil => exact ⟨[], .refl s⟩
  | cons op ops ih =>
    obtain ⟨hop, hops⟩ := List.forall_mem_cons.1 h
    rw [List.mem_cons, not_or] at hclear
    obtain ⟨es, htells⟩ := ih hops hclear.2 (consistent_run hop hs)
    cases op with
    | task g task =>
      obtain rfl : g.source = source := hop
      obtain ⟨fs, htold, -⟩ := told_perform task hs
      exact ⟨fs ++ es, htold.trans htells⟩
    | clear => exact absurd rfl hclear.1

/-- The cache is empty at the start and where it was just cleared. -/
theorem cache_runAll_eq_nil (hs : s.cache = []) (h : ops = [] ∨ ops.getLast? = some clear) :
    (runAll ops s).cache = [] := by
  rcases h with rfl | h
  · exact hs
  · obtain ⟨before, rfl⟩ := List.getLast?_eq_some_iff.1 h
    rw [runAll_append]
    rfl

end Operation

open Operation (runAll)

/-- The events of generators on one source that use one cache, empty at first and cleared at any
time. Each task adds its own events to those before it; and from when the cache is empty until it is
cleared, the template of a key is parsed at most once, and before it is taken from the cache. -/
theorem events_of_operations {source : Source} {ops : List Operation}
    (h : ∀ op ∈ ops, op.On source) {s : Store} (hs : s.cache = []) :
    (∀ before g task after, ops = before ++ .task g task :: after →
      let found := runAll before s
      ∃ es, (g.perform task found).2.events = found.events ++ es ∧
        Told g found task (g.perform task found).1 es) ∧
      ∀ before tasks after, ops = before ++ (tasks ++ after) →
        before = [] ∨ before.getLast? = some .clear → .clear ∉ tasks →
        ∃ es, (runAll (before ++ tasks) s).events = (runAll before s).events ++ es ∧
          ParsedOnce es := by
  have hempty : s.cache.Consistent source := hs ▸ Cache.consistent_nil source
  constructor
  · rintro before g task after rfl found
    obtain ⟨hbefore, hafter⟩ := List.forall_mem_append.1 h
    obtain rfl : g.source = source := (List.forall_mem_cons.1 hafter).1
    obtain ⟨es, htells, htold⟩ :=
      told_perform task (Operation.consistent_runAll hbefore hempty)
    exact ⟨es, htells.events, htold⟩
  · rintro before tasks after rfl hstart hclear
    obtain ⟨hbefore, hrest⟩ := List.forall_mem_append.1 h
    obtain ⟨htasks, -⟩ := List.forall_mem_append.1 hrest
    obtain ⟨es, htells⟩ := Operation.tells_runAll htasks hclear
      (Operation.consistent_runAll hbefore hempty)
    -- Where the tasks start no key is known, so their flags are those of their events alone.
    have hkeys : (runAll before s).keys = [] := by
      rw [Store.keys, Operation.cache_runAll_eq_nil hs hstart]
      rfl
    exact ⟨es, by rw [Operation.runAll_append, htells.events],
      (hkeys ▸ htells.flagged).parsedOnce⟩

/-- A template that may call no other, the same one in a batch with a job that fails, and a template
that is parsed again since the cache was cleared. -/
theorem events_of_operations_cleared :
    let g : Generator := ⟨[("page.tmpl", "<\x7b% call_template item %\x7d>"), ("item.tmpl", "x")],
      Language.builtin, Language.default, none, Number.ofNat 80, Number.ofNat 32⟩
    let refused := Operation.task { g with maxDepth := Number.ofNat 1 } (.render "page" [])
    let batch := Task.renderAll [("page", []), ("missing", [])]
    let cleared := [.clear, Operation.task g (.parse "item")]
    let ops := [refused, .task g batch] ++ cleared
    (∀ op ∈ ops, op.On g.source) ∧
      (runAll ops {}).events =
        [.parsed "page.tmpl" false,
          .failed "page" "TemplateCycleError"
            "Template nesting exceeds maximum depth of 1 in page.tmpl at line 1, column 2",
          .parsed "page.tmpl" true, .parsed "item.tmpl" false, .rendered "page" 3,
          .failed "missing" "TemplateNotFoundError" "Template not found: missing.tmpl",
          .parsed "item.tmpl" false] ∧
      (∃ es, (g.perform batch (runAll [refused] {})).2.events =
          (runAll [refused] {}).events ++ es ∧
        Told g (runAll [refused] {}) batch (g.perform batch (runAll [refused] {})).1 es) ∧
      ParsedOnce (runAll [refused, .task g batch] {}).events := by
  intro g refused batch cleared ops
  have hops : ∀ op ∈ ops, op.On g.source := by
    simp [ops, cleared, refused, Operation.On]
  obtain ⟨htold, honce⟩ := events_of_operations hops (s := {}) rfl
  obtain ⟨es, hes, hparsed⟩ := honce [] [refused, .task g batch] cleared rfl (.inl rfl)
    (by simp [refused])
  have hfirst : (runAll [refused, .task g batch] {}).events = es := hes
  exact ⟨hops, by decide +kernel, htold [refused] g batch cleared rfl, hfirst ▸ hparsed⟩

end Generator
end CodeTemplate

import CodeTemplate.Proofs.Render.Congruence

/-! Rendering with collectors. The nodes are gone through with the language in effect and a stack of
collectors at hand, one for each parameter list around them; a parameter emits no text and hands its
own to the innermost collector. This does what the rendering does that passes parameters up. -/

namespace CodeTemplate
namespace Render

open CodeTemplate.Action

/-- The texts of the parameters of one list. -/
structure Collector where
  entries : List String := []
  grouped : List String := []

namespace Collector

def add (k : Collector) (grouped : Bool) (text : String) : Collector :=
  if grouped then { k with grouped := k.grouped ++ [text] }
  else { k with entries := k.entries ++ [text] }

/-- The text of a parameter list: the entries, and the grouped ones together at the end. -/
def text (k : Collector) (group : Group) : String :=
  let last :=
    if k.grouped.isEmpty then [] else [group.opening ++ ", ".intercalate k.grouped ++ group.closing]
  "(" ++ ", ".intercalate (k.entries ++ last) ++ ")"

end Collector

/-- A parameter whose body has been rendered: how many lists were around it, and the text. -/
structure Executed where
  depth : Nat
  grouped : Bool
  text : String

/-- A state, the language in effect, the collectors of the lists that are being rendered, the
innermost first, and all parameters that have been rendered so far. -/
structure Collecting (σ : Type) where
  state : σ
  language : Language
  collectors : List Collector
  executed : List Executed

namespace Collecting

variable {σ α : Type}

/-- A computation with the state alone. -/
def lift (x : Action σ α) : Action (Collecting σ) α := fun t =>
  let (r, st) := x t.state
  (r, { t with state := st })

def current : Action (Collecting σ) Language := fun t => (.ok t.language, t)

def switch (l : Language) : Action (Collecting σ) Unit := fun t =>
  (.ok (), { t with language := l })

/-- Hands the text of a parameter to the innermost collector, unless it is blank. -/
def record (grouped : Bool) (text : String) : Action (Collecting σ) Unit := fun t =>
  let collectors := match t.collectors with
    | [] => []
    | k :: ks => (if Text.trim text = "" then k else k.add grouped (Text.trim text)) :: ks
  (.ok (), { t with
    collectors
    executed := t.executed ++ [⟨t.collectors.length, grouped, text⟩] })

/-- A computation with a new collector, which is taken off the stack even if the computation
fails. -/
def collect (x : Action (Collecting σ) α) : Action (Collecting σ) Collector := fun t =>
  let (r, u) := x { t with collectors := {} :: t.collectors }
  (r.map fun _ => u.collectors.headD {}, { u with collectors := u.collectors.tail })

theorem exec_lift (x : Action σ α) (t : Collecting σ) :
    exec (lift x) t = ((exec x t.state).1, { t with state := (exec x t.state).2 }) := rfl

@[simp] theorem exec_current (t : Collecting σ) : exec current t = (.ok t.language, t) := rfl

@[simp] theorem exec_switch (l : Language) (t : Collecting σ) :
    exec (switch l) t = (.ok (), { t with language := l }) := rfl

theorem exec_collect_ok {x : Action (Collecting σ) α} {t u : Collecting σ} {a : α}
    (h : exec x { t with collectors := {} :: t.collectors } = (.ok a, u)) :
    exec (collect x) t =
      (.ok (u.collectors.headD {}), { u with collectors := u.collectors.tail }) := by
  change (_, _) = _
  simp only [exec] at h
  simp [h, Except.map]

theorem exec_collect_error {x : Action (Collecting σ) α} {t u : Collecting σ} {e : TemplateError}
    (h : exec x { t with collectors := {} :: t.collectors } = (.error e, u)) :
    exec (collect x) t = (.error e, { u with collectors := u.collectors.tail }) := by
  change (_, _) = _
  simp only [exec] at h
  simp [h, Except.map]

end Collecting

open Collecting (lift current switch record collect)

variable {σ τ : Type}

/-- Renders the body for each item, from number `i` of `count` on. -/
def emitEach (body : Scope → Action (Collecting σ) String) (s : Scope) (item : String)
    (count : Nat) : Nat → List Value → Action (Collecting σ) String
  | _, [] => pure ""
  | i, v :: vs => do
    let a ← body (Scope.loopFrame item v i count :: s)
    let b ← emitEach body s item count (i + 1) vs
    return a ++ b

/-- A parameter list with a collector of its own. -/
def emitList (y : Action (Collecting σ) String) : Action (Collecting σ) String := do
  let k ← collect y
  let l ← current
  return k.text l.group

mutual

/-- Renders a node with the collectors of the lists around it. -/
def emit (c : Setting σ) (s : Scope) : Node → Action (Collecting σ) String
  | .text value => pure value
  | .inherited member => pure member.text
  | .variable path filters start => do
    let p : Position := ⟨c.template, start⟩
    let v ← resolve s path p
    let l ← current
    ofValue p (Filter.applyAll l c.width v filters)
  | .conditional condition thenBranch none start => do
    let v ← resolve s condition ⟨c.template, start⟩
    if v.isTrue then emitAll c s thenBranch else return ""
  | .conditional condition thenBranch (some elseBranch) start => do
    let v ← resolve s condition ⟨c.template, start⟩
    if v.isTrue then emitAll c s thenBranch else emitAll c s elseBranch
  | .loop item collection body start => do
    let p : Position := ⟨c.template, start⟩
    let v ← resolve s collection p
    let items ← ofValue p v.toItems
    emitEach (fun s => emitAll c s body) s item items.length 0 items
  | .filtered filters body start => do
    let text ← emitAll c s body
    let l ← current
    ofValue ⟨c.template, start⟩ (Filter.applyAll l c.width (.string text) filters)
  | .imports subject body start => do
    let _ ← resolve s subject ⟨c.template, start⟩
    emitAll c s body
  | .call template args start => do
    let p : Position := ⟨c.template, start⟩
    match c.call with
    | none => fail (.callsNothing template) p
    | some call =>
      let frame ← bindings s p [] args
      let l ← current
      lift (call template frame l p)
  | .docComment subject indent start => do
    let p : Position := ⟨c.template, start⟩
    let v ← resolve s subject p
    let description ← descriptionOf v p
    let l ← current
    return docCommentText l c.width indent description
  | .literal path start => do
    let p : Position := ⟨c.template, start⟩
    let v ← resolve s path p
    let l ← current
    ofValue p (l.literal v)
  | .parameterList body _ => emitList (emitAll c s body)
  | .parameter grouped body start => do
    match (← get).collectors with
    | [] => fail .parameterOutsideList ⟨c.template, start⟩
    | _ :: _ =>
      let text ← emitAll c s body
      record grouped text
      return ""
  | .language name start =>
    match c.languages.find? name with
    | some l => do
      switch l
      return ""
    | none => fail (.unknownLanguage name) ⟨c.template, start⟩
  | .copyright indent _ => do
    let l ← current
    return copyrightText l indent c.copyright

def emitAll (c : Setting σ) (s : Scope) : List Node → Action (Collecting σ) String
  | [] => pure ""
  | n :: ns => do
    let a ← emit c s n
    let b ← emitAll c s ns
    return a ++ b

end

/-! ### What is collected -/

/-- The entries that are grouped, or those that are not. -/
def textsOf (grouped : Bool) (entries : List Entry) : List String :=
  (entries.filter (·.grouped == grouped)).map (·.text)

/-- The collectors after the innermost one has been handed the entries. -/
def added (entries : List Entry) : List Collector → List Collector
  | [] => []
  | k :: ks => ⟨k.entries ++ textsOf false entries, k.grouped ++ textsOf true entries⟩ :: ks

/-- The entries of the parameters that were rendered with so many lists around them. -/
def entriesAt (depth : Nat) (executed : List Executed) : List Entry :=
  (executed.filter (·.depth == depth)).flatMap fun p => parameterEntries p.grouped p.text

theorem textsOf_append (grouped : Bool) (es es' : List Entry) :
    textsOf grouped (es ++ es') = textsOf grouped es ++ textsOf grouped es' := by
  simp [textsOf]

@[simp] theorem added_nil (ks : List Collector) : added [] ks = ks := by
  cases ks <;> simp [added, textsOf]

theorem added_cons (es : List Entry) (k : Collector) (ks : List Collector) :
    added es (k :: ks) =
      ⟨k.entries ++ textsOf false es, k.grouped ++ textsOf true es⟩ :: ks := rfl

theorem added_added (es es' : List Entry) (ks : List Collector) :
    added es' (added es ks) = added (es ++ es') ks := by
  cases ks <;> simp [added, textsOf_append]

@[simp] theorem length_added (es : List Entry) (ks : List Collector) :
    (added es ks).length = ks.length := by
  cases ks <;> simp [added]

@[simp] theorem isEmpty_added (es : List Entry) (ks : List Collector) :
    (added es ks).isEmpty = ks.isEmpty := by
  cases ks <;> simp [added]

@[simp] theorem tail_added (es : List Entry) (ks : List Collector) :
    (added es ks).tail = ks.tail := by
  cases ks <;> simp [added]

theorem entriesAt_append (depth : Nat) (ps qs : List Executed) :
    entriesAt depth (ps ++ qs) = entriesAt depth ps ++ entriesAt depth qs := by
  simp [entriesAt]

theorem entriesAt_eq_nil {depth : Nat} {ps : List Executed} (h : ∀ p ∈ ps, depth < p.depth) :
    entriesAt depth ps = [] := by
  have hnone : ps.filter (·.depth == depth) = [] := by
    refine List.filter_eq_nil_iff.2 fun p hp => ?_
    have := h p hp
    simp only [beq_iff_eq]
    omega
  simp [entriesAt, hnone]

/-- What is handed to the innermost collector is the entry of the parameter. -/
theorem exec_record (grouped : Bool) (text : String) (t : Collecting σ) :
    exec (record grouped text) t = (.ok (), { t with
      collectors := added (parameterEntries grouped text) t.collectors
      executed := t.executed ++ [⟨t.collectors.length, grouped, text⟩] }) := by
  have hadded : (match t.collectors with
      | [] => []
      | k :: ks => (if Text.trim text = "" then k else k.add grouped (Text.trim text)) :: ks) =
      added (parameterEntries grouped text) t.collectors := by
    cases t.collectors with
    | nil => rfl
    | cons k ks =>
      by_cases ht : Text.trim text = ""
      · simp [parameterEntries, ht]
      · cases grouped <;> simp [parameterEntries, ht, added, textsOf, Collector.add]
  rw [← hadded]
  rfl

/-- Of a list, the text that its collector has is the text of its entries. -/
theorem text_of_added (es : List Entry) (group : Group) :
    Collector.text ⟨textsOf false es, textsOf true es⟩ group = parameterListText group es := by
  simp [Collector.text, parameterListText, textsOf]

/-! ### Doing what a rendering says -/

/-- What is found with collectors, when something is rendered, starting from `t`. A failure may
leave texts in the innermost collector alone. -/
inductive Matches (t : Collecting σ) :
    Except TemplateError Output × σ → Except TemplateError String × Collecting σ → Prop
  | ok {out : Output} {st : σ} {new : List Executed} :
      entriesAt t.collectors.length new = out.entries →
      (∀ p ∈ new, t.collectors.length ≤ p.depth) →
      Matches t (.ok out, st)
        (.ok out.text, ⟨st, out.language, added out.entries t.collectors, t.executed ++ new⟩)
  | error {e : TemplateError} {u : Collecting σ} :
      u.collectors.length = t.collectors.length → u.collectors.tail = t.collectors.tail →
      Matches t (.error e, u.state) (.error e, u)

/-- Nothing is handed to a collector. -/
theorem Matches.silent (t : Collecting σ) (text : String) (l : Language) (st : σ) :
    Matches t (.ok ⟨text, l, []⟩, st) (.ok text, { t with state := st, language := l }) := by
  have h : Matches t (.ok ⟨text, l, []⟩, st)
      (.ok text, ⟨st, l, added [] t.collectors, t.executed ++ []⟩) :=
    .ok rfl (List.forall_mem_nil _)
  simpa using h

/-- A failure that leaves the collectors as they are. -/
theorem Matches.failed (t : Collecting σ) (e : TemplateError) (st : σ) :
    Matches t (.error e, st) (.error e, { t with state := st }) :=
  @Matches.error σ t e { t with state := st } rfl rfl

/-- With collectors the second computation does what the first one says. -/
def Realizes (inList : Bool) (l : Language) (x : Action σ Output)
    (y : Action (Collecting σ) String) : Prop :=
  ∀ t : Collecting σ, t.language = l → t.collectors.isEmpty = !inList →
    Matches t (exec x t.state) (exec y t)

variable {inList : Bool} {l : Language} {α : Type} {x : Action σ Output}
  {y : Action (Collecting σ) String}

theorem realizes_pure (text : String) :
    Realizes inList l (pure ⟨text, l, []⟩ : Action σ Output) (pure text) := by
  rintro t rfl _
  exact .silent t text t.language t.state

theorem realizes_fail (cause : Cause) (p : Position) :
    Realizes inList l (fail cause p : Action σ Output) (fail cause p) :=
  fun t _ _ => .failed t _ t.state

theorem realizes_current {k : Language → Action (Collecting σ) String}
    (h : Realizes inList l x (k l)) : Realizes inList l x (current >>= k) := by
  rintro t rfl ht
  have hk := h t rfl ht
  rwa [exec_bind_ok (Collecting.exec_current t)]

theorem realizes_switch (l' : Language) :
    Realizes inList l (pure ⟨"", l', []⟩ : Action σ Output) (do switch l'; return "") := by
  rintro t rfl _
  exact .silent t "" l' t.state

theorem realizes_lift (x : Action σ String) :
    Realizes inList l (do let text ← x; return ⟨text, l, []⟩) (lift x) := by
  rintro t rfl _
  rw [exec_bind, Collecting.exec_lift]
  rcases exec x t.state with ⟨e | text, st⟩
  · exact .failed t e st
  · exact .silent t text t.language st

/-- Computations that leave each state alone and have the same result in all of them. -/
def Settled (x : Action σ α) (y : Action τ α) : Prop :=
  ∃ r, (∀ s, exec x s = (r, s)) ∧ ∀ t, exec y t = (r, t)

def settled (σ τ : Type) : Congruence σ τ where
  rel := Settled
  pure a := ⟨.ok a, fun _ => rfl, fun _ => rfl⟩
  throw e _ := ⟨.error e, fun _ => rfl, fun _ => rfl⟩
  bind := by
    rintro α β x y f g ⟨r, hx, hy⟩ hf
    cases r with
    | error e => exact ⟨_, fun s => exec_bind_error (hx s), fun t => exec_bind_error (hy t)⟩
    | ok a =>
      obtain ⟨r, hf, hg⟩ := hf a
      exact ⟨r, fun s => (exec_bind_ok (hx s)).trans (hf s),
        fun t => (exec_bind_ok (hy t)).trans (hg t)⟩

theorem realizes_bind {x : Action σ α} {y : Action (Collecting σ) α} {f : α → Action σ Output}
    {g : α → Action (Collecting σ) String} (h : (settled σ (Collecting σ)).rel x y)
    (hf : ∀ a, Realizes inList l (f a) (g a)) : Realizes inList l (x >>= f) (y >>= g) := by
  obtain ⟨r, hx, hy⟩ := h
  intro t hl ht
  cases r with
  | error e =>
    rw [exec_bind_error (hx t.state), exec_bind_error (hy t)]
    exact .failed t e t.state
  | ok a =>
    rw [exec_bind_ok (hx t.state), exec_bind_ok (hy t)]
    exact hf a t hl ht

theorem realizes_settled {x : Action σ String} {y : Action (Collecting σ) String}
    (h : (settled σ (Collecting σ)).rel x y) :
    Realizes inList l (do let text ← x; return ⟨text, l, []⟩) y := by
  obtain ⟨r, hx, hy⟩ := h
  rintro t rfl _
  rw [exec_bind, hx, hy]
  cases r with
  | error e => exact .failed t e t.state
  | ok text => exact .silent t text t.language t.state

/-- Texts one after the other, the second one in the language that the first one leaves. -/
theorem realizes_append {x' : Language → Action σ Output} {y' : Action (Collecting σ) String}
    (h : Realizes inList l x y) (h' : ∀ l, Realizes inList l (x' l) y') :
    Realizes inList l (do let a ← x; let b ← x' a.language; return a.append b)
      (do let a ← y; let b ← y'; return a ++ b) := by
  intro t hl ht
  have hx := h t hl ht
  rw [exec_bind, exec_bind]
  generalize exec x t.state = r, exec y t = r' at hx
  cases hx with
  | error hlen htail => exact .error hlen htail
  | @ok a st new hnew hdepth =>
    let u : Collecting σ := ⟨st, a.language, added a.entries t.collectors, t.executed ++ new⟩
    have hy := h' a.language u rfl (by simp [u, ht])
    simp only
    rw [exec_bind, exec_bind]
    change Matches u (exec (x' a.language) st) (exec y' u) at hy
    generalize exec (x' a.language) st = r, exec y' u = r' at hy
    cases hy with
    | error hlen htail => exact .error (by simpa [u] using hlen) (by simpa [u] using htail)
    | @ok b st' more hmore hdepth' =>
      have hall : entriesAt t.collectors.length (new ++ more) = (a.append b).entries := by
        have hmore : entriesAt t.collectors.length more = b.entries := by simpa [u] using hmore
        rw [entriesAt_append, hnew, hmore]
        rfl
      have hle : ∀ p ∈ new ++ more, t.collectors.length ≤ p.depth := by
        refine List.forall_mem_append.2 ⟨hdepth, fun p hp => ?_⟩
        simpa [u] using hdepth' p hp
      have hm : Matches t (.ok (a.append b), st') _ := .ok hall hle
      simpa [u, Output.append, added_added] using hm

/-- A text that something is done to, in the language after it. -/
theorem realizes_filter (h : Realizes inList l x y) (p : Position)
    (f : Language → String → Except ValueFault String) :
    Realizes inList l (do let out ← x; let text ← ofValue p (f out.language out.text);
                          return { out with text })
      (do let text ← y; let l ← current; ofValue p (f l text)) := by
  intro t hl ht
  have hx := h t hl ht
  rw [exec_bind, exec_bind]
  generalize exec x t.state = r, exec y t = r' at hx
  cases hx with
  | error hlen htail => exact .error hlen htail
  | @ok out st new hnew hdepth =>
    simp only
    rw [exec_bind, exec_bind_ok (Collecting.exec_current _)]
    cases f out.language out.text with
    | error e =>
      exact @Matches.error σ t _ ⟨st, out.language, added out.entries t.collectors, _⟩
        (length_added _ _) (tail_added _ _)
    | ok text =>
      have hm : Matches t (.ok { out with text }, st) _ := .ok hnew hdepth
      exact hm

/-- What becomes of a parameter list: the collectors are the same after it, and the parameters that
have been rendered in it are those of the list itself and of lists in it. -/
inductive Lists (t : Collecting σ) :
    Except TemplateError Output × σ → Except TemplateError String × Collecting σ → Prop
  | ok {out : Output} {st : σ} {new : List Executed} :
      entriesAt (t.collectors.length + 1) new = out.entries →
      (∀ p ∈ new, t.collectors.length + 1 ≤ p.depth) →
      Lists t (.ok out, st) (.ok (parameterListText out.language.group out.entries),
        ⟨st, out.language, t.collectors, t.executed ++ new⟩)
  | error {e : TemplateError} {u : Collecting σ} :
      u.collectors = t.collectors → Lists t (.error e, u.state) (.error e, u)

theorem lists_of_realizes (h : Realizes true l x y) (t : Collecting σ) (hl : t.language = l) :
    Lists t (exec x t.state) (exec (emitList y) t) := by
  let t' : Collecting σ := { t with collectors := {} :: t.collectors }
  have hx : Matches t' (exec x t.state) (exec y t') := h t' hl rfl
  generalize exec x t.state = r, hr' : exec y t' = r' at hx
  cases hx with
  | @error e u hlen htail =>
    rw [emitList, exec_bind_error (Collecting.exec_collect_error hr')]
    exact @Lists.error σ t e { u with collectors := u.collectors.tail } htail
  | @ok out st new hnew hdepth =>
    rw [emitList, exec_bind_ok (Collecting.exec_collect_ok hr'),
      exec_bind_ok (Collecting.exec_current _)]
    have hm : Lists t (.ok out, st) (.ok _, _) := .ok hnew hdepth
    simpa [added_cons, text_of_added, t'] using hm

/-- To the list around it, a parameter list is a text without parameters. -/
theorem realizes_list (h : Realizes true l x y) :
    Realizes inList l
      (do let out ← x; return ⟨parameterListText out.language.group out.entries, out.language, []⟩)
      (emitList y) := by
  intro t hl _
  have hx := lists_of_realizes h t hl
  rw [exec_bind]
  generalize exec x t.state = r, exec (emitList y) t = r' at hx
  cases hx with
  | error hsame => exact .error (congrArg List.length hsame) (congrArg List.tail hsame)
  | @ok out st new hnew hdepth =>
    have hout : entriesAt t.collectors.length new = [] :=
      entriesAt_eq_nil fun p hp => Nat.lt_of_succ_le (hdepth p hp)
    have hm : Matches t
        (.ok ⟨parameterListText out.language.group out.entries, out.language, []⟩, st) _ :=
      .ok hout fun p hp => Nat.le_of_succ_le (hdepth p hp)
    simpa using hm

/-- A parameter hands its text to the list around it, after those in its body. -/
theorem realizes_parameter (h : Realizes true l x y) (grouped : Bool) :
    Realizes true l
      (do let out ← x;
          return ⟨"", out.language, out.entries ++ parameterEntries grouped out.text⟩)
      (do let text ← y; record grouped text; return "") := by
  intro t hl ht
  have hx := h t hl ht
  rw [exec_bind, exec_bind]
  generalize exec x t.state = r, exec y t = r' at hx
  cases hx with
  | error hlen htail => exact .error hlen htail
  | @ok out st new hnew hdepth =>
    let p : Executed := ⟨t.collectors.length, grouped, out.text⟩
    have hall : entriesAt t.collectors.length (new ++ [p]) =
        out.entries ++ parameterEntries grouped out.text := by
      rw [entriesAt_append, hnew]
      simp [entriesAt, p]
    have hle : ∀ q ∈ new ++ [p], t.collectors.length ≤ q.depth :=
      List.forall_mem_append.2 ⟨hdepth, by simp [p]⟩
    have hm : Matches t
        (.ok ⟨"", out.language, out.entries ++ parameterEntries grouped out.text⟩, st) _ :=
      .ok hall hle
    simp only
    rw [exec_bind_ok (exec_record _ _ _)]
    simpa [added_added, p] using hm

theorem realizes_eachItem {body : Scope → Language → Action σ Output}
    {body' : Scope → Action (Collecting σ) String}
    (h : ∀ s l, Realizes inList l (body s l) (body' s)) (s : Scope) (item : String)
    (count i : Nat) (vs : List Value) (l : Language) :
    Realizes inList l (eachItem body s item count i vs l) (emitEach body' s item count i vs) := by
  induction vs generalizing i l with
  | nil => exact realizes_pure ""
  | cons v vs ih => exact realizes_append (h _ l) (ih _)

mutual

theorem realizes_node (c : Setting σ) (n : Node) (s : Scope) (inList : Bool) (l : Language) :
    Realizes inList l (node c s inList l n) (emit c s n) := by
  have hresolve := rel_resolve (settled σ (Collecting σ)) s
  have hvalue : ∀ {β : Type} (p : Position) (v : Except ValueFault β),
      (settled σ (Collecting σ)).rel (ofValue p v) (ofValue p v) :=
    rel_ofValue (settled σ (Collecting σ))
  cases n with
  | text value =>
    simp only [node, emit]
    exact realizes_pure value
  | inherited member =>
    simp only [node, emit]
    exact realizes_pure member.text
  | «variable» path filters start =>
    simp only [node, emit]
    exact realizes_bind (hresolve _ _) fun v => realizes_current (realizes_settled (hvalue _ _))
  | conditional condition thenBranch elseBranch start =>
    cases elseBranch with
    | none =>
      simp only [node, emit]
      refine realizes_bind (hresolve _ _) fun v => ?_
      split
      · exact realizes_nodes c thenBranch s inList l
      · exact realizes_pure ""
    | some elseBranch =>
      simp only [node, emit]
      refine realizes_bind (hresolve _ _) fun v => ?_
      split
      · exact realizes_nodes c thenBranch s inList l
      · exact realizes_nodes c elseBranch s inList l
  | loop item collection body start =>
    simp only [node, emit]
    refine realizes_bind (hresolve _ _) fun v => realizes_bind (hvalue _ _) fun items => ?_
    exact realizes_eachItem (fun s l => realizes_nodes c body s inList l) s item _ _ items l
  | filtered filters body start =>
    simp only [node, emit]
    exact realizes_filter (realizes_nodes c body s inList l) _
      fun l text => Filter.applyAll l c.width (.string text) filters
  | imports subject body start =>
    simp only [node, emit]
    exact realizes_bind (hresolve _ _) fun _ => realizes_nodes c body s inList l
  | call template args start =>
    simp only [node, emit]
    cases c.call with
    | none => exact realizes_fail _ _
    | some f =>
      refine realizes_bind (rel_bindings _ s _ args []) fun frame => ?_
      exact realizes_current (realizes_lift _)
  | docComment subject indent start =>
    simp only [node, emit]
    refine realizes_bind (hresolve _ _) fun v => realizes_bind (rel_descriptionOf _ v _) fun d => ?_
    exact realizes_current (realizes_pure _)
  | literal path start =>
    simp only [node, emit]
    exact realizes_bind (hresolve _ _) fun v => realizes_current (realizes_settled (hvalue _ _))
  | parameterList body start =>
    simp only [node, emit]
    exact realizes_list (realizes_nodes c body s true l)
  | parameter grouped body start =>
    intro t hl ht
    simp only [node, emit]
    rw [exec_bind, exec_get]
    cases inList with
    | false =>
      have hnil : t.collectors = [] := by simpa using ht
      simp only [hnil]
      exact realizes_fail _ _ t hl ht
    | true =>
      obtain ⟨k, ks, hks⟩ : ∃ k ks, t.collectors = k :: ks :=
        List.exists_cons_of_ne_nil (by simpa using ht)
      simp only [hks]
      exact realizes_parameter (realizes_nodes c body s true l) grouped t hl ht
  | language name start =>
    simp only [node, emit]
    cases c.languages.find? name with
    | none => exact realizes_fail _ _
    | some l' => exact realizes_switch l'
  | copyright indent start =>
    simp only [node, emit]
    exact realizes_current (realizes_pure _)

/-- The induction is on the nodes; what a node leaves in the innermost collector stays there while
those after it are rendered. -/
theorem realizes_nodes (c : Setting σ) (ns : List Node) (s : Scope) (inList : Bool)
    (l : Language) : Realizes inList l (nodes c s inList l ns) (emitAll c s ns) := by
  cases ns with
  | nil =>
    simp only [nodes, emitAll]
    exact realizes_pure ""
  | cons n ns =>
    simp only [nodes, emitAll]
    exact realizes_append (realizes_node c n s inList l) (realizes_nodes c ns s inList)

end

end Render
end CodeTemplate

import CodeTemplate.Proofs.Markup.Bracket
import CodeTemplate.Proofs.Markup.Derivation

/-! How far reading looks. In bracketed tokens no reader looks behind the tag that it is in: what it
gives, or the token that it fails at, is the same whatever comes after the tag. -/

namespace CodeTemplate

/-- The faults that bracketed tokens can have in a tag. -/
def ParseFault.InTag : ParseFault → Prop
  | .missingValue _ | .strayToken _ | .wrongEnd .. | .unclosed _ => False
  | _ => True

/-- The fault is one that the reader guards against, but no text has: a token lacks the value of its
kind, a token starts nothing, or a block has ended at a tag that is not its own. -/
def ParseFault.Internal : ParseFault → Prop
  | .missingValue _ | .strayToken _ | .wrongEnd .. => True
  | _ => False

theorem ParseFault.InTag.not_internal {f : ParseFault} (h : f.InTag) : ¬ f.Internal := by
  cases f with
  | missingValue | strayToken | wrongEnd => exact absurd h not_false
  | _ => exact not_false

namespace Parser

open Grammar (IsIdent)

variable {α β : Type} {own : List Token} {stop t : Token} {ts : List Token}

/-- A reading as a function of the tokens behind: it fails at one of `own`, or it gives something
that has the property; what is behind does not matter. -/
inductive Local (own : List Token) (P : (List Token → α) → Prop) (x : List Token → Outcome α) :
    Prop
  | fails {t : Token} {f : ParseFault} :
      t ∈ own → f.InTag → (∀ more, x more = fail t f) → Local own P x
  | gives {g : List Token → α} : P g → (∀ more, x more = .ok (g more)) → Local own P x

/-- The tokens are what is left of a tag that `stop` closes. -/
structure Left (own : List Token) (stop : Token) (ts : List Token) : Prop where
  closes : stop.kind = .blockClose ∨ stop.kind = .varClose
  mem : stop ∈ own
  inner : ∀ t ∈ ts, t.Inner ∧ t ∈ own

/-- Something was read, and what is left of the tag is still there. -/
def Leaves (own : List Token) (stop : Token) (g : List Token → α × List Token) : Prop :=
  ∃ a rest, Left own stop rest ∧ ∀ more, g more = (a, rest ++ stop :: more)

/-- Something with the property was read, up to the end of the tag. -/
def Ended (P : α → Prop) (g : List Token → α × List Token) : Prop :=
  ∃ a, P a ∧ ∀ more, g more = (a, more)

theorem Left.tail (h : Left own stop (t :: ts)) : Left own stop ts :=
  { h with inner := fun u hu => h.inner u (List.mem_cons_of_mem t hu) }

theorem Left.head (h : Left own stop (t :: ts)) : t.Inner ∧ t ∈ own := h.inner t List.mem_cons_self

theorem Left.stop_ne {k : TokenKind} (h : Left own stop ts) (hb : k ≠ .blockClose)
    (hv : k ≠ .varClose) : stop.kind ≠ k := by
  rintro rfl
  exact h.closes.elim hb hv

/-- There is a first token, whatever comes behind the tag. -/
theorem Left.exists_first (h : Left own stop ts) :
    ∃ t ∈ own, ∀ more, (ts ++ stop :: more).headD noToken = t := by
  cases ts with
  | nil => exact ⟨stop, h.mem, fun _ => rfl⟩
  | cons t ts => exact ⟨t, h.head.2, fun _ => rfl⟩

theorem Local.bind {P : (List Token → α) → Prop} {Q : (List Token → β) → Prop}
    {x : List Token → Outcome α} {f : α → Outcome β} (h : Local own P x)
    (hf : ∀ g, P g → Local own Q fun more => f (g more)) :
    Local own Q fun more => x more >>= f := by
  cases h with
  | fails ht hp hx => exact .fails ht hp fun more => by simp [hx, fail, Bind.bind, Except.bind]
  | gives hg hx =>
    simp only [hx]
    exact hf _ hg

theorem Local.andThen {Q : (List Token → β) → Prop} {x : List Token → Outcome (α × List Token)}
    {f : α × List Token → Outcome β} (h : Local own (Leaves own stop) x)
    (hf : ∀ a rest, Left own stop rest → Local own Q fun more => f (a, rest ++ stop :: more)) :
    Local own Q fun more => x more >>= f := by
  refine h.bind ?_
  rintro g ⟨a, rest, hr, hg⟩
  simp only [hg]
  exact hf a rest hr

theorem Local.map {P : (List Token → α) → Prop} {Q : (List Token → β) → Prop}
    {x : List Token → Outcome α} {f : α → β} (h : Local own P x)
    (hf : ∀ g, P g → Q fun more => f (g more)) : Local own Q fun more => (x more).map f := by
  cases h with
  | fails ht hp hx => exact .fails ht hp fun more => by simp [hx, fail, Except.map]
  | gives hg hx => exact .gives (hf _ hg) fun more => by simp [hx, Except.map]

/-! ### One token -/

/-- What can be read of one token: it is an identifier and gives something, or it is to blame. -/
def Single (t : Token) (x : Outcome α) : Prop :=
  t.kind = .ident ∧ (∃ a, x = .ok a) ∨ ∃ f : ParseFault, f.InTag ∧ x = fail t f

/-- An identifier has a text. -/
def Known (t : Token) : Prop := t.kind = .ident → ∃ value, t.value = some value

theorem Left.known (h : Left own stop (t :: ts)) : Known t := fun _ => h.head.1.2

theorem Left.stop_known (h : Left own stop ts) : Known stop :=
  fun hk => absurd hk (h.stop_ne (by simp) (by simp))

theorem single_identOf (ht : Known t) (what : String) : Single t (identOf what t) := by
  by_cases hk : t.kind = .ident
  · obtain ⟨value, hv⟩ := ht hk
    exact .inl ⟨hk, value, by simp [identOf, valueOf, hk, hv]⟩
  · exact .inr ⟨.expected what t.kind, trivial, by simp [identOf, hk]⟩

theorem Single.bind {x : Outcome α} {f : α → Outcome β} (h : Single t x)
    (hf : ∀ a, t.kind = .ident → Single t (f a)) : Single t (x >>= f) := by
  rcases h with ⟨hk, a, rfl⟩ | ⟨f, hp, rfl⟩
  · exact hf a hk
  · exact .inr ⟨f, hp, rfl⟩

theorem single_filterOf (ht : Known t) : Single t (filterOf t) := by
  refine (single_identOf ht "filter name").bind fun name hk => ?_
  cases Filter.ofName? name with
  | some f => exact .inl ⟨hk, f, rfl⟩
  | none => exact .inr ⟨.unknownFilter name, trivial, rfl⟩

theorem single_segment (sign : Token) (ht : Known t) : Single t (segment sign t) :=
  (single_identOf ht "template name segment").bind fun _ hk => .inl ⟨hk, _, rfl⟩

/-- What cannot be read of the end of a tag is reported there. -/
theorem Left.single_stop (h : Left own stop ts) {x : Outcome α} (hx : Single stop x) :
    ∃ f : ParseFault, f.InTag ∧ x = fail stop f :=
  hx.resolve_left fun hk => h.stop_ne (by simp) (by simp) hk.1

theorem local_ident (what : String) (h : Left own stop ts) :
    Local own (Leaves own stop) fun more => ident what (ts ++ stop :: more) := by
  cases ts with
  | nil =>
    obtain ⟨f, hp, hf⟩ := h.single_stop (single_identOf h.stop_known what)
    exact .fails h.mem hp fun more => by simp [ident, hf, fail, Except.map]
  | cons t ts =>
    rcases single_identOf h.known what with ⟨-, s, hs⟩ | ⟨f, hp, hf⟩
    · exact .gives ⟨s, ts, h.tail, fun _ => rfl⟩ fun more => by simp [ident, hs, Except.map]
    · exact .fails h.head.2 hp fun more => by simp [ident, hf, fail, Except.map]

theorem local_kind {k : TokenKind} (hb : k ≠ .blockClose) (hv : k ≠ .varClose)
    (h : Left own stop ts) :
    Local own (Leaves own stop) fun more => kind k (ts ++ stop :: more) := by
  cases ts with
  | nil =>
    have hk := h.stop_ne hb hv
    exact .fails h.mem (f := .expected k.name stop.kind) trivial fun more => by simp [kind, hk]
  | cons t ts =>
    by_cases hk : t.kind = k
    · exact .gives ⟨(), ts, h.tail, fun _ => rfl⟩ fun more => by simp [kind, hk]
    · exact .fails h.head.2 (f := .expected k.name t.kind) trivial fun more => by simp [kind, hk]

theorem local_word (w : String) (h : Left own stop ts) :
    Local own (Leaves own stop) fun more => word w (ts ++ stop :: more) := by
  cases ts with
  | nil =>
    have hk := h.stop_ne (k := .ident) (by simp) (by simp)
    exact .fails h.mem (f := .expectedWord w (shown stop)) trivial fun more => by simp [word, hk]
  | cons t ts =>
    by_cases hk : t.kind = .ident ∧ t.value = some w
    · exact .gives ⟨(), ts, h.tail, fun _ => rfl⟩ fun more => by simp [word, hk]
    · exact .fails h.head.2 (f := .expectedWord w (shown t)) trivial fun more => by
        simp [word, hk]

/-- The end of the tag, where nothing more is left. -/
theorem local_close (tag : String) (hk : stop.kind = .blockClose) (h : Left own stop ts) :
    Local own (Ended fun _ => True) fun more => close tag (ts ++ stop :: more) := by
  cases ts with
  | nil => exact .gives ⟨(), trivial, fun _ => rfl⟩ fun more => by simp [close, hk]
  | cons t ts =>
    have hne : t.kind ≠ .blockClose := fun he => by simpa [he] using h.head.1.1
    exact .fails h.head.2 (f := .strayInTag (shown t) tag) trivial fun more => by simp [close, hne]

theorem local_varClose (hk : stop.kind = .varClose) (h : Left own stop ts) :
    Local own (Ended fun _ => True) fun more => kind .varClose (ts ++ stop :: more) := by
  cases ts with
  | nil => exact .gives ⟨(), trivial, fun _ => rfl⟩ fun more => by simp [kind, hk]
  | cons t ts =>
    have hne : t.kind ≠ .varClose := fun he => by simpa [he] using h.head.1.1
    exact .fails h.head.2 (f := .expected TokenKind.varClose.name t.kind) trivial fun more => by
      simp [kind, hne]

/-! ### Parts of tags -/

theorem separated_of_not {separates : TokenKind → Bool} {item : Token → Token → Outcome α}
    (h : separates t.kind = false) (ts : List Token) :
    separated separates item (t :: ts) = .ok ([], t :: ts) := by
  cases ts <;> simp [separated, h]

theorem separated_cons {separates : TokenKind → Bool} {item : Token → Token → Outcome α}
    (h : separates t.kind = true) (u : Token) (ts : List Token) :
    separated separates item (t :: u :: ts) =
      item t u >>= fun a => (separated separates item ts).map fun r => (a :: r.1, r.2) := by
  rw [separated, if_pos h]
  cases item t u with
  | error e => rfl
  | ok a => cases separated separates item ts <;> rfl

theorem local_separated {separates : TokenKind → Bool} {item : Token → Token → Outcome α}
    (hs : ∀ k, separates k = true → k ≠ .blockClose ∧ k ≠ .varClose)
    (hi : ∀ sign t, Known t → Single t (item sign t)) (h : Left own stop ts) :
    Local own (Leaves own stop) fun more => separated separates item (ts ++ stop :: more) := by
  have hstop : separates stop.kind = false := by
    refine Bool.eq_false_iff.2 fun hk => ?_
    exact h.closes.elim (hs _ hk).1 (hs _ hk).2
  -- The items are read two tokens at a time.
  induction hn : ts.length using Nat.strongRecOn generalizing ts with
  | ind n ih =>
  cases ts with
  | nil => exact .gives ⟨[], [], h, fun _ => rfl⟩ fun more => separated_of_not hstop more
  | cons sign ts =>
    by_cases hk : separates sign.kind = true
    · cases ts with
      | nil =>
        obtain ⟨f, hp, hf⟩ := h.single_stop (hi sign stop h.stop_known)
        refine .fails h.mem hp fun more => ?_
        simp [separated_cons hk, hf, fail, Bind.bind, Except.bind]
      | cons t ts =>
        simp only [List.cons_append, separated_cons hk]
        rcases hi sign t h.tail.known with ⟨-, a, ha⟩ | ⟨f, hp, hf⟩
        · subst hn
          have hlt : ts.length < (sign :: t :: ts).length := by
            simp only [List.length_cons]
            omega
          have hrest := ih ts.length hlt h.tail.tail rfl
          simp only [ha]
          refine hrest.map ?_
          rintro g ⟨as, rest, hr, hg⟩
          exact ⟨a :: as, rest, hr, fun more => by simp only [hg]⟩
        · exact .fails h.tail.head.2 hp fun more => by simp [hf, fail, Bind.bind, Except.bind]
    · have hk : separates sign.kind = false := by simpa using hk
      exact .gives ⟨[], sign :: ts, h, fun _ => rfl⟩ fun more => separated_of_not hk _

theorem local_pure {P : (List Token → α) → Prop} {g : List Token → α} (h : P g) :
    Local own P fun more => .ok (g more) :=
  .gives h fun _ => rfl

theorem local_path (h : Left own stop ts) :
    Local own (Leaves own stop) fun more => path (ts ++ stop :: more) := by
  refine (local_ident "identifier" h).andThen fun name rest hr => ?_
  refine (local_separated (by simp) (fun _ t ht => single_identOf ht _) hr).andThen
    fun attributes rest hr => ?_
  exact local_pure ⟨_, rest, hr, fun _ => rfl⟩

theorem local_moreFilters (h : Left own stop ts) :
    Local own (Leaves own stop) fun more => moreFilters (ts ++ stop :: more) :=
  local_separated (by simp) (fun _ _ ht => single_filterOf ht) h

theorem local_filters (h : Left own stop ts) :
    Local own (Leaves own stop) fun more => filters (ts ++ stop :: more) := by
  cases ts with
  | nil =>
    obtain ⟨f, hp, hf⟩ := h.single_stop (single_filterOf h.stop_known)
    exact .fails h.mem hp fun more => by simp [filters, hf, fail, Bind.bind, Except.bind]
  | cons t ts =>
    rcases single_filterOf h.known with ⟨-, f, hf⟩ | ⟨f, hp, hf⟩
    · simp only [List.cons_append, filters, hf]
      refine (local_moreFilters h.tail).andThen fun fs rest hr => ?_
      exact local_pure ⟨f :: fs, rest, hr, fun _ => rfl⟩
    · exact .fails h.head.2 hp fun more => by simp [filters, hf, fail, Bind.bind, Except.bind]

theorem local_variableNode (start : Location) (hk : stop.kind = .varClose) (h : Left own stop ts) :
    Local own (Ended fun _ => True) fun more => variableNode start (ts ++ stop :: more) := by
  refine (local_path h).andThen fun p rest hr => ?_
  refine (local_moreFilters hr).andThen fun fs rest hr => ?_
  refine (local_varClose hk hr).bind ?_
  rintro g ⟨u, -, hg⟩
  simp only [hg]
  exact local_pure ⟨_, trivial, fun _ => rfl⟩

/-- A name that is written without quotes, behind the slash that it may start with. -/
theorem local_segments (root : String) (h : Left own stop ts) :
    Local own (Leaves own stop) fun more => (do
      let (first, ts) ← ident "template name" (ts ++ stop :: more)
      let (segments, ts) ← separated isNameSign segment ts
      .ok (root ++ first ++ String.join segments, ts) : Outcome (String × List Token)) := by
  refine (local_ident "template name" h).andThen fun first rest hr => ?_
  refine (local_separated ?_ (fun sign _ ht => single_segment sign ht) hr).andThen
    fun segments rest hr => local_pure ⟨_, rest, hr, fun _ => rfl⟩
  intro k hk
  constructor <;> rintro rfl <;> simp [isNameSign] at hk

theorem local_writtenName (h : Left own stop ts) :
    Local own (Leaves own stop) fun more => writtenName (ts ++ stop :: more) := by
  cases ts with
  | nil =>
    have hs := h.stop_ne (k := .string) (by simp) (by simp)
    have hslash := h.stop_ne (k := .slash) (by simp) (by simp)
    simpa [writtenName, hs, hslash] using local_segments "" h
  | cons t ts =>
    by_cases hs : t.kind = .string
    · obtain ⟨value, hv⟩ := h.head.1.2
      exact .gives ⟨value, ts, h.tail, fun _ => rfl⟩ fun more => by
        simp [writtenName, hs, valueOf, hv, Except.map]
    · by_cases hslash : t.kind = .slash
      · simpa [writtenName, hslash] using local_segments "/" h.tail
      · simpa [writtenName, hs, hslash] using local_segments "" h

theorem local_templateName (h : Left own stop ts) :
    Local own (Leaves own stop) fun more => templateName (ts ++ stop :: more) := by
  obtain ⟨t, ht, hfirst⟩ := h.exists_first
  simp only [templateName, hfirst]
  refine (local_writtenName h).andThen fun name rest hr => ?_
  cases hf : TemplateName.fault? name with
  | some f => exact .fails ht (f := .badName f) trivial fun more => by simp [hf]
  | none =>
    simp only [hf]
    exact local_pure ⟨name, rest, hr, fun _ => rfl⟩

theorem local_pathValue (h : Left own stop ts) : Local own (Leaves own stop) fun more =>
    (path (ts ++ stop :: more)).map fun (p, rest) => (ArgumentValue.path p, rest) := by
  refine (local_path h).map ?_
  rintro g ⟨p, rest, hr, hg⟩
  exact ⟨.path p, rest, hr, fun more => by simp only [hg]⟩

theorem local_argumentValue (h : Left own stop ts) :
    Local own (Leaves own stop) fun more => argumentValue (ts ++ stop :: more) := by
  cases ts with
  | nil =>
    have hs := h.stop_ne (k := .string) (by simp) (by simp)
    simpa [argumentValue, hs] using local_pathValue h
  | cons t ts =>
    by_cases hs : t.kind = .string
    · obtain ⟨value, hv⟩ := h.head.1.2
      exact .gives ⟨.string value, ts, h.tail, fun _ => rfl⟩ fun more => by
        simp [argumentValue, hs, valueOf, hv, Except.map]
    · simpa [argumentValue, hs] using local_pathValue h

theorem argument_eq {seen : List Argument} {key : String} (hvalue : valueOf t = .ok key)
    (hseen : ¬ seen.any (·.key == key) = true) (us : List Token) :
    argument seen t us = (do
      let ((), us) ← kind .equal us
      let (value, us) ← argumentValue us
      .ok (⟨key, value⟩, us) : Outcome (Argument × List Token)) := by
  simp only [argument, hvalue]
  exact if_neg hseen

theorem local_argument (seen : List Argument) (h : Left own stop (t :: ts)) :
    Local own (Leaves own stop) fun more => argument seen t (ts ++ stop :: more) := by
  obtain ⟨key, hkey⟩ := h.head.1.2
  have hvalue : valueOf t = .ok key := by simp [valueOf, hkey]
  by_cases hseen : seen.any (·.key == key) = true
  · refine .fails h.head.2 (f := .duplicateArgument key) trivial fun more => ?_
    simp only [argument, hvalue]
    exact if_pos hseen
  · simp only [argument_eq hvalue hseen]
    refine (local_kind (by simp) (by simp) h.tail).andThen fun _ rest hr => ?_
    refine (local_argumentValue hr).andThen fun value rest hr => ?_
    exact local_pure ⟨⟨key, value⟩, rest, hr, fun _ => rfl⟩

theorem arguments_of_ne {seen : List Argument} (h : t.kind ≠ .ident) (ts : List Token) :
    arguments seen (t :: ts) = .ok (seen, t :: ts) := by
  rw [arguments, if_neg h]

theorem arguments_error {seen : List Argument} {e : Located ParseFault} (hk : t.kind = .ident)
    (h : argument seen t ts = .error e) : arguments seen (t :: ts) = .error e := by
  rw [arguments, if_pos hk]
  split
  · next e' he =>
    obtain rfl := Except.error.inj (he.symm.trans h)
    rfl
  · next b r hb => simp [hb] at h

/-- Each argument leaves less of the tag than there was before it. -/
theorem local_arguments (seen : List Argument) (h : Left own stop ts) :
    Local own (Leaves own stop) fun more => arguments seen (ts ++ stop :: more) := by
  induction hn : ts.length using Nat.strongRecOn generalizing seen ts with
  | ind n ih =>
  cases ts with
  | nil =>
    have hk := h.stop_ne (k := .ident) (by simp) (by simp)
    exact .gives ⟨seen, [], h, fun _ => rfl⟩ fun more => arguments_of_ne hk more
  | cons t ts =>
    by_cases hk : t.kind = .ident
    · cases local_argument seen h with
      | fails hu hp hf => exact .fails hu hp fun more => arguments_error hk (hf more)
      | gives hg ha =>
        obtain ⟨a, rest, hr, hg⟩ := hg
        simp only [hg] at ha
        have hle := (argument_suffix (ha [])).length_le
        have hlt : rest.length < n := by
          simp only [List.length_append, List.length_cons, List.length_nil] at hle hn
          omega
        have hstep : ∀ more, arguments seen (t :: ts ++ stop :: more) =
            arguments (seen ++ [a]) (rest ++ stop :: more) :=
          fun more => arguments_cons hk (ha more)
        simp only [hstep]
        exact ih _ hlt (seen ++ [a]) hr rfl
    · exact .gives ⟨seen, t :: ts, h, fun _ => rfl⟩ fun more => arguments_of_ne hk _

/-! ### Tags -/

/-- A tag that opens a block is that of the block. -/
def Tag.Named (name : String) : Tag → Prop
  | .node _ => True
  | .block header => header.tag = name

section Tags

variable {start : Token} {P : Tag → Prop}

theorem local_closeMap {name : String} {tag : Tag} (hP : P tag) (hk : stop.kind = .blockClose)
    (h : Left own stop ts) :
    Local own (Ended P) fun more => (close name (ts ++ stop :: more)).map fun r => (tag, r.2) := by
  refine (local_close name hk h).map ?_
  rintro g ⟨u, -, hg⟩
  exact ⟨tag, hP, fun more => by simp only [hg]⟩

theorem local_wholeTag {name : String} {n : Node} (hP : P (.node n)) (hk : stop.kind = .blockClose)
    (h : Left own stop ts) : Local own (Ended P) fun more => wholeTag name n (ts ++ stop :: more) :=
  local_closeMap hP hk h

theorem local_firstTag {header : Header} (hP : P (.block header)) (hk : stop.kind = .blockClose)
    (h : Left own stop ts) :
    Local own (Ended P) fun more => firstTag header (ts ++ stop :: more) :=
  local_closeMap hP hk h

theorem local_pathTag {f : Path → List Token → Outcome (Tag × List Token)}
    (hf : ∀ p rest, Left own stop rest → Local own (Ended P) fun more => f p (rest ++ stop :: more))
    (h : Left own stop ts) :
    Local own (Ended P) fun more => pathTag (ts ++ stop :: more) f :=
  (local_path h).andThen hf

theorem local_loopTag (hk : stop.kind = .blockClose) (h : Left own stop ts) :
    Local own (Ended (Tag.Named "for")) fun more => loopTag (ts ++ stop :: more) := by
  refine (local_ident "loop variable" h).andThen fun item rest hr => ?_
  refine (local_word "in" hr).andThen fun _ rest hr => ?_
  exact local_pathTag (fun p rest hr => local_firstTag rfl hk hr) hr

theorem local_filterTag (hk : stop.kind = .blockClose) (h : Left own stop ts) :
    Local own (Ended (Tag.Named "filter")) fun more => filterTag (ts ++ stop :: more) :=
  (local_filters h).andThen fun _ _ hr => local_firstTag rfl hk hr

theorem local_callTag (hP : ∀ n, P (.node n)) (l : Location) (hk : stop.kind = .blockClose)
    (h : Left own stop ts) : Local own (Ended P) fun more => callTag l (ts ++ stop :: more) :=
  (local_templateName h).andThen fun _ _ hr =>
    (local_arguments [] hr).andThen fun _ _ hr => local_wholeTag (hP _) hk hr

theorem local_languageTag (hP : ∀ n, P (.node n)) (l : Location) (hk : stop.kind = .blockClose)
    (h : Left own stop ts) : Local own (Ended P) fun more => languageTag l (ts ++ stop :: more) :=
  (local_ident "language name" h).andThen fun _ _ hr => local_wholeTag (hP _) hk hr

theorem local_templateTag (hP : ∀ n, P (.node n)) (hk : stop.kind = .blockClose)
    (h : Left own stop ts) : Local own (Ended P) fun more => templateTag (ts ++ stop :: more) := by
  obtain ⟨t, ht, hfirst⟩ := h.exists_first
  simp only [templateTag, hfirst]
  refine (local_ident "templatetag name" h).andThen fun name rest hr => ?_
  simp only
  cases hl : PlainEntry.find? templateTags name with
  | some text => exact local_wholeTag (hP _) hk hr
  | none => exact .fails ht (f := .unknownTemplateTag name) trivial fun _ => rfl

theorem parameterFault?_inTag {around : List Block} {f : ParseFault}
    (h : parameterFault? around = some f) : f.InTag := by
  induction around with
  | nil =>
    obtain rfl := Option.some.inj h
    trivial
  | cons b bs ih =>
    rw [parameterFault?] at h
    split at h
    · simp at h
    · split at h
      · obtain rfl := Option.some.inj h
        trivial
      · exact ih h

theorem local_parameterTag {around : List Block} (hstart : start ∈ own)
    (hk : stop.kind = .blockClose) (h : Left own stop ts) :
    Local own (Ended (Tag.Named "parameter")) fun more =>
      parameterTag around start (ts ++ stop :: more) := by
  cases hf : parameterFault? around with
  | some f =>
    exact .fails hstart (parameterFault?_inTag hf) fun more => by simp only [parameterTag, hf]
  | none =>
    simp only [parameterTag, hf]
    have hplain : Local own (Ended (Tag.Named "parameter")) fun more =>
        firstTag (.parameter false) (ts ++ stop :: more) :=
      local_firstTag rfl hk h
    cases ts with
    | nil =>
      have hne := h.stop_ne (k := .ident) (by simp) (by simp)
      simpa [hne] using hplain
    | cons t ts =>
      by_cases ht : t.kind = .ident
      · simp only [List.cons_append, ht, ↓reduceIte]
        exact (local_word "group" h).andThen fun _ _ hr => local_firstTag rfl hk hr
      · simpa [ht] using hplain

theorem local_tag {around : List Block} (hstart : start ∈ own) (name : TagName)
    (hk : stop.kind = .blockClose) (h : Left own stop ts) :
    Local own (Ended (Tag.Named name.text)) fun more =>
      tag around start name (ts ++ stop :: more) := by
  have hnode : ∀ {name : String} n, Tag.Named name (.node n) := fun _ => trivial
  cases name with
  | language => exact local_languageTag hnode _ hk h
  | copyrightBlock => exact local_wholeTag trivial hk h
  | conditional =>
    simp only [tag]
    exact local_pathTag (fun _ _ hr => local_firstTag rfl hk hr) h
  | loop => exact local_loopTag hk h
  | filter => exact local_filterTag hk h
  | imports =>
    simp only [tag]
    exact local_pathTag (fun _ _ hr => local_firstTag rfl hk hr) h
  | callTemplate => exact local_callTag hnode _ hk h
  | docCommentIf =>
    simp only [tag]
    exact local_pathTag (fun _ _ hr => local_wholeTag trivial hk hr) h
  | literal =>
    simp only [tag]
    exact local_pathTag (fun _ _ hr => local_wholeTag trivial hk hr) h
  | parameterList => exact local_firstTag rfl hk h
  | parameter => exact local_parameterTag hstart hk h
  | templateTag => exact local_templateTag hnode hk h

end Tags

/-! ### Templates -/

/-- The block was opened by a tag of the tokens. -/
def Begun (all : List Token) (b : OpenBlock) : Prop :=
  ∃ before start word after, all = before ++ start :: word :: after ∧ start.kind = .blockOpen ∧
    IsIdent word b.header.tag ∧ b.start = start.location

def AllBegun (all : List Token) (s : State) : Prop := ∀ b ∈ s.stack, Begun all b

section Templates

variable {all before inner : List Token} {start : Token} {s s' : State}

theorem AllBegun.endTag? {name : String} (h : AllBegun all s) (he : s.endTag? name = some s') :
    AllBegun all s' := by
  unfold State.endTag? at he
  split at he
  · simp at he
  · next b bs hb =>
    unfold AllBegun at h
    rw [hb] at h
    obtain ⟨hhead, hbs⟩ := List.forall_mem_cons.1 h
    split at he
    · obtain rfl := Option.some.inj he
      exact hbs
    · split at he
      · next condition hc =>
        split at he
        · obtain rfl := Option.some.inj he
          refine List.forall_mem_cons.2 ⟨?_, hbs⟩
          simpa [Begun, hc, Header.tag] using hhead
        · simp at he
      · simp at he

/-- What becomes of a tag, by its name. -/
theorem State.tag_eq {word : Token} {name : String} (hw : IsIdent word name) (us : List Token) :
    s.tag start (word :: us) =
      match s.endTag? name with
      | some s' => (close name us).map fun r => (s', r.2)
      | none =>
        if endTags.contains name then fail word (.strayEnd name s.innermost?)
        else
          match TagName.ofText? name with
          | none => fail start (.unknownTag name)
          | some tag =>
            (Parser.tag (blocksOf s.stack) start tag us).map fun r =>
              (s.after start.location r.1, r.2) := by
  have hvalue : valueOf word = .ok name := valueOf_ok.2 hw.2
  simp only [State.tag, hw.1, ↓reduceIte, hvalue]
  rfl

/-- The tag of a block gives the block its name. -/
theorem AllBegun.after {word : Token} {after : List Token} {tag : TagName} {g : Tag}
    (h : AllBegun all s) (hall : all = before ++ start :: word :: after)
    (hstart : start.kind = .blockOpen) (hw : IsIdent word tag.text) (hg : g.Named tag.text) :
    AllBegun all (s.after start.location g) := by
  cases g with
  | node n => exact h
  | block header =>
    refine List.forall_mem_cons.2 ⟨?_, h⟩
    exact ⟨before, start, word, after, hall, hstart, hg ▸ hw, rfl⟩

theorem local_step_block (hs : AllBegun all s)
    (hall : all = before ++ start :: (inner ++ stop :: ts)) (hstart : start.kind = .blockOpen)
    (hi : ∀ t ∈ inner, t.Inner) (hk : stop.kind = .blockClose) :
    Local (start :: (inner ++ [stop])) (Ended (AllBegun all)) fun more =>
      s.step start (inner ++ stop :: more) := by
  have hl : Left (start :: (inner ++ [stop])) stop inner :=
    ⟨.inl hk, by simp, fun t ht => ⟨hi t ht, by simp [ht]⟩⟩
  simp only [State.step, hstart]
  cases inner with
  | nil =>
    have hne := hl.stop_ne (k := .ident) (by simp) (by simp)
    exact .fails hl.mem (f := .missingTagName) trivial fun more => by simp [State.tag, hne]
  | cons word inner =>
    by_cases hw : word.kind = .ident
    · obtain ⟨name, hname⟩ := hl.head.1.2
      simp only [List.cons_append, State.tag_eq ⟨hw, hname⟩]
      cases he : s.endTag? name with
      | some s' =>
        refine (local_close name hk hl.tail).map ?_
        rintro g ⟨u, -, hg⟩
        exact ⟨s', hs.endTag? he, fun more => by simp only [hg]⟩
      | none =>
        by_cases hend : endTags.contains name = true
        · exact .fails hl.head.2 (f := .strayEnd name s.innermost?) trivial fun more => if_pos hend
        · simp only [if_neg hend]
          cases hn : TagName.ofText? name with
          | none =>
            exact .fails List.mem_cons_self (f := .unknownTag name) trivial fun more => rfl
          | some tag =>
            obtain rfl := text_of_ofText? hn
            refine (local_tag List.mem_cons_self tag hk hl.tail).map ?_
            rintro g ⟨a, ha, hg⟩
            exact ⟨_, hs.after hall hstart ⟨hw, hname⟩ ha, fun more => by simp only [hg]⟩
    · exact .fails hl.head.2 (f := .missingTagName) trivial fun more => by simp [State.tag, hw]

theorem local_step_variable (hs : AllBegun all s) (hstart : start.kind = .varOpen)
    (hi : ∀ t ∈ inner, t.Inner) (hk : stop.kind = .varClose) :
    Local (start :: (inner ++ [stop])) (Ended (AllBegun all)) fun more =>
      s.step start (inner ++ stop :: more) := by
  have hl : Left (start :: (inner ++ [stop])) stop inner :=
    ⟨.inr hk, by simp, fun t ht => ⟨hi t ht, by simp [ht]⟩⟩
  simp only [State.step, hstart]
  refine (local_variableNode start.location hk hl).map ?_
  rintro g ⟨n, -, hg⟩
  exact ⟨s.add n, hs, fun more => by simp only [hg]⟩

theorem State.run_error {e : Located ParseFault} (hk : t.kind ≠ .eof) (h : s.step t ts = .error e) :
    s.run (t :: ts) = .error e := by
  rw [State.run_cons hk, h]
  rfl

/-- The fault is at one of the tokens, or it is a block that one of them opens. -/
inductive Blames (ts : List Token) : Located ParseFault → Prop
  | token {t : Token} {f : ParseFault} : t ∈ ts → f.InTag → Blames ts ⟨f, t.location⟩
  | block {before after : List Token} {start word : Token} {name : String} :
      ts = before ++ start :: word :: after → start.kind = .blockOpen → IsIdent word name →
      Blames ts ⟨.unclosed name, start.location⟩

/-- What is done with the tokens is the same whatever comes after them, and faults blame them. -/
def Settled (all : List Token) (x : List Token → Outcome α) : Prop :=
  ∃ r, (∀ l, r = .error l → Blames all l) ∧ ∀ more, x more = r

/-- The tokens of a tag up to `close`, and after them those that are left. -/
theorem settled_tag {close : Token} (hall : all = (before ++ (start :: (inner ++ [close]))) ++ ts)
    (hk : start.kind ≠ .eof)
    (hstep : Local (start :: (inner ++ [close])) (Ended (AllBegun all)) fun more =>
      s.step start (inner ++ close :: more))
    (hrest : ∀ s', AllBegun all s' → Settled all fun more => s'.run (ts ++ stop :: more)) :
    Settled all fun more => s.run (start :: (inner ++ close :: ts) ++ stop :: more) := by
  have happend : ∀ more, start :: (inner ++ close :: ts) ++ stop :: more =
      start :: (inner ++ close :: (ts ++ stop :: more)) := by simp
  have hown : start :: (inner ++ [close]) ⊆ all := by
    rw [hall, List.append_assoc]
    exact List.subset_append_of_subset_right _ (List.subset_append_left _ _)
  simp only [happend]
  cases hstep with
  | @fails u f hu hf hx =>
    refine ⟨fail u f, ?_, fun more => State.run_error hk (hx _)⟩
    rintro l h
    obtain rfl := Except.error.inj h
    exact .token (hown hu) hf
  | gives hg hx =>
    obtain ⟨s', hs', hg⟩ := hg
    obtain ⟨r, hr, hrun⟩ := hrest s' hs'
    exact ⟨r, hr, fun more =>
      (State.run_step ((hx _).trans (congrArg _ (hg _)))).trans (hrun more)⟩

/-- At the end of the tokens, a block that is still open is to blame. -/
theorem settled_finish (he : stop.kind = .eof) (hs : AllBegun all s) :
    Settled all fun more => s.run (stop :: more) := by
  refine ⟨s.finish, ?_, fun more => State.run_rest (.inr ⟨stop, more, rfl, he⟩)⟩
  intro l hl
  unfold State.finish at hl
  split at hl
  · simp at hl
  · next b bs hb =>
    obtain ⟨before, start, word, after, rfl, hstart, hw, hloc⟩ := hs b (by simp [hb])
    obtain rfl := Except.error.inj hl
    rw [hloc]
    exact .block rfl hstart hw

/-- The induction is on the texts and tags, whatever blocks are open before them. -/
theorem settled_run {us : List Token} (h : Token.Bracketed us) (he : stop.kind = .eof)
    (hall : all = before ++ us) (hs : AllBegun all s) :
    Settled all fun more => s.run (us ++ stop :: more) := by
  induction h generalizing before s with
  | nil => exact settled_finish he hs
  | @text t value ts hk hv _ ih =>
    have hall' : all = (before ++ [t]) ++ ts := by simp [hall]
    have hadd : AllBegun all (s.add (.text value)) := hs
    obtain ⟨r, hr, hrun⟩ := ih hall' hadd
    refine ⟨r, hr, fun more => ?_⟩
    have hstep : s.step t (ts ++ stop :: more) =
        .ok (s.add (.text value), ts ++ stop :: more) := by
      simp [State.step, hk, valueOf, hv, Except.map]
    exact (State.run_step hstep).trans (hrun more)
  | @«variable» start close inner ts hstart hi hk _ ih =>
    have hall' : all = (before ++ (start :: (inner ++ [close]))) ++ ts := by simp [hall]
    exact settled_tag hall' (by simp [hstart]) (local_step_variable hs hstart hi hk)
      fun s' hs' => ih hall' hs'
  | @block start close inner ts hstart hi hk _ ih =>
    have hall' : all = (before ++ (start :: (inner ++ [close]))) ++ ts := by simp [hall]
    exact settled_tag hall' (by simp [hstart]) (local_step_block hs hall hstart hi hk)
      fun s' hs' => ih hall' hs'

end Templates

theorem Blames.exists_token {l : Located ParseFault} (h : Blames ts l) :
    ∃ t ∈ ts, l.location = t.location := by
  cases h with
  | @token t f ht => exact ⟨t, ht, rfl⟩
  | @block before after start word name heq => exact ⟨start, by simp [heq], rfl⟩

theorem Blames.not_internal {l : Located ParseFault} (h : Blames ts l) : ¬ l.fault.Internal := by
  cases h with
  | token _ hf => exact hf.not_internal
  | block => exact not_false

theorem Blames.append {l : Located ParseFault} (h : Blames ts l) (more : List Token) :
    Blames (ts ++ more) l := by
  cases h with
  | token ht hf => exact .token (List.mem_append_left more ht) hf
  | @block before after start word name heq hstart hw =>
    have hmore : ts ++ more = before ++ start :: word :: (after ++ more) := by simp [heq]
    exact .block hmore hstart hw

end Parser

/-- Reading a template from the tokens of a text does not look behind the last of them, and what it
finds at fault is one of them. -/
theorem Template.ofTokens_spec {text : String} {ts : List Token} (h : Token.ofText text = .ok ts)
    (name : Option String) :
    (∀ more, ofTokens name (ts ++ more) = ofTokens name ts) ∧
      ∀ l, ofTokens name ts = .error l → Parser.Blames ts l := by
  obtain ⟨us, stop, rfl, hb, he, -⟩ := Token.ofText_spec h
  have hbegun : Parser.AllBegun us {} := List.forall_mem_nil _
  obtain ⟨r, hr, hrun⟩ := Parser.settled_run hb he (List.nil_append us).symm hbegun
  have hmore : ∀ more, ofTokens name (us ++ stop :: more) = r.map (⟨name, ·⟩) :=
    fun more => congrArg (Except.map _) ((Parser.ofTokens_eq_run _).trans (hrun more))
  refine ⟨fun more => ?_, fun l hl => ?_⟩
  · rw [List.append_assoc, List.singleton_append, hmore, hmore]
  · rw [hmore] at hl
    refine (hr l ?_).append [stop]
    cases r with
    | error e => simpa [Except.map] using hl
    | ok ns => simp [Except.map] at hl

end CodeTemplate

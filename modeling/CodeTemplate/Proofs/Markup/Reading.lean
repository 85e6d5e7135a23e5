import CodeTemplate.Markup.Tree.Tag
import CodeTemplate.Proofs.Markup.Grammar

/-! What each reader of a part of the tokens accepts, in terms of the grammar. A reader that goes on
as long as it can also says what the tokens after its part do not start with. -/

namespace CodeTemplate.Parser

open Grammar

variable {α : Type} {t : Token} {ts rest : List Token} {s : String} {p : Path}

/-- The tokens do not start with one of the kinds. -/
def Stops (kinds : TokenKind → Bool) (ts : List Token) : Prop :=
  ∀ t ∈ ts.head?, kinds t.kind = false

@[simp] theorem stops_nil (kinds : TokenKind → Bool) : Stops kinds [] := by
  intro t h
  simp at h

@[simp] theorem stops_cons {kinds : TokenKind → Bool} :
    Stops kinds (t :: ts) ↔ kinds t.kind = false := by
  simp [Stops]

theorem exists_first_iff {P : Token → Prop} :
    (∃ u, t :: ts = u :: rest ∧ P u) ↔ ts = rest ∧ P t := by
  constructor
  · rintro ⟨u, h, hu⟩
    obtain ⟨rfl, rfl⟩ := List.cons.inj h
    exact ⟨rfl, hu⟩
  · rintro ⟨rfl, ht⟩
    exact ⟨t, rfl, ht⟩

theorem valueOf_ok : valueOf t = .ok s ↔ t.value = some s := by
  cases hv : t.value <;> simp [valueOf, fail, hv]

theorem identOf_ok {what : String} : identOf what t = .ok s ↔ IsIdent t s := by
  by_cases hk : t.kind = .ident <;> simp [identOf, valueOf_ok, fail, IsIdent, hk]

theorem ident_ok {what : String} :
    ident what ts = .ok (s, rest) ↔ ∃ t, ts = t :: rest ∧ IsIdent t s := by
  cases ts with
  | nil => simp [ident, fail]
  | cons t ts =>
    rw [exists_first_iff]
    simp only [ident, map_ok, identOf_ok, Prod.mk.injEq]
    constructor
    · rintro ⟨_, h, rfl, rfl⟩
      exact ⟨rfl, h⟩
    · rintro ⟨rfl, h⟩
      exact ⟨s, h, rfl, rfl⟩

theorem kind_ok {k : TokenKind} {u : Unit} :
    kind k ts = .ok (u, rest) ↔ ∃ t, ts = t :: rest ∧ t.kind = k := by
  cases ts with
  | nil => simp [kind, fail]
  | cons t ts =>
    rw [exists_first_iff]
    by_cases hk : t.kind = k <;> simp [kind, fail, hk]

theorem word_ok {w : String} {u : Unit} :
    word w ts = .ok (u, rest) ↔ ∃ t, ts = t :: rest ∧ IsIdent t w := by
  cases ts with
  | nil => simp [word, fail]
  | cons t ts =>
    rw [exists_first_iff]
    by_cases h : t.kind = .ident ∧ t.value = some w
    · simp [word, IsIdent, h]
    · simp [word, fail, IsIdent, h]

theorem close_ok {tag : String} {u : Unit} :
    close tag ts = .ok (u, rest) ↔ ∃ t, ts = t :: rest ∧ t.kind = .blockClose := by
  cases ts with
  | nil => simp [close, fail]
  | cons t ts =>
    rw [exists_first_iff]
    by_cases hk : t.kind = .blockClose <;> simp [close, fail, hk]

theorem filter_ofName?_eq_some {f : Filter} : Filter.ofName? s = some f ↔ s = f.name := by
  constructor
  · intro h
    have hf := List.find?_some h
    exact (eq_of_beq hf).symm
  · rintro rfl
    cases f <;> rfl

theorem filterOf_ok {f : Filter} : filterOf t = .ok f ↔ IsFilter t f := by
  simp only [filterOf, bind_ok, identOf_ok, IsFilter]
  constructor
  · rintro ⟨name, hi, h⟩
    split at h
    · next g hg =>
      simp only [Except.ok.injEq] at h
      subst h
      rwa [← filter_ofName?_eq_some.1 hg]
    · simp [fail] at h
  · intro h
    exact ⟨f.name, h, by simp [filter_ofName?_eq_some.2 rfl]⟩

/-- No item can be read where there are no tokens left, so a sign is never the last token. -/
theorem separated_ok {separates : TokenKind → Bool} {item : Token → Token → Outcome α}
    {Item : Token → Token → α → Prop}
    (hi : ∀ sign t a, Item sign t a ↔ separates sign.kind = true ∧ item sign t = .ok a)
    (hn : ∀ sign a, item sign noToken ≠ .ok a) {as : List α} :
    separated separates item ts = .ok (as, rest) ↔
      ∃ used, ts = used ++ rest ∧ Items Item used as ∧ Stops separates rest := by
  constructor
  · intro h
    fun_induction separated separates item ts generalizing as rest with
    | case1 =>
      simp only [Except.ok.injEq, Prod.mk.injEq] at h
      obtain ⟨rfl, rfl⟩ := h
      exact ⟨[], rfl, .nil, by simp⟩
    | case2 t hs =>
      obtain ⟨a, ha, _⟩ := map_ok.1 h
      exact absurd ha (hn t a)
    | case3 t hs =>
      simp only [Except.ok.injEq, Prod.mk.injEq] at h
      obtain ⟨rfl, rfl⟩ := h
      exact ⟨[], rfl, .nil, by simpa using hs⟩
    | case4 t u ts hs ih =>
      simp only [bind_ok, Prod.exists, Except.ok.injEq, Prod.mk.injEq] at h
      obtain ⟨a, ha, bs, r, hr, rfl, rfl⟩ := h
      obtain ⟨used, rfl, hu, hstop⟩ := ih hr
      exact ⟨t :: u :: used, rfl, .cons ((hi t u a).2 ⟨hs, ha⟩) hu, hstop⟩
    | case5 t u ts hs =>
      simp only [Except.ok.injEq, Prod.mk.injEq] at h
      obtain ⟨rfl, rfl⟩ := h
      exact ⟨[], rfl, .nil, by simpa using hs⟩
  · rintro ⟨used, rfl, hu, hstop⟩
    induction hu with
    | nil =>
      rcases rest with _ | ⟨t, _ | ⟨u, ts⟩⟩
      · rfl
      · simp_all [separated]
      · simp_all [separated]
    | @cons sign t a ts as h _ ih =>
      obtain ⟨hs, ha⟩ := (hi sign t a).1 h
      simp only [List.cons_append, separated, hs, ↓reduceIte, bind_ok, Prod.exists]
      exact ⟨a, ha, as, rest, ih, rfl⟩

theorem attributes_ok {what : String} {as : List String} :
    separated (· == .dot) (fun _ => identOf what) ts = .ok (as, rest) ↔
      ∃ used, ts = used ++ rest ∧ Items IsAttribute used as ∧ Stops (· == .dot) rest :=
  separated_ok (fun _ _ _ => by simp [IsAttribute, identOf_ok])
    (fun _ _ => by simp [identOf_ok, IsIdent, noToken])

theorem path_ok :
    path ts = .ok (p, rest) ↔
      ∃ used, ts = used ++ rest ∧ IsPath used p ∧ Stops (· == .dot) rest := by
  simp only [path, bind_ok, Prod.exists, ident_ok, attributes_ok, Except.ok.injEq, Prod.mk.injEq]
  constructor
  · rintro ⟨name, _, ⟨t, rfl, ht⟩, as, _, ⟨used, rfl, hu, hstop⟩, rfl, rfl⟩
    exact ⟨t :: used, rfl, .mk ht hu, hstop⟩
  · rintro ⟨used, rfl, ⟨ht, hu⟩, hstop⟩
    exact ⟨_, _, ⟨_, rfl, ht⟩, _, _, ⟨_, rfl, hu, hstop⟩, rfl, rfl⟩

theorem moreFilters_ok {fs : List Filter} :
    moreFilters ts = .ok (fs, rest) ↔
      ∃ used, ts = used ++ rest ∧ Items IsPiped used fs ∧ Stops (· == .pipe) rest :=
  separated_ok (fun _ _ _ => by simp [IsPiped, filterOf_ok])
    (fun _ _ => by simp [filterOf_ok, IsFilter, IsIdent, noToken])

theorem filters_ok {fs : List Filter} :
    filters ts = .ok (fs, rest) ↔
      ∃ t used f more, ts = t :: (used ++ rest) ∧ fs = f :: more ∧ IsFilter t f ∧
        Items IsPiped used more ∧ Stops (· == .pipe) rest := by
  cases ts with
  | nil => simp [filters, map_ok, filterOf_ok, IsFilter, IsIdent, noToken]
  | cons t ts =>
    simp only [filters, bind_ok, Prod.exists, filterOf_ok, moreFilters_ok, Except.ok.injEq,
      Prod.mk.injEq]
    constructor
    · rintro ⟨f, hf, more, _, ⟨used, rfl, hu, hstop⟩, rfl, rfl⟩
      exact ⟨t, used, f, more, rfl, rfl, hf, hu, hstop⟩
    · rintro ⟨_, used, f, more, heq, rfl, hf, hu, hstop⟩
      obtain ⟨rfl, rfl⟩ := List.cons.inj heq
      exact ⟨f, hf, more, rest, ⟨used, rfl, hu, hstop⟩, rfl, rfl⟩

theorem variableNode_ok {start : Location} {n : Node} :
    variableNode start ts = .ok (n, rest) ↔
      ∃ ps fs stop p filters, ts = ps ++ (fs ++ stop :: rest) ∧ IsPath ps p ∧
        Items IsPiped fs filters ∧ stop.kind = .varClose ∧ n = .variable p filters start := by
  simp only [variableNode, bind_ok, Prod.exists, path_ok, moreFilters_ok, kind_ok, Except.ok.injEq,
    Prod.mk.injEq]
  constructor
  · rintro ⟨p, _, ⟨ps, rfl, hp, _⟩, filters, _, ⟨fs, rfl, hf, _⟩, _, _, ⟨stop, rfl, hk⟩, rfl, rfl⟩
    exact ⟨ps, fs, stop, p, filters, rfl, hp, hf, hk, rfl⟩
  · rintro ⟨ps, fs, stop, p, filters, rfl, hp, hf, hk, rfl⟩
    have hdot : Stops (· == .dot) (fs ++ stop :: rest) := by
      cases hf with
      | nil => simp [hk]
      | cons h _ => simp [h.1]
    exact ⟨p, _, ⟨ps, rfl, hp, hdot⟩, filters, _, ⟨fs, rfl, hf, by simp [hk]⟩, (), _,
      ⟨stop, rfl, hk⟩, rfl, rfl⟩

theorem segment_ok (sign t : Token) :
    IsSegment sign t s ↔ isNameSign sign.kind = true ∧ segment sign t = .ok s := by
  simp only [segment, bind_ok, identOf_ok, IsSegment, isNameSign, Except.ok.injEq, Bool.or_eq_true,
    beq_iff_eq]
  constructor
  · rintro ⟨name, hn, ⟨hk, rfl⟩ | ⟨hk, rfl⟩⟩
    · exact ⟨.inl hk, name, hn, by simp [hk]⟩
    · exact ⟨.inr hk, name, hn, by simp [hk]⟩
  · rintro ⟨hk | hk, name, hn, rfl⟩
    · exact ⟨name, hn, .inl ⟨hk, by simp [hk]⟩⟩
    · exact ⟨name, hn, .inr ⟨hk, by simp [hk]⟩⟩

theorem segments_ok {ss : List String} :
    separated isNameSign segment ts = .ok (ss, rest) ↔
      ∃ used, ts = used ++ rest ∧ Items IsSegment used ss ∧ Stops isNameSign rest :=
  separated_ok (fun sign t _ => segment_ok sign t)
    (fun sign s h => by
      obtain ⟨name, hi, _⟩ := bind_ok.1 h
      simp [identOf_ok, IsIdent, noToken] at hi)

theorem writtenName_sound (h : writtenName ts = .ok (s, rest)) :
    ∃ used, ts = used ++ rest ∧ IsName used s := by
  cases ts with
  | nil => simp [writtenName, fail] at h
  | cons t ts =>
    simp only [writtenName] at h
    split at h
    · next hk =>
      obtain ⟨v, hv, h⟩ := map_ok.1 h
      obtain ⟨rfl, rfl⟩ := Prod.mk.inj h
      exact ⟨[t], rfl, .quoted ⟨hk, valueOf_ok.1 hv⟩⟩
    · by_cases hs : t.kind = .slash
      all_goals
        simp only [hs, ↓reduceIte, bind_ok, Prod.exists, ident_ok, segments_ok, Except.ok.injEq,
          Prod.mk.injEq] at h
        obtain ⟨first, _, ⟨u, heq, hu⟩, more, _, ⟨us, rfl, hm, _⟩, rfl, rfl⟩ := h
      · exact ⟨t :: u :: us, by simp [heq], .rooted hs hu hm⟩
      · exact ⟨u :: us, by simp [heq], by simpa using IsName.relative hu hm⟩

theorem writtenName_complete {used : List Token} (h : IsName used s) (hr : Stops isNameSign rest) :
    writtenName (used ++ rest) = .ok (s, rest) := by
  cases h with
  | quoted h => simp [writtenName, h.1, map_ok, valueOf_ok, h.2]
  | relative hi hs =>
    simp only [List.cons_append, writtenName, hi.1, reduceCtorEq, ↓reduceIte, bind_ok, Prod.exists,
      ident_ok, segments_ok, Except.ok.injEq, Prod.mk.injEq]
    exact ⟨_, _, ⟨_, rfl, hi⟩, _, _, ⟨_, rfl, hs, hr⟩, by simp, rfl⟩
  | rooted hk hi hs =>
    simp only [List.cons_append, writtenName, hk, reduceCtorEq, ↓reduceIte, bind_ok, Prod.exists,
      ident_ok, segments_ok, Except.ok.injEq, Prod.mk.injEq]
    exact ⟨_, _, ⟨_, rfl, hi⟩, _, _, ⟨_, rfl, hs, hr⟩, rfl, rfl⟩

theorem templateName_ok :
    templateName ts = .ok (s, rest) ↔
      writtenName ts = .ok (s, rest) ∧ TemplateName.fault? s = none := by
  simp only [templateName, bind_ok, Prod.exists]
  constructor
  · rintro ⟨name, r, hw, h⟩
    split at h
    · simp [fail] at h
    · next hf =>
      simp only [Except.ok.injEq, Prod.mk.injEq] at h
      obtain ⟨rfl, rfl⟩ := h
      exact ⟨hw, hf⟩
  · rintro ⟨hw, hf⟩
    exact ⟨s, rest, hw, by simp [hf]⟩

/-- What an argument is made of, apart from its key being new. -/
theorem argument_ok (seen : List Argument) (t : Token) {a : Argument} :
    argument seen t ts = .ok (a, rest) ↔
      ∃ key eq us, t.value = some key ∧ (∀ b ∈ seen, b.key ≠ key) ∧ ts = eq :: us ∧
        eq.kind = .equal ∧ ∃ v, argumentValue us = .ok (v, rest) ∧ a = ⟨key, v⟩ := by
  simp only [argument, bind_ok, valueOf_ok]
  constructor
  · rintro ⟨key, hv, h⟩
    split at h
    · simp [fail] at h
    · next hs =>
      simp only [bind_ok, Prod.exists, kind_ok, Except.ok.injEq, Prod.mk.injEq] at h
      obtain ⟨_, us, ⟨eq, rfl, he⟩, v, _, ha, rfl, rfl⟩ := h
      exact ⟨key, eq, us, hv, by simpa using hs, rfl, he, v, ha, rfl⟩
  · rintro ⟨key, eq, us, hv, hs, rfl, he, v, ha, rfl⟩
    refine ⟨key, hv, ?_⟩
    have hn : seen.any (·.key == key) = false := by simpa using hs
    simp only [hn, Bool.false_eq_true, ↓reduceIte, bind_ok, Prod.exists, kind_ok, Except.ok.injEq,
      Prod.mk.injEq]
    exact ⟨(), us, ⟨eq, rfl, he⟩, v, rest, ha, rfl, rfl⟩

theorem argumentValue_ok {v : ArgumentValue} :
    argumentValue ts = .ok (v, rest) ↔
      (∃ t s, ts = t :: rest ∧ IsString t s ∧ v = .string s) ∨
      ∃ used p, ts = used ++ rest ∧ IsPath used p ∧ Stops (· == .dot) rest ∧ v = .path p := by
  constructor
  · intro h
    cases ts with
    | nil =>
      rw [argumentValue] at h
      obtain ⟨⟨p, r⟩, hp, h⟩ := map_ok.1 h
      obtain ⟨rfl, rfl⟩ := Prod.mk.inj h
      obtain ⟨used, hu, hp, hs⟩ := path_ok.1 hp
      exact .inr ⟨used, p, hu, hp, hs, rfl⟩
    | cons t ts =>
      simp only [argumentValue] at h
      split at h
      · next hk =>
        obtain ⟨s, hs, h⟩ := map_ok.1 h
        obtain ⟨rfl, rfl⟩ := Prod.mk.inj h
        exact .inl ⟨t, s, rfl, ⟨hk, valueOf_ok.1 hs⟩, rfl⟩
      · obtain ⟨⟨p, r⟩, hp, h⟩ := map_ok.1 h
        obtain ⟨rfl, rfl⟩ := Prod.mk.inj h
        obtain ⟨used, hu, hp, hs⟩ := path_ok.1 hp
        exact .inr ⟨used, p, hu, hp, hs, rfl⟩
  · rintro (⟨t, s, rfl, ht, rfl⟩ | ⟨used, p, rfl, hp, hs, rfl⟩)
    · simp [argumentValue, ht.1, map_ok, valueOf_ok, ht.2]
    · have hread := path_ok.2 ⟨used, rfl, hp, hs⟩
      cases hp with
      | mk hi _ =>
        rw [List.cons_append] at hread
        simp [argumentValue, hi.1, hread, map_ok]

/-- The key of an argument is none of those before it. -/
theorem key_ne_of_nodup {seen more : List Argument} {a : Argument}
    (hn : ((seen ++ a :: more).map (·.key)).Nodup) : ∀ b ∈ seen, b.key ≠ a.key := by
  intro b hb heq
  rw [List.map_append, List.nodup_append] at hn
  exact hn.2.2 b.key (List.mem_map_of_mem hb) a.key (by simp) heq

theorem nodup_append_argument {seen : List Argument} {a : Argument}
    (hn : (seen.map (·.key)).Nodup) (ha : ∀ b ∈ seen, b.key ≠ a.key) :
    ((seen ++ [a]).map (·.key)).Nodup := by
  rw [List.map_append, List.nodup_append]
  exact ⟨hn, by simp, by simpa using ha⟩

theorem arguments_sound {seen args : List Argument} (h : arguments seen ts = .ok (args, rest))
    (hn : (seen.map (·.key)).Nodup) :
    ∃ used more, ts = used ++ rest ∧ args = seen ++ more ∧ IsArguments used more ∧
      (args.map (·.key)).Nodup := by
  fun_induction arguments seen ts with
  | case1 seen =>
    simp only [Except.ok.injEq, Prod.mk.injEq] at h
    obtain ⟨rfl, rfl⟩ := h
    exact ⟨[], [], rfl, by simp, .nil, hn⟩
  | case2 => simp at h
  | case3 seen t ts hk a r ha _ ih =>
    obtain ⟨key, eq, us, hkey, hnew, rfl, he, v, hv, rfl⟩ := (argument_ok seen t).1 ha
    obtain ⟨used, more, rfl, rfl, hm, hd⟩ := ih h (nodup_append_argument hn hnew)
    rcases argumentValue_ok.1 hv with ⟨u, s, rfl, hu, rfl⟩ | ⟨ps, p, rfl, hp, _, rfl⟩
    · exact ⟨t :: eq :: u :: used, _, rfl, by simp, .string ⟨hk, hkey⟩ he hu hm, hd⟩
    · exact ⟨t :: eq :: (ps ++ used), _, by simp, by simp, .path ⟨hk, hkey⟩ he hp hm, hd⟩
  | case4 seen t ts hk =>
    simp only [Except.ok.injEq, Prod.mk.injEq] at h
    obtain ⟨rfl, rfl⟩ := h
    exact ⟨[], [], rfl, by simp, .nil, hn⟩

/-- Neither a path nor the arguments go on at the end of a tag. -/
def Ends (ts : List Token) : Prop := ∃ stop us, ts = stop :: us ∧ stop.kind = .blockClose

theorem Ends.stops {kinds : TokenKind → Bool} (h : Ends ts) (hk : kinds .blockClose = false) :
    Stops kinds ts := by
  obtain ⟨stop, us, rfl, hs⟩ := h
  simpa [hs] using hk

theorem arguments_of_ends (seen : List Argument) (h : Ends ts) :
    arguments seen ts = .ok (seen, ts) := by
  obtain ⟨stop, us, rfl, hs⟩ := h
  simp [arguments, hs]

theorem arguments_cons {seen : List Argument} {a : Argument} (hk : t.kind = .ident)
    (ha : argument seen t ts = .ok (a, rest)) :
    arguments seen (t :: ts) = arguments (seen ++ [a]) rest := by
  rw [arguments, if_pos hk]
  split
  · next e he => simp [he] at ha
  · next b r hb =>
    obtain ⟨rfl, rfl⟩ := Prod.mk.inj (Except.ok.inj (hb.symm.trans ha))
    rfl

theorem arguments_complete {used : List Token} {more : List Argument} (h : IsArguments used more)
    (seen : List Argument) (hn : ((seen ++ more).map (·.key)).Nodup) (hr : Ends rest) :
    arguments seen (used ++ rest) = .ok (seen ++ more, rest) := by
  induction h generalizing seen with
  | nil => simpa using arguments_of_ends seen hr
  | @path k eq ps ts key p args hk he hp hargs ih =>
    have hdot : Stops (· == .dot) (ts ++ rest) := by
      cases hargs with
      | nil => exact hr.stops rfl
      | path h _ _ _ => simp [h.1]
      | string h _ _ _ => simp [h.1]
    have ha := (argument_ok seen k).2 ⟨key, eq, ps ++ (ts ++ rest), hk.2,
      key_ne_of_nodup hn,
      rfl, he, .path p, argumentValue_ok.2 (.inr ⟨ps, p, rfl, hp, hdot, rfl⟩), rfl⟩
    rw [List.cons_append, List.cons_append, List.append_assoc, arguments_cons hk.1 ha,
      ih _ (by simpa using hn), List.append_assoc, List.singleton_append]
  | @string k eq t ts key s args hk he ht _ ih =>
    have ha := (argument_ok seen k).2 ⟨key, eq, t :: (ts ++ rest), hk.2,
      key_ne_of_nodup hn,
      rfl, he, .string s, argumentValue_ok.2 (.inl ⟨t, s, rfl, ht, rfl⟩), rfl⟩
    rw [List.cons_append, List.cons_append, List.cons_append, arguments_cons hk.1 ha,
      ih _ (by simpa using hn), List.append_assoc, List.singleton_append]

end CodeTemplate.Parser

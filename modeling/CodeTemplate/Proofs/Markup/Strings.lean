import CodeTemplate.Proofs.Markup.Joining

/-! Strings in tags. Each value can be written as a string, in either kind of quotes and in each
tag, and is read back from it; and each string that is read has its value written between quotes. -/

namespace CodeTemplate

open Outline

/-- The character is one of those that strings stand between. -/
def IsQuote (c : Char) : Prop := c = '"' ∨ c = '\''

namespace Outline

/-- A tag of one word has no string in it. -/
theorem IsBare.not_mem_quote {word cs : List Char} {strips skips : Bool} {quote : Char}
    (hw : IsWord word) (hq : IsQuote quote) (h : IsBare word strips skips cs) : quote ∉ cs := by
  obtain ⟨before, after, hs, rfl⟩ := h
  have hinside : quote ∉ before ++ (word ++ after) := by
    intro hm
    rcases hq with rfl | rfl <;> exact hw.plain_spaced hs _ hm (by decide)
  have houtside : quote ∉ '\x7b' :: '%' :: (dashes strips ++ (dashes skips ++ ['%', '\x7d'])) := by
    rcases hq with rfl | rfl <;> cases strips <;> cases skips <;> decide
  intro hm
  simp only [tagChars, List.mem_cons, List.mem_append] at hm hinside houtside
  tauto

end Outline

namespace Piece

variable {quote : Char} {cs inside value : List Char} {n : Nat}

/-! ### Values -/

/-- What is written for a character of a string. -/
def escapeChar (quote c : Char) : List Char :=
  if c = '\\' ∨ c = quote then ['\\', c]
  else if c = '\n' then ['\\', 'n']
  else if c = '\t' then ['\\', 't']
  else if c = '\r' then ['\\', 'r']
  else [c]

/-- The value as a string in quotes. -/
def quoted (quote : Char) (value : List Char) : List Char :=
  quote :: (value.flatMap (escapeChar quote) ++ [quote])

/-- The text between two quotes stands for the value: no quote and no line break is in it but behind
a backslash, and each backslash is there for the character behind it. -/
inductive Decodes (quote : Char) : List Char → List Char → Prop
  | nil : Decodes quote [] []
  | plain {c : Char} {inside value : List Char} : c ≠ quote → c ≠ '\\' → c ≠ '\n' →
      Decodes quote inside value → Decodes quote (c :: inside) (c :: value)
  | pair {c : Char} {inside value : List Char} :
      Decodes quote inside value → Decodes quote ('\\' :: c :: inside) (unescape c :: value)

theorem decodes_escape (hq : IsQuote quote) (value : List Char) :
    Decodes quote (value.flatMap (escapeChar quote)) value := by
  induction value with
  | nil => exact .nil
  | cons c value ih =>
    rw [List.flatMap_cons, escapeChar]
    split
    · next hc =>
      have hsame : unescape c = c := by
        rcases hc with rfl | rfl
        · rfl
        · rcases hq with rfl | rfl <;> rfl
      have hpair := ih.pair (c := c)
      rwa [hsame] at hpair
    · next hc =>
      obtain ⟨hslash, hquote⟩ := not_or.1 hc
      split_ifs with hline htab hreturn
      · exact hline ▸ ih.pair
      · exact htab ▸ ih.pair
      · exact hreturn ▸ ih.pair
      · exact .plain hquote hslash hline ih

/-- A string ends with the first quote that is not behind a backslash. -/
theorem stringTail?_eq_some_iff (hq : IsQuote quote) :
    stringTail? quote cs = some (value, n) ↔
      ∃ inside rest, cs = inside ++ quote :: rest ∧ n = inside.length + 1 ∧
        Decodes quote inside value := by
  constructor
  · intro h
    fun_induction stringTail? quote cs generalizing value n with
    | case1 | case2 | case4 => simp at h
    | case3 cs hn =>
      obtain ⟨rfl, rfl⟩ := Prod.mk.inj (Option.some.inj h)
      exact ⟨[], cs, rfl, rfl, .nil⟩
    | case5 e cs hn hquote ih =>
      obtain ⟨⟨v, m⟩, hm, heq⟩ := Option.map_eq_some_iff.1 h
      obtain ⟨rfl, rfl⟩ := Prod.mk.inj heq
      obtain ⟨inside, rest, rfl, rfl, hd⟩ := ih hm
      exact ⟨'\\' :: e :: inside, rest, rfl, rfl, hd.pair⟩
    | case6 c cs hn hquote hslash ih =>
      obtain ⟨⟨v, m⟩, hm, heq⟩ := Option.map_eq_some_iff.1 h
      obtain ⟨rfl, rfl⟩ := Prod.mk.inj heq
      obtain ⟨inside, rest, rfl, rfl, hd⟩ := ih hm
      exact ⟨c :: inside, rest, rfl, rfl, .plain hquote hslash hn hd⟩
  · rintro ⟨inside, rest, rfl, rfl, hd⟩
    have hslash : '\\' ≠ quote := by rcases hq with rfl | rfl <;> decide
    have hline : quote ≠ '\n' := by rcases hq with rfl | rfl <;> decide
    induction hd with
    | nil => simp [stringTail?.eq_def, hline]
    | plain hquote hback hbreak _ ih =>
      rw [List.cons_append, stringTail?.eq_def]
      simp [hquote, hback, hbreak, ih]
    | pair _ ih =>
      rw [List.cons_append, List.cons_append, stringTail?.eq_def]
      simp [hslash, ih]

/-! ### What stands before a quote

What a text is cut into up to a quote does not depend on the quote and what is behind it. -/

section Found

variable {ds : List Char}

/-- What is found in the text before is found there, whatever is behind. -/
theorem through?_append_iff {close : List Char} (hc : close ≠ []) (hn : n ≤ cs.length) :
    through? close (cs ++ ds) = some n ↔ through? close cs = some n := by
  refine ⟨fun h => ?_, fun h => through?_append hc h ds⟩
  cases hcs : through? close cs with
  | some m => exact (through?_append hc hcs ds).symm.trans h
  | none =>
    obtain ⟨before, rest, heq, rfl, -⟩ := through?_sound hc h
    have hpre : before ++ close <+: cs :=
      List.prefix_of_prefix_length_le ⟨rest, by simp [heq]⟩ (List.prefix_append cs ds) hn
    exact absurd ((List.suffix_append before close).isInfix.trans hpre.isInfix)
      (through?_eq_none hc hcs)

theorem endComment?_append_iff {skips : Bool} (hn : n ≤ cs.length) :
    endComment? (cs ++ ds) = some (skips, n) ↔ endComment? cs = some (skips, n) := by
  refine ⟨fun h => ?_, fun h => (endComment?_append h ds).1⟩
  cases hcs : endComment? cs with
  | some found => exact (endComment?_append hcs ds).1.symm.trans h
  | none =>
    obtain ⟨body, close, rest, s, heq, rfl, hclose, -⟩ := endComment?_sound h
    have hpre : body ++ close <+: cs :=
      List.prefix_of_prefix_length_le ⟨rest, by simp [heq]⟩ (List.prefix_append cs ds) hn
    exact absurd ((List.suffix_append body close).isInfix.trans hpre.isInfix)
      (endComment?_eq_none hcs hclose)

theorem stringTail?_append_iff (hq : IsQuote quote) (hn : n ≤ cs.length) :
    stringTail? quote (cs ++ ds) = some (value, n) ↔ stringTail? quote cs = some (value, n) := by
  refine ⟨fun h => ?_, fun h => (stringTail?_append h ds).1⟩
  rw [stringTail?_eq_some_iff hq] at h ⊢
  obtain ⟨inside, rest, heq, rfl, hd⟩ := h
  have hpre : inside ++ [quote] <+: cs :=
    List.prefix_of_prefix_length_le ⟨rest, by simp [heq]⟩ (List.prefix_append cs ds) (by simpa)
  obtain ⟨rest, rfl⟩ := hpre
  exact ⟨inside, rest, by simp, rfl, hd⟩

end Found

section Quote

variable {rest : List Char} {c : Char} {kind : PieceKind}

/-- What has no quote in it ends before the quote. -/
theorem prefix_of_not_mem {ds : List Char} (h : ds <+: cs ++ quote :: rest) (hq : quote ∉ ds) :
    ds <+: cs := by
  rcases List.prefix_or_prefix_of_prefix h (List.prefix_append cs (quote :: rest)) with hds | hcs
  · exact hds
  · obtain ⟨more, rfl⟩ := hcs
    rw [List.prefix_append_right_inj] at h
    cases more with
    | nil => simp
    | cons d more =>
      obtain rfl := (List.cons_prefix_cons.1 h).1
      simp at hq

theorem bareTag?_quote {word : List Char} (hw : IsWord word) (hq : IsQuote quote) :
    bareTag? word (cs ++ quote :: rest) = bareTag? word cs := by
  cases h : bareTag? word (cs ++ quote :: rest) with
  | some found =>
    obtain ⟨skips, n⟩ := found
    obtain ⟨tag, rest', heq, rfl, htag⟩ := bareTag?_sound h
    have hnot : quote ∉ tag := by
      intro hm
      exact htag.not_mem_quote hw hq (List.mem_cons_of_mem _ (List.mem_cons_of_mem _ hm))
    obtain ⟨more, hcs⟩ := prefix_of_not_mem ⟨rest', heq.symm⟩ hnot
    have hpre : '\x7b' :: '%' :: tag <+: '\x7b' :: '%' :: cs := ⟨more, by simp [← hcs]⟩
    obtain ⟨m, hm⟩ := bareTag?_complete hw htag hpre
    exact h.symm.trans (bareTag?_append hw hm _).1 ▸ hm.symm
  | none =>
    cases hcs : bareTag? word cs with
    | none => rfl
    | some found => exact absurd (h.symm.trans (bareTag?_append hw hcs _).1) (by simp)

theorem opens_quote (hq : IsQuote quote) :
    opens (c :: (cs ++ quote :: rest)) = opens (c :: cs) := by
  cases cs with
  | nil =>
    by_cases hc : c = '\x7b'
    · rcases hq with rfl | rfl <;> simp [opens, hc]
    · simp [opens, hc]
  | cons d cs => exact opens_cons_append (List.cons_ne_nil d cs) _

theorem stretch_le (cs : List Char) : stretch cs ≤ cs.length := by
  induction cs with
  | nil => exact Nat.le_refl 0
  | cons c cs ih =>
    rw [stretch]
    split
    · exact Nat.zero_le _
    · exact Nat.succ_le_succ ih

theorem stretch_quote (hq : IsQuote quote) (hn : stretch (cs ++ quote :: rest) ≤ cs.length) :
    stretch cs = stretch (cs ++ quote :: rest) := by
  induction cs with
  | nil =>
    have hopens : opens (quote :: rest) = false := by
      rcases hq with rfl | rfl <;> simp [opens]
    simp [stretch, hopens] at hn
  | cons c cs ih =>
    simp only [List.cons_append, stretch, opens_quote hq] at hn ⊢
    split at hn
    · next ho => simp [ho]
    · next ho =>
      simp only [ho, Bool.false_eq_true, ↓reduceIte]
      rw [ih (by simpa using hn)]

theorem dash_quote (hq : IsQuote quote) : (dash (cs ++ quote :: rest)).1 = (dash cs).1 := by
  cases cs with
  | nil => rcases hq with rfl | rfl <;> rfl
  | cons c cs => rw [dash_append (List.cons_ne_nil c cs)]

theorem takeWhile_quote {p : Char → Bool} (hp : p quote = false) :
    (cs ++ quote :: rest).takeWhile p = cs.takeWhile p := by
  rw [List.takeWhile_append]
  split
  · next h => simp [hp, (List.takeWhile_prefix p).eq_of_length h]
  · rfl

theorem closing?_quote (mode : Mode) (hq : IsQuote quote) :
    closing? mode (cs ++ quote :: rest) = closing? mode cs := by
  cases h : closing? mode (cs ++ quote :: rest) with
  | some found =>
    have hplain : ∀ ds ∈ [['-', '%', '\x7d'], ['%', '\x7d'], ['\x7d', '\x7d']], quote ∉ ds := by
      rcases hq with rfl | rfl <;> decide
    obtain ⟨ds, tail, hds, heq⟩ : ∃ ds tail, quote ∉ ds ∧ cs ++ quote :: rest = ds ++ tail ∧
        ∀ more, closing? mode (ds ++ more) = some found := by
      unfold closing? at h
      split at h
      · next heq => exact ⟨['-', '%', '\x7d'], _, hplain _ (by simp), heq, fun _ => h⟩
      · next heq => exact ⟨['%', '\x7d'], _, hplain _ (by simp), heq, fun _ => h⟩
      · next heq => exact ⟨['\x7d', '\x7d'], _, hplain _ (by simp), heq, fun _ => h⟩
      · simp at h
    obtain ⟨more, rfl⟩ := prefix_of_not_mem ⟨tail, heq.1.symm⟩ hds
    exact (heq.2 more).symm
  | none =>
    cases hcs : closing? mode cs with
    | none => rfl
    | some found => exact absurd (h.symm.trans (closing?_append hcs _).1) (by simp)

theorem opening_comment_iff {body : List Char} : opening ('#' :: body) = .ok (kind, n) ↔
    ∃ m, through? ['#', '\x7d'] body = some m ∧ kind = .comment false false ∧ n = m + 1 := by
  simp only [opening]
  cases through? ['#', '\x7d'] body <;> simp [eq_comm]

theorem opening_region_iff {inside : List Char} {t : Bool} {k : Nat}
    (h : bareTag? "comment".toList inside = some (t, k)) : opening ('%' :: inside) = .ok (kind, n) ↔
      ∃ skips m, endComment? (inside.drop k) = some (skips, m) ∧
        kind = .comment (dash inside).1 skips ∧ n = 1 + k + m := by
  simp only [opening_percent, h]
  cases hend : endComment? (inside.drop k) with
  | none => simp
  | some found => simp [Prod.ext_iff, eq_comm]

theorem opening_quote (hq : IsQuote quote) (ho : opens ('\x7b' :: cs) = true)
    (hn : n ≤ cs.length) :
    opening (cs ++ quote :: rest) = .ok (kind, n) ↔ opening cs = .ok (kind, n) := by
  cases cs with
  | nil => simp [opens] at ho
  | cons d body =>
    rw [List.length_cons] at hn
    obtain rfl | rfl | rfl : d = '%' ∨ d = '\x7b' ∨ d = '#' := by simpa [opens, or_assoc] using ho
    · have htag : bareTag? "comment".toList (body ++ quote :: rest) =
          bareTag? "comment".toList body := bareTag?_quote isWord_comment hq
      cases hbody : bareTag? "comment".toList body with
      | none =>
        rw [List.cons_append, opening_percent, opening_percent, htag, hbody, dash_quote hq]
      | some found =>
        obtain ⟨t, k⟩ := found
        have hk : k ≤ body.length := (bareTag?_append isWord_comment hbody []).2
        rw [List.cons_append, opening_region_iff (htag.trans hbody), opening_region_iff hbody,
          List.drop_append_of_le_length hk, dash_quote hq]
        refine exists_congr fun skips => exists_congr fun m => and_congr_left ?_
        rintro ⟨-, rfl⟩
        exact endComment?_append_iff (by rw [List.length_drop]; omega)
    · rfl
    · rw [List.cons_append, opening_comment_iff, opening_comment_iff]
      refine exists_congr fun m => and_congr_left ?_
      rintro ⟨-, rfl⟩
      exact through?_append_iff (by decide) (by omega)

theorem inner_string_iff (hc : IsQuote c) : inner c cs = .ok (kind, n) ↔
    ∃ value, stringTail? c cs = some (value, n) ∧ kind = .string (String.ofList value) := by
  have hplain : isTagBlank c = false ∧ c ≠ '.' ∧ c ≠ '|' ∧ c ≠ '=' ∧ c ≠ '/' := by
    rcases hc with rfl | rfl <;> decide
  have hq : c = '"' ∨ c = '\'' := hc
  simp only [inner, hplain, hq, Bool.false_eq_true, ↓reduceIte]
  cases stringTail? c cs with
  | none => simp
  | some found => simp [Prod.ext_iff, and_comm, eq_comm]

theorem inner_quote (hq : IsQuote quote) (hn : n ≤ cs.length) :
    inner c (cs ++ quote :: rest) = .ok (kind, n) ↔ inner c cs = .ok (kind, n) := by
  by_cases hc : IsQuote c
  · rw [inner_string_iff hc, inner_string_iff hc]
    refine exists_congr fun value => and_congr_left fun _ => ?_
    exact stringTail?_append_iff hc hn
  · have hblank : isTagBlank quote = false := by rcases hq with rfl | rfl <;> rfl
    have hname : isNameRest quote = false := by rcases hq with rfl | rfl <;> rfl
    have hc : ¬ (c = '"' ∨ c = '\'') := hc
    simp only [inner, takeWhile_quote hblank, takeWhile_quote hname, hc, ↓reduceIte]

/-- A piece that ends before a quote is there whatever is behind. A text is one only if it is
followed by something else than the quote. -/
theorem next_quote {mode : Mode} (hq : IsQuote quote) (hn : n ≤ cs.length)
    (htext : kind = .text → n < cs.length) :
    next mode c (cs ++ quote :: rest) = .ok (kind, n) ↔ next mode c cs = .ok (kind, n) := by
  by_cases hm : mode = .text
  · subst hm
    simp only [next, opens_quote hq]
    split
    · next ho =>
      obtain rfl := exists_brace ho
      exact opening_quote hq ho hn
    · rw [Except.ok.injEq, Except.ok.injEq, Prod.mk.injEq, Prod.mk.injEq]
      refine and_congr_right fun hkind => ?_
      have hlt : n < cs.length := htext hkind.symm
      constructor
      · rintro rfl
        exact stretch_quote hq hn
      · rintro rfl
        exact stretch_append_of_opens (by simpa using hlt) _
  · rw [next_of_ne_text hm, next_of_ne_text hm, ← List.cons_append, closing?_quote mode hq]
    cases closing? mode (c :: cs) with
    | some found => rfl
    | none => exact inner_quote hq hn

theorem opening_le {cs : List Char} (ho : opens ('\x7b' :: cs) = true)
    (h : opening cs = .ok (kind, n)) : n ≤ cs.length := by
  cases cs with
  | nil => simp [opens] at ho
  | cons d body =>
    rw [List.length_cons]
    obtain rfl | rfl | rfl : d = '%' ∨ d = '\x7b' ∨ d = '#' := by simpa [opens, or_assoc] using ho
    · cases hbody : bareTag? "comment".toList body with
      | none =>
        simp only [opening_percent, hbody] at h
        obtain ⟨-, rfl⟩ := Prod.mk.inj (Except.ok.inj h)
        have hlength : body.length = (dashes (dash body).1).length + (dash body).2.length := by
          rw [← List.length_append, ← dash_eq]
        cases hd : (dash body).1 <;> simp [hd, dashes] at hlength ⊢
        omega
      | some found =>
        obtain ⟨t, k⟩ := found
        have hk : k ≤ body.length := (bareTag?_append isWord_comment hbody []).2
        obtain ⟨skips, m, hm, -, rfl⟩ := (opening_region_iff hbody).1 h
        have hle := (endComment?_append hm []).2
        rw [List.length_drop] at hle
        omega
    · obtain ⟨-, rfl⟩ := Prod.mk.inj (Except.ok.inj h)
      omega
    · obtain ⟨m, hm, -, rfl⟩ := opening_comment_iff.1 h
      have hle := (through?_bounds (by decide) hm).2
      omega

theorem inner_le (h : inner c cs = .ok (kind, n)) : n ≤ cs.length := by
  have hrun : ∀ p : Char → Bool, (cs.takeWhile p).length ≤ cs.length := fun p =>
    (List.takeWhile_prefix p).length_le
  by_cases hc : IsQuote c
  · obtain ⟨value, hv, -⟩ := (inner_string_iff hc).1 h
    exact (stringTail?_append hv []).2
  · have hc : ¬ (c = '"' ∨ c = '\'') := hc
    simp only [inner, hc, ↓reduceIte] at h
    split_ifs at h <;> obtain ⟨-, rfl⟩ := Prod.mk.inj (Except.ok.inj h)
    · exact hrun isTagBlank
    iterate 4 exact Nat.zero_le _
    · exact hrun isNameRest

theorem next_le {mode : Mode} (h : next mode c cs = .ok (kind, n)) : n ≤ cs.length := by
  by_cases hm : mode = .text
  · subst hm
    simp only [next] at h
    split at h
    · next ho =>
      obtain rfl := exists_brace ho
      exact opening_le ho h
    · obtain ⟨-, rfl⟩ := Prod.mk.inj (Except.ok.inj h)
      exact stretch_le cs
  · rw [next_of_ne_text hm] at h
    split at h
    · next found hfound =>
      obtain rfl := Except.ok.inj h
      exact Nat.le_of_lt_succ (closing?_append hfound []).2
    · exact inner_le h

end Quote

end Piece
end CodeTemplate

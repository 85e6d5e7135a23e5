import Mathlib.Algebra.Group.Nat.Even
import Mathlib.Tactic.Ring
import CodeTemplate.Proofs.Language.StringReader

/-! String literals read back: a text written as a literal of a builtin language is what the reader
of the language reads, and the reader stops where the literal ends. -/

namespace CodeTemplate

open Data.Json (isHex hex? charOf character? unicodeEscape? stringBody?)

/-! ### Codes of characters in base sixteen -/

theorem isHex_hexDigit (upper : Bool) {n : Nat} (h : n < 16) :
    isHex (Quoting.hexDigit upper n) = true := by
  revert n
  cases upper <;> decide

theorem digitValue_hexDigit (upper : Bool) {n : Nat} (h : n < 16) :
    Number.digitValue (Quoting.hexDigit upper n) = n := by
  revert n
  cases upper <;> decide

theorem charOf_toNat (c : Char) : charOf c.toNat = c := by
  have h : c.toNat.isValidChar := c.valid
  simp [charOf, h, Char.ofNat_toNat]

/-- A character that stands for itself in a literal. -/
def Plain (c : Char) : Prop := c ≠ '"' ∧ c ≠ '\\' ∧ c ≠ '\n' ∧ c ≠ '\r'

theorem plain_of_isHex {c : Char} (h : isHex c = true) : Plain c := by
  refine ⟨?_, ?_, ?_, ?_⟩ <;> (rintro rfl; revert h; decide)

namespace Quoting

variable {q : Quoting} {c : Char}

theorem code_succ {k : Nat} (hk : q.codeDigits = k + 1) (c : Char) :
    q.code c =
      hexDigit q.upperCode (c.toNat / 16 ^ k % 16) :: { q with codeDigits := k }.code c := by
  have hpow : twoTo (4 * k) = 16 ^ k := by
    simp only [twoTo, Nat.pow_eq, pow_mul]
    norm_num
  simp only [code, hk, List.range_succ, List.reverse_append, List.reverse_singleton,
    List.singleton_append, List.map_cons, hpow]

/-- The induction is on the number of digits; the first digit is the highest. -/
theorem foldl_code (q : Quoting) (c : Char) (n : Nat) :
    (q.code c).foldl (fun n d => n * 16 + Number.digitValue d) n =
      n * 16 ^ q.codeDigits + c.toNat % 16 ^ q.codeDigits := by
  induction hk : q.codeDigits generalizing q n with
  | zero => simp [code, hk, Nat.mod_one]
  | succ k ih =>
    rw [code_succ hk, List.foldl_cons, ih _ _ rfl, digitValue_hexDigit _ (Nat.mod_lt _ (by omega)),
      Nat.mod_pow_succ]
    ring

theorem isHex_of_mem_code {d : Char} (h : d ∈ q.code c) : isHex d = true := by
  obtain ⟨i, -, rfl⟩ := List.mem_map.1 h
  exact isHex_hexDigit _ (Nat.mod_lt _ (by omega))

theorem hex?_code (h : c.toNat < 16 ^ q.codeDigits) : hex? (q.code c) = some c.toNat := by
  have hall : (q.code c).all isHex = true := List.all_eq_true.2 fun d hd => isHex_of_mem_code hd
  rw [hex?, if_pos hall, Number.natOfDigits, Number.digitsValue, foldl_code, Nat.mod_eq_of_lt h,
    Nat.zero_mul, Nat.zero_add]

@[simp] theorem length_code (q : Quoting) (c : Char) : (q.code c).length = q.codeDigits := by
  simp [code]

theorem drop_code {k : Nat} (hk : q.codeDigits = k) (c : Char) (cs : List Char) :
    (q.code c ++ cs).drop k = cs := by
  rw [List.drop_append_of_le_length (by simp [hk]), List.drop_of_length_le (by simp [hk]),
    List.nil_append]

/-- What a quoting needs so that its literals end where they should. -/
structure Guarded (q : Quoting) : Prop where
  named : ∀ c ∈ ['"', '\\', '\n', '\r'], ∃ e, (c, e) ∈ q.named
  lead : ∃ c, q.codeLead.toList = ['\\', c] ∧ Plain c

/-- How a character is written: by an escape of its own, by its code, or as it is. -/
theorem Guarded.escape_cases (hq : q.Guarded) (c : Char) :
    (∃ e, (c, e) ∈ q.named ∧ q.escape c = ['\\', e]) ∨
      Plain c ∧ (c.toNat < 0x80 ∧ q.escape c = q.codeLead.toList ++ q.code c ∨
        0x20 ≤ c.toNat ∧ q.escape c = [c]) := by
  unfold escape
  cases hl : q.named.lookup c with
  | some e =>
    obtain ⟨before, after, heq, -⟩ := List.lookup_eq_some_iff.1 hl
    exact .inl ⟨e, by simp [heq], rfl⟩
  | none =>
    have hne : ∀ d ∈ ['"', '\\', '\n', '\r'], c ≠ d := by
      rintro d hd rfl
      obtain ⟨e, he⟩ := hq.named c hd
      have := List.lookup_eq_none_iff.1 hl (c, e) he
      simp at this
    have hc : Plain c :=
      ⟨hne _ (by simp), hne _ (by simp), hne _ (by simp), hne _ (by simp)⟩
    by_cases hcode : (decide (c.toNat < 0x20) || (q.escapesDelete && c.toNat == 0x7F)) = true
    · simp only [hcode, ↓reduceIte]
      simp only [Bool.or_eq_true, Bool.and_eq_true, decide_eq_true_eq, beq_iff_eq] at hcode
      exact .inr ⟨hc, .inl ⟨by omega, trivial⟩⟩
    · simp only [hcode, Bool.false_eq_true, ↓reduceIte]
      simp only [Bool.or_eq_true, decide_eq_true_eq, not_or] at hcode
      exact .inr ⟨hc, .inr ⟨by omega, trivial⟩⟩

theorem Guarded.exists_escape (hq : q.Guarded) (c : Char) :
    ∃ d ds, q.escape c = d :: ds ∧ d ≠ '"' := by
  rcases hq.escape_cases c with ⟨e, -, heq⟩ | ⟨hc, ⟨-, heq⟩ | ⟨-, heq⟩⟩
  · exact ⟨'\\', [e], heq, by decide⟩
  · obtain ⟨l, hl, -⟩ := hq.lead
    exact ⟨'\\', l :: q.code c, by simp [heq, hl], by decide⟩
  · exact ⟨c, [], heq, hc.1⟩

theorem toList_quote (q : Quoting) (s : String) :
    (q.quote s).toList = '"' :: (s.toList.flatMap q.escape ++ ['"']) := by
  simp [quote]

end Quoting

/-! ### Quotes behind backslashes -/

/-- What comes next is escaped: an odd number of backslashes stands right before it. -/
def Escaped (before : List Char) : Prop := Odd (before.reverse.takeWhile (· == '\\')).length

theorem not_escaped_nil : ¬ Escaped [] := by simp [Escaped]

theorem escaped_concat {before : List Char} {c : Char} :
    Escaped (before ++ [c]) ↔ c = '\\' ∧ ¬ Escaped before := by
  by_cases hc : c = '\\'
  · simp [Escaped, hc, Nat.odd_add_one]
  · simp [Escaped, hc]

theorem not_escaped_concat {before : List Char} {c : Char} (h : Plain c) :
    ¬ Escaped (before ++ [c]) := fun he => h.2.1 (escaped_concat.1 he).1

theorem not_escaped_append {before cs : List Char} (hb : ¬ Escaped before)
    (h : ∀ c ∈ cs, Plain c) : ¬ Escaped (before ++ cs) := by
  rcases List.eq_nil_or_concat cs with rfl | ⟨ds, d, rfl⟩
  · simpa using hb
  · rw [List.concat_eq_append, ← List.append_assoc]
    exact not_escaped_concat (h d (by simp))

namespace Quoting

variable {q : Quoting}

/-- After the text of a character nothing is escaped, and in it each quote is. -/
theorem Guarded.escaped_escape (hq : q.Guarded) (c : Char) {before : List Char}
    (hb : ¬ Escaped before) : ¬ Escaped (before ++ q.escape c) ∧
      ∀ ds es, q.escape c = ds ++ '"' :: es → Escaped (before ++ ds) := by
  have hslash : Escaped (before ++ ['\\']) := escaped_concat.2 ⟨rfl, hb⟩
  rcases hq.escape_cases c with ⟨e, -, heq⟩ | ⟨hc, ⟨-, heq⟩ | ⟨-, heq⟩⟩
  · rw [heq]
    refine ⟨?_, fun ds es h => ?_⟩
    · rw [List.append_cons]
      exact fun he => (escaped_concat.1 he).2 hslash
    · rcases ds with _ | ⟨d, _ | ⟨d', ds⟩⟩
      · simp at h
      · obtain ⟨rfl, -⟩ := List.cons.inj h
        exact hslash
      · simp at h
  · obtain ⟨l, hl, hp⟩ := hq.lead
    have hall : ∀ d ∈ l :: q.code c, Plain d := by
      intro d hd
      rcases List.mem_cons.1 hd with rfl | hd
      · exact hp
      · exact plain_of_isHex (isHex_of_mem_code hd)
    have hcons : q.escape c = ['\\', l] ++ q.code c := by rw [heq, hl]
    rw [hcons]
    refine ⟨?_, fun ds es h => ?_⟩
    · rw [← List.append_assoc, List.append_cons]
      refine not_escaped_append (not_escaped_concat hp) fun d hd => hall d (by simp [hd])
    · have hm : '"' ∈ '\\' :: l :: q.code c := by
        rw [show '\\' :: l :: q.code c = ds ++ '"' :: es from h]
        simp
      rcases List.mem_cons.1 hm with hm | hm
      · simp at hm
      · exact absurd rfl (hall _ hm).1
  · rw [heq]
    refine ⟨not_escaped_concat hc, fun ds es h => ?_⟩
    have hm : '"' ∈ [c] := by simp [h]
    exact absurd (List.mem_singleton.1 hm).symm hc.1

theorem Guarded.escaped_flatMap (hq : q.Guarded) (s : List Char) {before : List Char}
    (hb : ¬ Escaped before) : ¬ Escaped (before ++ s.flatMap q.escape) ∧
      ∀ ds es, s.flatMap q.escape = ds ++ '"' :: es → Escaped (before ++ ds) := by
  induction s generalizing before with
  | nil => simpa using hb
  | cons c s ih =>
    obtain ⟨hc, hin⟩ := hq.escaped_escape c hb
    obtain ⟨hs, hrest⟩ := ih hc
    rw [List.flatMap_cons]
    refine ⟨by rwa [← List.append_assoc], fun ds es h => ?_⟩
    rcases List.append_eq_append_iff.1 h with ⟨as, rfl, has⟩ | ⟨bs, hbs, has⟩
    · rw [← List.append_assoc]
      exact hrest as es has
    · rcases bs with _ | ⟨b, bs⟩
      · have := hrest [] es (by simpa using has.symm)
        rw [List.append_nil] at hbs
        rwa [List.append_nil, hbs] at this
      · obtain ⟨rfl, -⟩ := List.cons.inj has
        exact hin ds bs hbs

/-- The first and the last character of a literal are its only quotes that are not escaped. -/
theorem Guarded.not_escaped_iff (hq : q.Guarded) {s : String} {before after : List Char}
    (h : (q.quote s).toList = before ++ '"' :: after) :
    ¬ Escaped before ↔ before = [] ∨ after = [] := by
  rw [toList_quote] at h
  have hfirst : ¬ Escaped ['"'] := by simp [Escaped]
  obtain ⟨hend, hin⟩ := hq.escaped_flatMap s.toList hfirst
  rcases before with _ | ⟨b, before⟩
  · simp [not_escaped_nil]
  · obtain ⟨rfl, ht⟩ := List.cons.inj h
    rcases List.append_eq_append_iff.1 ht with ⟨as, rfl, has⟩ | ⟨bs, hbs, has⟩
    · rcases as with _ | ⟨a, as⟩
      · obtain ⟨-, rfl⟩ := List.cons.inj has
        simpa using hend
      · simp at has
    · rcases bs with _ | ⟨c, bs⟩
      · obtain ⟨-, rfl⟩ := List.cons.inj has
        rw [List.append_nil] at hbs
        simpa [hbs] using hend
      · obtain ⟨rfl, rfl⟩ := List.cons.inj has
        simpa using hin before bs hbs

end Quoting

namespace StringReader

/-- A reader that reads what each character is written as reads what all of them are written as. -/
theorem read_flatMap (read : List Char → Option (List Char × List Char)) {write : Char → List Char}
    {rest : List Char} (hend : read ('"' :: rest) = some ([], rest))
    (hstep : ∀ c cs, read (write c ++ cs) = (read cs).map fun w => (c :: w.1, w.2))
    (s : List Char) : read (s.flatMap write ++ '"' :: rest) = some (s, rest) := by
  induction s with
  | nil => exact hend
  | cons c s ih =>
    rw [List.flatMap_cons, List.append_assoc, hstep, ih]
    rfl

/-- A literal that no further quote follows opens no literal of several lines. -/
theorem not_three_quotes {q : Quoting} (hq : q.Guarded) (s : List Char) {rest : List Char}
    (hr : rest.head? ≠ some '"') :
    ['"', '"', '"'].isPrefixOf ('"' :: (s.flatMap q.escape ++ '"' :: rest)) = false := by
  have hne : ∀ {c : Char}, c ≠ '"' → ('"' == c) = false :=
    fun h => beq_eq_false_iff_ne.2 h.symm
  rcases s with _ | ⟨c, s⟩
  · rcases rest with _ | ⟨c, rest⟩
    · rfl
    · have hc : c ≠ '"' := fun h => hr (by simp [h])
      simp [List.isPrefixOf, hne hc]
  · obtain ⟨d, ds, heq, hd⟩ := hq.exists_escape c
    simp [heq, List.isPrefixOf, hne hd]

/-! ### Java -/

theorem translate_of_ne {c : Char} (h : c ≠ '\\') (even : Bool) (cs : List Char) :
    translate even (c :: cs) = ⟨some c, cs⟩ :: translate true cs := by
  have hb : (c != '\\' || !even) = true := by simp [h]
  rw [translate]
  simp only [h, false_and, ↓reduceIte, hb]

theorem translate_escape {e : Char} (h : e ≠ 'u') (cs : List Char) :
    translate true ('\\' :: e :: cs) =
      ⟨some '\\', e :: cs⟩ :: ⟨some e, cs⟩ :: translate true cs := by
  -- The character after a backslash is not read as the start of an escape.
  have hsecond : translate false (e :: cs) = ⟨some e, cs⟩ :: translate true cs := by
    rw [translate]
    simp
  rw [translate]
  simp only [List.head?_cons, Option.some.injEq, h, and_false, ↓reduceIte, bne_self_eq_false,
    Bool.not_true, Bool.or_self, hsecond]

theorem unicodeEscape?_code {q : Quoting} (hd : q.codeDigits = 4) {c : Char} (hc : c.toNat < 0x80)
    (cs : List Char) : unicodeEscape? (q.code c ++ cs) = some c.toNat := by
  have hlen := q.length_code c
  rw [hd] at hlen
  match hq : q.code c, hlen with
  | [x, y, z, w], _ =>
    simp only [List.cons_append, List.nil_append, unicodeEscape?]
    rw [← hq]
    exact Quoting.hex?_code (by rw [hd]; omega)

theorem character?_code {q : Quoting} (hd : q.codeDigits = 4) {c : Char} (hc : c.toNat < 0x80)
    (cs : List Char) : character? '\\' ('u' :: (q.code c ++ cs)) = some (c, 5) := by
  have hhigh : Data.Json.isHighSurrogate c.toNat = false := by
    simp [Data.Json.isHighSurrogate]
    omega
  simp only [character?, beq_self_eq_true, ↓reduceIte, unicodeEscape?_code hd hc,
    Option.bind_eq_bind, Option.bind_some, hhigh, Bool.false_and, Bool.false_eq_true, charOf_toNat]
  split <;> rfl

theorem translate_code {q : Quoting} (hd : q.codeDigits = 4) {c : Char} (hc : c.toNat < 0x80)
    (cs : List Char) :
    translate true ('\\' :: 'u' :: (q.code c ++ cs)) = ⟨some c, cs⟩ :: translate true cs := by
  rw [translate]
  simp only [List.head?_cons, and_self, ↓reduceIte, character?_code hd hc, List.drop_succ_cons,
    Quoting.drop_code hd]

theorem javaBody?_plain {c : Char} (h : Plain c) (rest : List Char) (ts : List Translated) :
    javaBody? (⟨some c, rest⟩ :: ts) = (javaBody? ts).map fun w => (c :: w.1, w.2) := by
  obtain ⟨hq, hb, hn, hr⟩ := h
  cases ts with
  | nil => simp [javaBody?, hq]
  | cons t ts =>
    rw [javaBody?]
    simp only [Option.bind_eq_bind, Option.bind_some, hq, hn, hr, hb, or_self, ↓reduceIte]
    cases javaBody? (t :: ts) <;> rfl

theorem javaBody?_escape {d e : Char} (h : javaEscape? e = some d) (rest rest' : List Char)
    (ts : List Translated) :
    javaBody? (⟨some '\\', rest⟩ :: ⟨some e, rest'⟩ :: ts) =
      (javaBody? ts).map fun w => (d :: w.1, w.2) := by
  rw [javaBody?]
  simp only [h, Option.bind_eq_bind, Option.bind_some, Char.reduceEq, ↓reduceIte, or_self]
  cases javaBody? ts <;> rfl

theorem guarded_java : Language.javaQuoting.Guarded where
  named := by simp [Language.javaQuoting, Language.jsonQuoting]
  lead := ⟨'u', rfl, by simp [Plain]⟩

theorem java_step (c : Char) (cs : List Char) :
    javaBody? (translate true (Language.javaQuoting.escape c ++ cs)) =
      (javaBody? (translate true cs)).map fun w => (c :: w.1, w.2) := by
  have hnamed : ∀ w ∈ Language.javaQuoting.named, w.2 ≠ 'u' ∧ javaEscape? w.2 = some w.1 := by
    decide
  have hlead : Language.javaQuoting.codeLead.toList = ['\\', 'u'] := rfl
  rcases guarded_java.escape_cases c with ⟨e, he, heq⟩ | ⟨hp, ⟨hc, heq⟩ | ⟨-, heq⟩⟩
  · obtain ⟨hu, hd⟩ := hnamed _ he
    rw [heq, List.cons_append, List.singleton_append, translate_escape hu, javaBody?_escape hd]
  · rw [heq, hlead, List.append_assoc, List.cons_append, List.singleton_append,
      translate_code rfl hc, javaBody?_plain hp]
  · rw [heq, List.singleton_append, translate_of_ne hp.2.1, javaBody?_plain hp]

theorem java?_quote (s : String) {rest : List Char} (hr : rest.head? ≠ some '"') :
    java? ((Language.javaQuoting.quote s).toList ++ rest) = some (s.toList, rest) := by
  have hend : javaBody? (translate true ('"' :: rest)) = some ([], rest) := by
    rw [translate_of_ne (by simp)]
    cases translate true rest <;> simp [javaBody?]
  have heq : (Language.javaQuoting.quote s).toList ++ rest =
      '"' :: (s.toList.flatMap Language.javaQuoting.escape ++ '"' :: rest) := by
    simp [Quoting.toList_quote]
  rw [heq, java?, not_three_quotes guarded_java s.toList hr, translate_of_ne (by simp)]
  exact read_flatMap (fun cs => javaBody? (translate true cs)) hend java_step s.toList

/-! ### Python -/

theorem pythonBody?_plain {c : Char} (h : Plain c) (cs : List Char) :
    pythonBody? (c :: cs) = (pythonBody? cs).map fun w => (c :: w.1, w.2) := by
  obtain ⟨hq, hb, hn, hr⟩ := h
  rw [pythonBody?]
  simp only [hq, hn, hr, hb, or_self, ↓reduceIte, Option.bind_eq_bind, Option.bind_some,
    List.drop_zero]
  cases pythonBody? cs <;> rfl

theorem pythonBody?_escape {cs : List Char} {c : Char} {n : Nat}
    (h : pythonEscape? cs = some (c, n)) :
    pythonBody? ('\\' :: cs) = (pythonBody? (cs.drop n)).map fun w => (c :: w.1, w.2) := by
  rw [pythonBody?]
  simp only [h, Option.bind_eq_bind, Option.bind_some, Char.reduceEq, ↓reduceIte, or_self]
  cases pythonBody? (cs.drop n) <;> rfl

theorem pythonEscape?_code {q : Quoting} (hd : q.codeDigits = 2) {c : Char} (hc : c.toNat < 0x80)
    (cs : List Char) : pythonEscape? ('x' :: (q.code c ++ cs)) = some (c, 3) := by
  have hlen := q.length_code c
  rw [hd] at hlen
  match hq : q.code c, hlen with
  | [x, y], _ =>
    have hx : hex? [x, y] = some c.toNat := by
      rw [← hq]
      exact Quoting.hex?_code (by rw [hd]; omega)
    simp [pythonEscape?, hx, charOf_toNat]

theorem guarded_python : Language.pythonQuoting.Guarded where
  named := by simp [Language.pythonQuoting]
  lead := ⟨'x', rfl, by simp [Plain]⟩

theorem python_step (c : Char) (cs : List Char) :
    pythonBody? (Language.pythonQuoting.escape c ++ cs) =
      (pythonBody? cs).map fun w => (c :: w.1, w.2) := by
  have hnamed : ∀ w ∈ Language.pythonQuoting.named,
      pythonEscape? (w.2 :: cs) = some (w.1, 1) := by
    simp [Language.pythonQuoting, pythonEscape?]
  have hlead : Language.pythonQuoting.codeLead.toList = ['\\', 'x'] := rfl
  rcases guarded_python.escape_cases c with ⟨e, he, heq⟩ | ⟨hp, ⟨hc, heq⟩ | ⟨-, heq⟩⟩
  · rw [heq, List.cons_append, List.singleton_append, pythonBody?_escape (hnamed _ he),
      List.drop_one, List.tail_cons]
  · rw [heq, hlead, List.append_assoc, List.cons_append, List.singleton_append,
      pythonBody?_escape (pythonEscape?_code rfl hc cs), List.drop_succ_cons,
      Quoting.drop_code (k := 2) rfl]
  · rw [heq, List.singleton_append, pythonBody?_plain hp]

theorem python?_quote (s : String) {rest : List Char} (hr : rest.head? ≠ some '"') :
    python? ((Language.pythonQuoting.quote s).toList ++ rest) = some (s.toList, rest) := by
  have hend : pythonBody? ('"' :: rest) = some ([], rest) := by
    rw [pythonBody?, if_pos rfl]
  have heq : (Language.pythonQuoting.quote s).toList ++ rest =
      '"' :: (s.toList.flatMap Language.pythonQuoting.escape ++ '"' :: rest) := by
    simp [Quoting.toList_quote]
  rw [heq, python?, not_three_quotes guarded_python s.toList hr]
  exact read_flatMap pythonBody? hend python_step s.toList

/-! ### JSON -/

theorem stringBody?_cons {c d : Char} {cs : List Char} {n : Nat} (hc : c ≠ '"')
    (h : character? c cs = some (d, n)) :
    stringBody? (c :: cs) = (stringBody? (cs.drop n)).map fun w => (d :: w.1, w.2) := by
  rw [stringBody?]
  simp only [hc, h, beq_iff_eq, ↓reduceIte, Option.bind_eq_bind, Option.bind_some]
  cases stringBody? (cs.drop n) <;> rfl

theorem guarded_json : Language.jsonQuoting.Guarded where
  named := by simp [Language.jsonQuoting]
  lead := ⟨'u', rfl, by simp [Plain]⟩

theorem json_step (c : Char) (cs : List Char) :
    stringBody? (Language.jsonQuoting.escape c ++ cs) =
      (stringBody? cs).map fun w => (c :: w.1, w.2) := by
  have hnamed : ∀ w ∈ Language.jsonQuoting.named,
      character? '\\' (w.2 :: cs) = some (w.1, 1) := by
    simp [Language.jsonQuoting, character?, Data.Json.escaped?]
  have hlead : Language.jsonQuoting.codeLead.toList = ['\\', 'u'] := rfl
  rcases guarded_json.escape_cases c with ⟨e, he, heq⟩ | ⟨hp, ⟨hc, heq⟩ | ⟨hc, heq⟩⟩
  · rw [heq, List.cons_append, List.singleton_append, stringBody?_cons (by decide) (hnamed _ he),
      List.drop_one, List.tail_cons]
  · rw [heq, hlead, List.append_assoc, List.cons_append, List.singleton_append,
      stringBody?_cons (by decide) (character?_code rfl hc cs), List.drop_succ_cons,
      Quoting.drop_code (k := 4) rfl]
  · have hchar : character? c cs = some (c, 0) := by
      have hb : (c == '\\') = false := beq_eq_false_iff_ne.2 hp.2.1
      simp only [character?, hb, Bool.false_eq_true, ↓reduceIte]
      rw [if_neg (by omega)]
    rw [heq, List.singleton_append, stringBody?_cons hp.1 hchar, List.drop_zero]

theorem json?_quote (s : String) (rest : List Char) :
    json? ((Language.jsonQuoting.quote s).toList ++ rest) = some (s.toList, rest) := by
  have hend : stringBody? ('"' :: rest) = some ([], rest) := by
    rw [stringBody?]
    rfl
  have heq : (Language.jsonQuoting.quote s).toList ++ rest =
      '"' :: (s.toList.flatMap Language.jsonQuoting.escape ++ '"' :: rest) := by
    simp [Quoting.toList_quote]
  rw [heq]
  exact read_flatMap stringBody? hend json_step s.toList

end StringReader

namespace Language

theorem exists_quoting {l : Language} (hl : l ∈ builtin) :
    ∃ q : Quoting, q.Guarded ∧ l.stringLiteral = q.quote := by
  simp only [builtin, List.mem_cons, List.not_mem_nil, or_false] at hl
  rcases hl with rfl | rfl | rfl | rfl
  · exact ⟨jsonQuoting, StringReader.guarded_json, rfl⟩
  · exact ⟨javaQuoting, StringReader.guarded_java, rfl⟩
  · exact ⟨javaQuoting, StringReader.guarded_java, rfl⟩
  · exact ⟨pythonQuoting, StringReader.guarded_python, rfl⟩

theorem readString?_default : default.readString? = StringReader.json? := by
  simp [readString?, default]

theorem readString?_java : java.readString? = StringReader.java? := by
  simp [readString?, java]

theorem readString?_gwt : gwt.readString? = StringReader.java? := by
  simp [readString?, gwt]

theorem readString?_python : python.readString? = StringReader.python? := by
  simp [readString?, python]

theorem readString?_quote {l : Language} (hl : l ∈ builtin) (s : String) {rest : List Char}
    (hr : rest.head? ≠ some '"') :
    l.readString? ((l.stringLiteral s).toList ++ rest) = some (s.toList, rest) := by
  simp only [builtin, List.mem_cons, List.not_mem_nil, or_false] at hl
  rcases hl with rfl | rfl | rfl | rfl
  · rw [readString?_default]
    exact StringReader.json?_quote s rest
  · rw [readString?_java]
    exact StringReader.java?_quote s hr
  · rw [readString?_gwt]
    exact StringReader.java?_quote s hr
  · rw [readString?_python]
    exact StringReader.python?_quote s hr

/-- Each string has a literal in each builtin language. Whatever follows it, unless it is a further
quote, the language reads the string back from the literal and stops right behind it; no other
string has this literal, and no quote but the first and the last character ends or opens it. -/
theorem readString?_literal {l : Language} (hl : l ∈ builtin) (s rest : String)
    (hr : rest.toList.head? ≠ some '"') :
    ∃ text : String, l.literal (.string s) = .ok text ∧
      l.readString? (text ++ rest).toList = some (s.toList, rest.toList) ∧
      (∀ s', l.literal (.string s') = .ok text → s' = s) ∧
      (∃ body, text.toList = '"' :: (body ++ ['"'])) ∧
      ∀ before after, text.toList = before ++ '"' :: after →
        (¬ Escaped before ↔ before = [] ∨ after = []) := by
  have hread := readString?_quote hl s hr
  obtain ⟨q, hq, hliteral⟩ := exists_quoting hl
  refine ⟨l.stringLiteral s, rfl, by rwa [String.toList_append], fun s' hs => ?_,
    ⟨_, hliteral ▸ q.toList_quote s⟩, fun before after h =>
    hq.not_escaped_iff (hliteral ▸ h)⟩
  have heq : l.stringLiteral s' = l.stringLiteral s := Except.ok.inj hs
  have hread' := readString?_quote hl s' hr
  rw [heq, hread] at hread'
  obtain ⟨hlist, -⟩ := Prod.mk.inj (Option.some.inj hread')
  exact (String.toList_inj.1 hlist).symm

/-- A string that looks like an escape, with a quote, a line break and two control characters. -/
theorem readString?_literal_escapes :
    let s := "a\\u0041\"b\n\x07\x7f"
    java ∈ builtin ∧ ";".toList.head? ≠ some '"' ∧
      java.literal (.string s) = .ok "\"a\\\\u0041\\\"b\\n\\u0007\\u007F\"" ∧
      java.readString? "\"a\\\\u0041\\\"b\\n\\u0007\\u007F\";".toList =
        some (s.toList, [';']) := by
  intro s
  have hl : java ∈ builtin := by simp [builtin]
  have hr : ";".toList.head? ≠ some '"' := by decide
  have htext : java.literal (.string s) =
      .ok "\"a\\\\u0041\\\"b\\n\\u0007\\u007F\"" := by decide +kernel
  obtain ⟨text, hlit, hread, -⟩ := readString?_literal hl s ";" hr
  obtain rfl := Except.ok.inj (hlit.symm.trans htext)
  exact ⟨hl, hr, htext, hread⟩

end Language
end CodeTemplate

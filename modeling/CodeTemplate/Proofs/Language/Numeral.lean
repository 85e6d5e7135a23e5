import CodeTemplate.Language.Table
import CodeTemplate.Proofs.Number.Text

/-! Integers as literals. The languages that have a type of longer integers read a numeral by its
type, in the range of that type; a literal of an integer is read as it in the range of the longest
type, and beyond it as nothing. -/

namespace CodeTemplate
namespace Number

theorem isDigit_of_mem_toDigits {n : ℕ} {c : Char} (h : c ∈ Nat.toDigits 10 n) :
    c.isDigit = true :=
  Nat.isDigit_of_mem_toDigits (by decide) (by decide) h

/-- Digits are read as what they were written for. -/
theorem natOfDigits_toDigits (n : ℕ) : natOfDigits 10 (Nat.toDigits 10 n) = n := by
  have hdigits : ∀ (cs : List Char) (value : ℕ), (∀ c ∈ cs, c.isDigit = true) →
      cs.foldl (fun n c => n * 10 + digitValue c) value = Nat.ofDigitChars 10 cs value := by
    intro cs
    induction cs with
    | nil => simp
    | cons c cs ih =>
      intro value h
      obtain ⟨hc, hrest⟩ := List.forall_mem_cons.1 h
      rw [List.foldl_cons, ih _ hrest, Nat.ofDigitChars_cons, digitValue, if_pos hc, Nat.mul_comm]
  rw [natOfDigits, digitsValue, hdigits _ _ fun c hc => isDigit_of_mem_toDigits hc,
    Nat.ofDigitChars_ten_toDigits]

/-- Only zero starts with a zero. -/
theorem head?_toDigits_ne {n : ℕ} (hn : 0 < n) : (Nat.toDigits 10 n).head? ≠ some '0' := by
  induction n using Nat.strong_induction_on with
  | _ n ih =>
    rw [Nat.toDigits_eq_if (by decide)]
    split
    · simp [hn.ne']
    · rw [List.head?_append_of_ne_nil _ Nat.toDigits_ne_nil]
      exact ih (n / 10) (by omega) (by omega)

end Number

/-- A numeral in base ten, by its type. -/
inductive Numeral where
  | int (i : ℤ)
  | long (i : ℤ)
  | double (x : Number)
  deriving DecidableEq

namespace Numeral

open Number (Extended extended)

/-- What the numeral denotes. -/
def value? : Numeral → Option Extended
  | int i | long i => some (extended i)
  | double x => x.value?

/-- The value of some digits. A zero in front of others would start a numeral in base eight. -/
def magnitude? (ds : List Char) : Option ℕ :=
  if ds = [] ∨ ds.all Char.isDigit = false ∨ (ds.head? = some '0' ∧ ds ≠ ['0']) then none
  else some (Number.natOfDigits 10 ds)

/-- Digits of which a minus may change the sign. -/
def signed? : List Char → Option ℤ
  | '-' :: ds => (magnitude? ds).map fun (n : ℕ) => -(n : ℤ)
  | ds => (magnitude? ds).map Int.ofNat

/-- An integer that has its place in so many bits, of which one is for the sign. -/
def integer? (bits : ℕ) (cs : List Char) : Option ℤ :=
  (signed? cs).filter fun i => -2 ^ (bits - 1) ≤ i ∧ i < 2 ^ (bits - 1)

/-- A number with a point, a power of ten or a suffix, which is cut off. -/
def double? (cs : List Char) : Option Number :=
  if cs.head? = some '+' then none else (Number.ofChars? cs).filter (·.isFinite)

/-- The numeral that a text is. -/
def read? (text : String) : Option Numeral :=
  let cs := text.toList
  if cs.getLast? ∈ [some 'L', some 'l'] then (integer? 64 cs.dropLast).map long
  else if cs.getLast? ∈ [some 'D', some 'd'] then (double? cs.dropLast).map double
  else if cs.any fun c => c ∈ ['.', 'e', 'E'] then (double? cs).map double
  else (integer? 32 cs).map int

theorem magnitude?_toDigits (n : ℕ) : magnitude? (Nat.toDigits 10 n) = some n := by
  have hall : (Nat.toDigits 10 n).all Char.isDigit = true :=
    List.all_eq_true.2 fun c hc => Number.isDigit_of_mem_toDigits hc
  have hlead : ¬ ((Nat.toDigits 10 n).head? = some '0' ∧ Nat.toDigits 10 n ≠ ['0']) := by
    rintro ⟨hhead, hne⟩
    rcases Nat.eq_zero_or_pos n with rfl | hn
    · exact hne (Nat.toDigits_zero 10)
    · exact Number.head?_toDigits_ne hn hhead
  rw [magnitude?, if_neg, Number.natOfDigits_toDigits]
  simp [Nat.toDigits_ne_nil, hall, hlead]

theorem signed?_of_head?_ne {cs : List Char} (h : cs.head? ≠ some '-') :
    signed? cs = (magnitude? cs).map Int.ofNat := by
  unfold signed?
  split
  · simp at h
  · rfl

theorem signed?_toString (i : ℤ) : signed? (toString i).toList = some i := by
  rw [Number.toList_toString]
  by_cases hi : i < 0
  · have hnat : -(i.natAbs : ℤ) = i := by omega
    rw [if_pos hi, List.singleton_append, signed?, magnitude?_toDigits, Option.map_some, hnat]
  · have hnat : Int.ofNat i.natAbs = i := Int.natAbs_of_nonneg (not_lt.1 hi)
    have hhead : (Nat.toDigits 10 i.natAbs).head? ≠ some '-' := by
      intro h
      have hdigit := Number.isDigit_of_mem_toDigits (List.mem_of_head? h)
      exact absurd hdigit (by decide)
    rw [if_neg hi, List.nil_append, signed?_of_head?_ne hhead, magnitude?_toDigits,
      Option.map_some, hnat]

theorem integer?_toString (bits : ℕ) (i : ℤ) : integer? bits (toString i).toList =
    if -2 ^ (bits - 1) ≤ i ∧ i < 2 ^ (bits - 1) then some i else none := by
  rw [integer?, signed?_toString, Option.filter_some]
  simp

/-- The text of an integer has digits and a minus, so no sign of another type is in it. -/
theorem not_mem_toString {c : Char} (hminus : c ≠ '-') (hdigit : c.isDigit = false) (i : ℤ) :
    c ∉ (toString i).toList := by
  rw [Number.toList_toString]
  intro h
  rcases List.mem_append.1 h with h | h
  · split at h
    · exact hminus (List.mem_singleton.1 h)
    · simp at h
  · rw [Number.isDigit_of_mem_toDigits h] at hdigit
    cases hdigit

theorem read?_toString {i : ℤ} (hi : -2 ^ 31 ≤ i ∧ i < 2 ^ 31) :
    read? (toString i) = some (.int i) := by
  have hmark : ∀ c ∈ ['L', 'l', 'D', 'd', '.', 'e', 'E'], c ∉ (toString i).toList := by
    have hkinds : ['L', 'l', 'D', 'd', '.', 'e', 'E'].all fun c => c != '-' && !c.isDigit := by
      decide
    intro c hc
    have hkind := List.all_eq_true.1 hkinds c hc
    simp only [Bool.and_eq_true, bne_iff_ne, Bool.not_eq_true'] at hkind
    exact not_mem_toString hkind.1 hkind.2 i
  have hlast : ∀ c ∈ ['L', 'l', 'D', 'd', '.', 'e', 'E'],
      (toString i).toList.getLast? ≠ some c := fun c hc h => hmark c hc (List.mem_of_getLast? h)
  have hlong : (toString i).toList.getLast? ∉ [some 'L', some 'l'] := by
    simp only [List.mem_cons, List.not_mem_nil, or_false, not_or]
    exact ⟨hlast 'L' (by decide), hlast 'l' (by decide)⟩
  have hdouble : (toString i).toList.getLast? ∉ [some 'D', some 'd'] := by
    simp only [List.mem_cons, List.not_mem_nil, or_false, not_or]
    exact ⟨hlast 'D' (by decide), hlast 'd' (by decide)⟩
  have hpoint : ((toString i).toList.any fun c => c ∈ ['.', 'e', 'E']) = false := by
    refine List.any_eq_false.2 fun c hc => ?_
    simp only [decide_eq_true_eq]
    intro hm
    exact hmark c (List.mem_append_right ['L', 'l', 'D', 'd'] hm) hc
  simp only [read?, if_neg hlong, if_neg hdouble, hpoint, Bool.false_eq_true, ↓reduceIte,
    integer?_toString 32]
  rw [if_pos hi, Option.map_some]

theorem read?_suffixed (i : ℤ) : read? (toString i ++ "L") =
    if -2 ^ 63 ≤ i ∧ i < 2 ^ 63 then some (.long i) else none := by
  have htext : (toString i ++ "L").toList = (toString i).toList ++ ['L'] := by simp
  simp only [read?, htext, List.getLast?_concat, List.mem_cons, true_or, ↓reduceIte,
    List.dropLast_concat, integer?_toString 64]
  split <;> rfl

end Numeral

namespace Language

/-- The languages with a suffix for long integers. -/
def longLanguages : List Language := [.java, .gwt]

theorem numberLiteral_eq {l : Language} (hl : l ∈ longLanguages) {n : Number} {i : ℤ}
    (hn : n.value? = some (Number.extended i)) : l.numberLiteral n =
      if -2 ^ 31 ≤ i ∧ i < 2 ^ 31 then toString i else toString i ++ "L" := by
  have hlong : l.numberLiteral = longLiteral := by
    simp only [longLanguages, List.mem_cons, List.not_mem_nil, or_false] at hl
    rcases hl with rfl | rfl <;> rfl
  have hi : n.toInt? = some i := Number.toInt?_eq_some_iff.2 hn
  simp only [hlong, longLiteral, hi]
  have hbound : ((twoTo 31 : ℕ) : ℤ) = 2 ^ 31 := by decide
  rw [hbound]
  by_cases hint : -2 ^ 31 ≤ i ∧ i < 2 ^ 31
  · have hsmall : i.natAbs < twoTo 52 := by
      have h52 : twoTo 31 < twoTo 52 := by decide
      omega
    rw [if_neg (by omega), if_pos hint, Number.text_eq_toString hn hsmall]
  · rw [if_pos (by omega), if_neg hint]

/-- An integer is spelled as a literal of the shortest type that it has a place in. Beyond the range
of the longest type the literal is no numeral, so it denotes the integer if and only if that has a
place in the longest type. -/
theorem literal_integer {l : Language} (hl : l ∈ longLanguages) {n : Number} {i : ℤ}
    (hn : n.value? = some (Number.extended i)) :
    ∃ text, l.literal (.number n) = .ok text ∧
      (-2 ^ 31 ≤ i ∧ i < 2 ^ 31 → Numeral.read? text = some (.int i)) ∧
      (¬ (-2 ^ 31 ≤ i ∧ i < 2 ^ 31) → -2 ^ 63 ≤ i ∧ i < 2 ^ 63 →
        Numeral.read? text = some (.long i)) ∧
      (¬ (-2 ^ 63 ≤ i ∧ i < 2 ^ 63) → text = toString i ++ "L" ∧ Numeral.read? text = none) ∧
      ((∃ numeral, Numeral.read? text = some numeral ∧ numeral.value? = n.value?) ↔
        -2 ^ 63 ≤ i ∧ i < 2 ^ 63) := by
  have hfinite : n.isFinite = true := by
    cases n with
    | nan => simp [Number.value?] at hn
    | infinite negative => cases negative <;> simp [Number.value?, Number.extended] at hn
    | finite negative m e h => rfl
  have hint : -2 ^ 31 ≤ i ∧ i < 2 ^ 31 →
      Numeral.read? (l.numberLiteral n) = some (.int i) := by
    intro h
    rw [numberLiteral_eq hl hn, if_pos h]
    exact Numeral.read?_toString h
  have hsuffixed : ¬ (-2 ^ 31 ≤ i ∧ i < 2 ^ 31) → l.numberLiteral n = toString i ++ "L" := by
    intro h
    rw [numberLiteral_eq hl hn, if_neg h]
  have hlong : ¬ (-2 ^ 31 ≤ i ∧ i < 2 ^ 31) → -2 ^ 63 ≤ i ∧ i < 2 ^ 63 →
      Numeral.read? (l.numberLiteral n) = some (.long i) := by
    intro h h'
    rw [hsuffixed h, Numeral.read?_suffixed, if_pos h']
  have hbeyond : ¬ (-2 ^ 63 ≤ i ∧ i < 2 ^ 63) →
      l.numberLiteral n = toString i ++ "L" ∧ Numeral.read? (l.numberLiteral n) = none := by
    intro h
    have htext := hsuffixed (by omega)
    rw [htext, Numeral.read?_suffixed, if_neg h]
    exact ⟨rfl, rfl⟩
  refine ⟨l.numberLiteral n, by simp [literal, hfinite], hint, hlong, hbeyond, ?_⟩
  constructor
  · rintro ⟨numeral, hread, -⟩
    by_contra h
    rw [(hbeyond h).2] at hread
    cases hread
  · intro h
    by_cases hshort : -2 ^ 31 ≤ i ∧ i < 2 ^ 31
    · exact ⟨_, hint hshort, hn.symm⟩
    · exact ⟨_, hlong hshort h, hn.symm⟩

/-- The first integer below the range of the shorter type. -/
theorem literal_integer_below :
    let n := Number.finite true ((twoTo 31 + 1) * twoTo 21) (-21) (by decide)
    Language.gwt ∈ longLanguages ∧ n.value? = some (Number.extended (-2147483649 : ℤ)) ∧
      ∃ text, Language.gwt.literal (.number n) = .ok text ∧
        Numeral.read? text = some (.long (-2147483649)) := by
  intro n
  have hmem : Language.gwt ∈ longLanguages := by simp [longLanguages]
  have hvalue : n.value? = some (Number.extended (-2147483649 : ℤ)) :=
    Number.toInt?_eq_some_iff.1 (by decide +kernel)
  obtain ⟨text, htext, -, hlong, -, -⟩ := literal_integer hmem hvalue
  exact ⟨hmem, hvalue, text, htext, hlong (by decide) (by decide)⟩

/-- The first integer above the range of the longer type is spelled as what is no numeral. -/
theorem literal_above_long :
    let n := Number.finite false (twoTo 52) 11 (by decide)
    n.value? = some (Number.extended (9223372036854775808 : ℤ)) ∧
      Language.java.literal (.number n) = .ok "9223372036854775808L" ∧
      ¬ ∃ numeral, Numeral.read? "9223372036854775808L" = some numeral ∧
        numeral.value? = n.value? := by
  intro n
  have hread : Numeral.read? "9223372036854775808L" = none := by decide +kernel
  refine ⟨Number.toInt?_eq_some_iff.1 (by decide +kernel), ?_, ?_⟩
  · have htext : Language.java.numberLiteral n = "9223372036854775808L" := by decide +kernel
    simp only [literal, htext]
    rfl
  · rintro ⟨numeral, h, -⟩
    rw [hread] at h
    cases h

end Language
end CodeTemplate

import Mathlib.Algebra.Order.Field.Basic
import CodeTemplate.Number.Decimal
import CodeTemplate.Proofs.Number.Order

/-! Numbers that are integers. A finite number is the only one with its sign and its value, and the
natural numbers below `2 ^ 53` are numbers, those that whole decimals of this size are read as. A
positive integer, as a limit, is reached from itself on. -/

namespace CodeTemplate.Number

theorem extended_inj {p q : ℚ} : extended p = extended q ↔ p = q := by
  simp [extended]

/-- The integer that is found is the value. -/
theorem toInt?_eq_some_iff {x : Number} {i : ℤ} :
    x.toInt? = some i ↔ x.value? = some (extended i) := by
  cases x with
  | nan => simp [toInt?, value?]
  | infinite negative => cases negative <;> simp [toInt?, value?, extended]
  | finite negative m e h =>
    have hsigned : (if negative then -(m : ℚ) else m) =
        ((if negative then -(m : ℤ) else m : ℤ) : ℚ) := by
      split <;> simp
    have hdvd : ∀ d : ℕ, m % d = 0 ↔ (d : ℤ) ∣ if negative then -(m : ℤ) else m := by
      intro d
      cases negative <;> simp [← Nat.dvd_iff_mod_eq_zero, Int.natCast_dvd_natCast]
    simp only [toInt?, value?, Option.some.injEq, extended_inj, hsigned]
    by_cases he : 0 ≤ e
    · rw [if_pos he, zpow_of_nonneg he, Option.some.injEq]
      exact_mod_cast Iff.rfl
    · have hpos : (0 : ℤ) < twoTo (-e).toNat := by exact_mod_cast cast_twoTo_pos (-e).toNat
      rw [if_neg he, zpow_of_neg he, mul_inv_eq_iff_eq_mul₀ (cast_twoTo_pos _).ne']
      simp only [hdvd]
      generalize (if negative then -(m : ℤ) else m : ℤ) = signed
      have hcast : (signed : ℚ) = i * twoTo (-e).toNat ↔ signed = i * twoTo (-e).toNat := by
        exact_mod_cast Iff.rfl
      rw [hcast]
      constructor
      · intro h
        split_ifs at h with hd
        rw [← Option.some.inj h, Int.ediv_mul_cancel hd]
      · rintro rfl
        rw [if_pos (Dvd.intro_left _ rfl), Int.mul_ediv_cancel _ hpos.ne']

/-! ### Normal forms -/

section Canonical

variable {m m' : ℕ} {e e' : ℤ}

/-- The mantissa of the smaller exponent would be too great. -/
theorem Canonical.not_lt (h : Canonical m e) (h' : Canonical m' e')
    (heq : (m : ℚ) * 2 ^ e = m' * 2 ^ e') : ¬ e < e' := by
  intro hlt
  have hm' : twoTo 52 ≤ m' := h'.2.2.2.resolve_right (by have := h.2.1; omega)
  have hm : (m : ℚ) = m' * 2 ^ (e' - e) := by
    rw [zpow_sub₀ two_ne_zero, ← mul_div_assoc, ← heq, mul_div_cancel_right₀ _ (by positivity)]
  have hpow : (2 : ℚ) ≤ 2 ^ (e' - e) := by
    have hone : (1 : ℚ) ≤ 2 := one_le_two
    have hdiff : (1 : ℤ) ≤ e' - e := by omega
    simpa using zpow_le_zpow_right₀ hone hdiff
  have htwo : (m' : ℚ) * 2 ≤ m := by
    rw [hm]
    exact mul_le_mul_of_nonneg_left hpow m'.cast_nonneg
  have hle : m' * 2 ≤ m := by exact_mod_cast htwo
  have hlarge : twoTo 53 = twoTo 52 * 2 := rfl
  have hsmall : m < twoTo 53 := h.1
  omega

theorem Canonical.unique (h : Canonical m e) (h' : Canonical m' e')
    (heq : (m : ℚ) * 2 ^ e = m' * 2 ^ e') : m = m' ∧ e = e' := by
  have hle : e ≤ e' := Int.not_lt.1 (h'.not_lt h heq.symm)
  have hge : e' ≤ e := Int.not_lt.1 (h.not_lt h' heq)
  obtain rfl : e = e' := le_antisymm hle hge
  have hm : (m : ℚ) = m' := mul_right_cancel₀ (by positivity) heq
  exact ⟨by exact_mod_cast hm, rfl⟩

end Canonical

/-! ### Natural numbers -/

theorem binaryOrder_nat {n : ℕ} (h : n ≠ 0) : binaryOrder n 1 = n.log2 := by
  have hle : twoTo n.log2 ≤ n := Nat.log2_self_le h
  have hlog : Nat.log2 1 = 0 := by decide
  simp [binaryOrder, scaled, hlog, not_lt.2 hle]

theorem scaled_nat (n k : ℕ) : scaled n 1 (-(k : ℤ)) = (n * twoTo k, 1) := by
  cases k with
  | zero => simp [scaled, twoTo]
  | succ k =>
    have hneg : ¬ 0 ≤ -((k + 1 : ℕ) : ℤ) := by omega
    rw [scaled, if_neg hneg, neg_neg, Int.toNat_natCast]

theorem roundDiv_one (n : ℕ) : roundDiv n 1 = n := by
  simp [roundDiv, Nat.mod_one]

/-- A natural number below `2 ^ 53` is a number, whose mantissa is shifted up to 53 bits. -/
theorem exists_ofRatio {n : ℕ} (hn : n < twoTo 53) :
    ∃ m e h, ofRatio false n 1 = finite false m e h ∧ (m : ℚ) * 2 ^ e = n := by
  by_cases hzero : n = 0
  · subst hzero
    exact ⟨0, -1074, by decide, by decide, by simp⟩
  · have hlog : n.log2 < 53 := (Nat.log2_lt hzero).2 hn
    obtain ⟨k, hk⟩ : ∃ k, n.log2 + k = 52 := ⟨52 - n.log2, by omega⟩
    have hlow : twoTo 52 ≤ n * twoTo k := by
      have h : 2 ^ n.log2 * 2 ^ k ≤ n * 2 ^ k := Nat.mul_le_mul_right _ (Nat.log2_self_le hzero)
      rwa [← pow_add, hk] at h
    have hhigh : n * twoTo k < twoTo 53 := by
      have h : n * 2 ^ k < 2 ^ (n.log2 + 1) * 2 ^ k :=
        Nat.mul_lt_mul_of_pos_right Nat.lt_log2_self (by positivity)
      rwa [← pow_add, show n.log2 + 1 + k = 53 by omega] at h
    have hcanonical : Canonical (n * twoTo k) (-(k : ℤ)) :=
      ⟨hhigh, by omega, by omega, .inl hlow⟩
    have hexponent : max (binaryOrder n 1 - 52) (-1074) = -(k : ℤ) := by
      rw [binaryOrder_nat hzero]
      omega
    refine ⟨n * twoTo k, -(k : ℤ), hcanonical, ?_, ?_⟩
    · simp only [ofRatio, if_neg hzero, hexponent, scaled_nat, roundDiv_one, if_neg hhigh.ne,
        ofParts, dif_pos hcanonical]
    · rw [Nat.cast_mul, cast_twoTo, zpow_neg, zpow_natCast, mul_assoc,
        mul_inv_cancel₀ (by positivity), mul_one]

/-- Which natural number below `2 ^ 53` a number is depends on its value alone. -/
theorem ofRatio_eq_iff {m n k : ℕ} {e : ℤ} (h : Canonical m e) (hm : (m : ℚ) * 2 ^ e = n)
    (hk : k < twoTo 53) : ofRatio false k 1 = finite false m e h ↔ k = n := by
  obtain ⟨m', e', h', hfinite, hvalue⟩ := exists_ofRatio hk
  rw [hfinite, finite.injEq]
  constructor
  · rintro ⟨-, rfl, rfl⟩
    exact_mod_cast hvalue.symm.trans hm
  · rintro rfl
    exact ⟨rfl, h'.unique h (hvalue.trans hm.symm)⟩

/-! ### Whole decimals -/

theorem digitCount_le {n k : ℕ} (hk : 0 < k) (h : n < tenTo k) : digitCount n ≤ k := by
  rw [digitCount]
  split
  · exact Nat.zero_le k
  · exact (Nat.length_toDigits_le_iff (by decide) hk).2 h

/-- A whole decimal below `2 ^ 53` is read as the number that it is. -/
theorem ofDecimal_nat {digits power : ℕ} (h : digits * tenTo power < twoTo 53) :
    ofDecimal false digits power = ofRatio false (digits * tenTo power) 1 := by
  by_cases hzero : digits = 0
  · simp [ofDecimal, hzero]
  · have hten : digits * 10 ^ power < 10 ^ 16 := lt_trans h (by decide)
    have hpower : power < 16 := by
      by_contra hle
      have h16 : 10 ^ 16 ≤ 10 ^ power := Nat.pow_le_pow_right (by decide) (by omega)
      have hmul : 10 ^ power ≤ digits * 10 ^ power :=
        Nat.le_mul_of_pos_left _ (Nat.pos_of_ne_zero hzero)
      omega
    have hdigits : digits < tenTo (16 - power) := by
      have hsplit : 10 ^ 16 = 10 ^ (16 - power) * 10 ^ power := by
        rw [← pow_add]
        congr 1
        omega
      rw [hsplit] at hten
      exact Nat.lt_of_mul_lt_mul_right hten
    have hcount : digitCount digits ≤ 16 - power := digitCount_le (by omega) hdigits
    have hlow : ¬ (power : ℤ) + digitCount digits < -330 := by omega
    have hhigh : ¬ 310 < (power : ℤ) + digitCount digits := by omega
    simp [ofDecimal, hzero, hlow, hhigh]

/-! ### Positive integers -/

/-- The value is an integer greater than zero. -/
def IsPositiveInteger (x : Number) : Prop := ∃ n : ℕ, 0 < n ∧ x.value? = some (extended n)

theorem isPositiveInteger_iff {x : Number} :
    x.IsPositiveInteger ↔ x.toInt?.isSome = true ∧ x.isPositive = true := by
  rw [Option.isSome_iff_exists, isPositive_iff]
  constructor
  · rintro ⟨n, hn, hx⟩
    refine ⟨⟨n, toInt?_eq_some_iff.2 (by simpa using hx)⟩, _, hx, extended_lt.2 ?_⟩
    exact_mod_cast hn
  · rintro ⟨⟨i, hi⟩, a, ha, hpos⟩
    rw [toInt?_eq_some_iff, ha, Option.some.injEq] at hi
    rw [hi, extended_lt] at hpos
    have hi0 : 0 < i := by exact_mod_cast hpos
    obtain ⟨n, rfl⟩ := Int.eq_ofNat_of_zero_le hi0.le
    exact ⟨n, by exact_mod_cast hi0, by simp [ha, hi]⟩

/-- The comparison with a positive integer is that of natural numbers. -/
theorem IsPositiveInteger.exists_atMost_iff {x : Number} (hx : x.IsPositiveInteger) :
    ∃ n : ℕ, 0 < n ∧ ∀ k : ℕ, x.atMost k = true ↔ n ≤ k := by
  obtain ⟨n, hn, hvalue⟩ := hx
  refine ⟨n, hn, fun k => ?_⟩
  simp only [atMost_iff, hvalue, Option.some.injEq, exists_eq_left', extended_le]
  exact_mod_cast Iff.rfl

/-- A natural number below `2 ^ 53` that is not zero is a positive integer. -/
theorem isPositiveInteger_ofNat {n : ℕ} (hpos : 0 < n) (hn : n < twoTo 53) :
    (ofNat n).IsPositiveInteger := by
  obtain ⟨m, e, h, hfinite, hvalue⟩ := exists_ofRatio hn
  exact ⟨n, hpos, by simp [ofNat, hfinite, value?, hvalue]⟩

end CodeTemplate.Number

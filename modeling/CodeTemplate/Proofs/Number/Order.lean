import Mathlib.Algebra.Order.Field.Power
import Mathlib.Algebra.Order.Field.Rat
import Mathlib.Order.WithBot
import Mathlib.Tactic.Positivity
import CodeTemplate.Number.Basic

/-! The order of numbers. Not a number is in no order with any number, not even with itself. -/

namespace CodeTemplate.Number

/-- Rational numbers with a least and a greatest one. -/
abbrev Extended := WithBot (WithTop ℚ)

def extended (q : ℚ) : Extended := ((q : WithTop ℚ) : WithBot (WithTop ℚ))

theorem extended_le {p q : ℚ} : extended p ≤ extended q ↔ p ≤ q := by
  simp [extended]

theorem extended_lt {p q : ℚ} : extended p < extended q ↔ p < q := by
  simp [extended]

theorem extended_lt_top (q : ℚ) : extended q < ⊤ :=
  WithBot.coe_lt_coe.2 (WithTop.coe_lt_top q)

/-- The value of a number. -/
def value? : Number → Option Extended
  | nan => none
  | infinite true => some ⊥
  | infinite false => some ⊤
  | finite negative m e _ => some (extended ((if negative then -(m : ℚ) else m) * 2 ^ e))

/-- The number is at most the other one. -/
def Le (x y : Number) : Prop := ∃ a b, x.value? = some a ∧ y.value? = some b ∧ a ≤ b

theorem cast_twoTo (n : ℕ) : (twoTo n : ℚ) = 2 ^ n := by
  simp [twoTo]

theorem cast_twoTo_pos (n : ℕ) : (0 : ℚ) < twoTo n := by
  rw [cast_twoTo]
  positivity

theorem zpow_of_nonneg {e : ℤ} (h : 0 ≤ e) : (2 : ℚ) ^ e = twoTo e.toNat := by
  rw [cast_twoTo, ← zpow_natCast, Int.toNat_of_nonneg h]

theorem zpow_of_neg {e : ℤ} (h : ¬ 0 ≤ e) : (2 : ℚ) ^ e = (twoTo (-e).toNat : ℚ)⁻¹ := by
  rw [cast_twoTo, ← zpow_natCast, Int.toNat_of_nonneg (by omega), ← zpow_neg, neg_neg]

theorem finite_atMost_iff (m n : ℕ) (e : ℤ) :
    (if 0 ≤ e then decide (m * twoTo e.toNat ≤ n) else decide (m ≤ n * twoTo (-e).toNat)) = true ↔
      (m : ℚ) * 2 ^ e ≤ n := by
  split
  · next h =>
    rw [zpow_of_nonneg h, decide_eq_true_eq]
    exact_mod_cast Iff.rfl
  · next h =>
    rw [zpow_of_neg h, decide_eq_true_eq, mul_inv_le_iff₀ (cast_twoTo_pos _)]
    exact_mod_cast Iff.rfl

/-- The comparison with a natural number is that of the values. -/
theorem atMost_iff (x : Number) (n : ℕ) :
    x.atMost n = true ↔ ∃ a, x.value? = some a ∧ a ≤ extended n := by
  cases x with
  | nan => simp [atMost, value?]
  | infinite negative =>
    cases negative <;> simp [atMost, value?, extended]
  | finite negative m e h =>
    simp only [atMost, value?, Option.some.injEq, exists_eq_left', extended_le]
    cases negative with
    | false => simpa using finite_atMost_iff m n e
    | true =>
      have hm : -(m : ℚ) * 2 ^ e ≤ 0 := by
        rw [neg_mul]
        exact neg_nonpos.2 (by positivity)
      simpa using hm.trans n.cast_nonneg

/-- Positive numbers are those with a value above zero. -/
theorem isPositive_iff {x : Number} :
    x.isPositive = true ↔ ∃ a, x.value? = some a ∧ extended 0 < a := by
  cases x with
  | nan => simp [isPositive, value?]
  | infinite negative => cases negative <;> simp [isPositive, value?, extended_lt_top]
  | finite negative m e h =>
    have hpow : (0 : ℚ) < 2 ^ e := by positivity
    simp only [isPositive, value?, Option.some.injEq, exists_eq_left', extended_lt,
      mul_pos_iff_of_pos_right hpow]
    cases negative <;> simp [Nat.pos_iff_ne_zero]

theorem atMost_of_le {x y : Number} (h : x.Le y) {n : ℕ} (hy : y.atMost n = true) :
    x.atMost n = true := by
  obtain ⟨a, b, ha, hb, hab⟩ := h
  obtain ⟨c, hc, hcn⟩ := (atMost_iff y n).1 hy
  obtain rfl := Option.some.inj (hb.symm.trans hc)
  exact (atMost_iff x n).2 ⟨a, ha, hab.trans hcn⟩

theorem atMost_mono {x : Number} {m n : ℕ} (h : m ≤ n) (hx : x.atMost m = true) :
    x.atMost n = true := by
  obtain ⟨a, ha, ham⟩ := (atMost_iff x m).1 hx
  exact (atMost_iff x n).2 ⟨a, ha, ham.trans (extended_le.2 (by exact_mod_cast h))⟩

/-- The number is at most the integer. -/
def LeInt (x : Number) (i : ℤ) : Prop := ∃ a, x.value? = some a ∧ a ≤ extended i

theorem atMost_iff_leInt (x : Number) (n : ℕ) : x.atMost n = true ↔ x.LeInt n := by
  simp [atMost_iff, LeInt]

theorem lt_of_leInt {x : Number} {n : ℕ} (h : ¬ x.atMost n = true) {i : ℤ} (hi : x.LeInt i) :
    (n : ℤ) < i := by
  by_contra hn
  obtain ⟨a, ha, hai⟩ := hi
  refine h ((atMost_iff_leInt x n).2 ⟨a, ha, hai.trans (extended_le.2 ?_)⟩)
  exact_mod_cast not_lt.1 hn

/-- The natural numbers below the floor are those below the number. -/
theorem le_floor_iff {x : Number} {i : ℤ} (h : x.floor? = some i) (n : ℕ) :
    (n : ℤ) ≤ i ↔ ∃ a, x.value? = some a ∧ extended n ≤ a := by
  cases x with
  | nan => simp [floor?] at h
  | infinite negative => simp [floor?] at h
  | finite negative m e hcanonical =>
    simp only [floor?, Option.some.injEq] at h
    simp only [value?, Option.some.injEq, exists_eq_left', extended_le, ← h]
    have hsigned : (if negative then -(m : ℚ) else m) =
        ((if negative then -(m : ℤ) else m : ℤ) : ℚ) := by
      split <;> simp
    rw [hsigned]
    generalize (if negative then -(m : ℤ) else m : ℤ) = signed
    split
    · next he =>
      rw [zpow_of_nonneg he]
      exact_mod_cast Iff.rfl
    · next he =>
      have hpos : (0 : ℤ) < twoTo (-e).toNat := by exact_mod_cast cast_twoTo_pos (-e).toNat
      rw [Int.fdiv_eq_ediv_of_nonneg _ hpos.le, Int.le_ediv_iff_mul_le hpos, zpow_of_neg he,
        le_mul_inv_iff₀ (cast_twoTo_pos _)]
      exact_mod_cast Iff.rfl

end CodeTemplate.Number

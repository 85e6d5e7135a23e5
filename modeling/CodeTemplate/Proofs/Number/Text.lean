import Mathlib.Data.List.DropRight
import CodeTemplate.Number.Shortest
import CodeTemplate.Proofs.Number.Integer

/-! The text of a number that is an integer. The shortest digits for it are its own without some of
the zeros at their end, and the layout puts the zeros back. -/

namespace CodeTemplate.Number

/-! ### Digits with zeros -/

theorem toDigits_mul_tenTo {n : ℕ} (hn : 0 < n) (k : ℕ) :
    Nat.toDigits 10 (n * tenTo k) = Nat.toDigits 10 n ++ zeros k := by
  induction k with
  | zero => simp [tenTo, zeros]
  | succ k ih =>
    have hpos : 0 < n * tenTo k := Nat.mul_pos hn (Nat.pow_pos (by decide))
    have hnext : n * tenTo (k + 1) = 10 * (n * tenTo k) + 0 := by
      have hten : tenTo (k + 1) = tenTo k * 10 := rfl
      rw [hten, ← Nat.mul_assoc, Nat.mul_comm, Nat.add_zero]
    have hzero : Nat.toDigits 10 0 = ['0'] := by decide
    rw [hnext, ← Nat.toDigits_append_toDigits (by decide) hpos (by decide), ih, hzero, zeros,
      zeros, List.replicate_succ', List.append_assoc]

/-- What is dropped from the digits goes back behind them. -/
theorem text_whole {digits power : ℕ} (hpos : 0 < digits)
    (hlength : (Nat.toDigits 10 digits).length + power ≤ 21) :
    Decimal.text ⟨digits, power⟩ = Nat.toDigits 10 (digits * tenTo power) := by
  let all := Nat.toDigits 10 digits
  let kept := all.rdropWhile (· == '0')
  have hall : kept ++ zeros (all.length - kept.length) = all := by
    have hparts : kept ++ all.rtakeWhile (· == '0') = all := List.rdropWhile_append_rtakeWhile
    have hzeros : all.rtakeWhile (· == '0') = zeros (all.rtakeWhile (· == '0')).length :=
      List.eq_replicate_of_mem fun c hc => by simpa using List.mem_rtakeWhile_imp hc
    have hcount : all.length - kept.length = (all.rtakeWhile (· == '0')).length := by
      have h := congrArg List.length hparts
      rw [List.length_append] at h
      omega
    rw [hcount, ← hzeros, hparts]
  have hkept : kept.length ≤ all.length := (List.rdropWhile_prefix _ _).length_le
  have hpower : (power : ℤ) + (all.length - kept.length) =
      ((all.length - kept.length + power : ℕ) : ℤ) := by
    omega
  have hcount : all.length + power ≤ 21 := hlength
  have hpoint : (kept.length : ℤ) + ((all.length - kept.length + power : ℕ) : ℤ) ≤ 21 := by
    omega
  have htext : Decimal.text ⟨digits, power⟩ =
      layoutDigits kept ((power : ℤ) + (all.length - kept.length)) := rfl
  rw [htext, hpower, layoutDigits, if_pos ⟨Int.natCast_nonneg _, hpoint⟩, Int.toNat_natCast, zeros,
    List.replicate_add, ← List.append_assoc, ← zeros, ← zeros, hall, toDigits_mul_tenTo hpos]

/-! ### Shortest digits -/

section Shortest

variable {x : Number} {n den : ℕ}

/-- Of the multiples of a power of ten around a natural number, none reads back as it unless it is
one of them. -/
theorem neighbour?_eq (hden : 0 < den) (hx : ∀ k < twoTo 53, ofRatio false k 1 = x ↔ k = n)
    {power : ℕ} (hsmall : n + tenTo power < twoTo 53) :
    neighbour? x (n * den) den power =
      if tenTo power ∣ n then some ⟨n / tenTo power, power⟩ else none := by
  have hten : 0 < tenTo power := Nat.pow_pos (by decide)
  have hlow : n * den / (den * tenTo power) = n / tenTo power := by
    rw [Nat.mul_comm n, Nat.mul_div_mul_left _ _ hden]
  have hrest : n * den % (den * tenTo power) = den * (n % tenTo power) := by
    rw [Nat.mul_comm n, Nat.mul_mod_mul_left]
  have hreads : ∀ digits, digits * tenTo power < twoTo 53 →
      (ofDecimal false digits power = x ↔ digits * tenTo power = n) := by
    intro digits h
    rw [ofDecimal_nat h]
    exact hx _ h
  have hmul : n / tenTo power * tenTo power ≤ n := Nat.div_mul_le_self n _
  have hnext : (n / tenTo power + 1) * tenTo power = n / tenTo power * tenTo power + tenTo power :=
    Nat.add_one_mul _ _
  have hfirst := hreads (n / tenTo power) (by omega)
  have hsecond := hreads (n / tenTo power + 1) (by omega)
  simp only [neighbour?, Int.natCast_nonneg, ↓reduceIte, Int.toNat_natCast, hlow, hrest,
    decide_eq_true_eq]
  by_cases hdvd : tenTo power ∣ n
  · have hback := hfirst.2 (Nat.div_mul_cancel hdvd)
    have hfar : 0 < den * tenTo power := Nat.mul_pos hden hten
    simp [hdvd, Nat.mod_eq_zero_of_dvd hdvd, hfar, hback]
  · have hlower : n / tenTo power * tenTo power ≠ n := fun h => hdvd ⟨_, by rw [Nat.mul_comm, h]⟩
    have hupper : (n / tenTo power + 1) * tenTo power ≠ n := fun h =>
      hdvd ⟨_, by rw [Nat.mul_comm, h]⟩
    have hnone : ∀ lowFirst : Bool, ∀ pair, pair = (if lowFirst = true then
        (n / tenTo power, n / tenTo power + 1) else (n / tenTo power + 1, n / tenTo power)) →
        ¬ ofDecimal false pair.1 power = x ∧ ¬ ofDecimal false pair.2 power = x := by
      rintro lowFirst pair rfl
      cases lowFirst with
      | false => exact ⟨fun h => hupper (hsecond.1 h), fun h => hlower (hfirst.1 h)⟩
      | true => exact ⟨fun h => hlower (hfirst.1 h), fun h => hupper (hsecond.1 h)⟩
    rw [if_neg (hnone _ _ rfl).1, if_neg (hnone _ _ rfl).2, if_neg hdvd]

theorem findSome?_range {α : Type} {f : ℕ → Option α} {n i : ℕ} {a : α} (hi : i < n)
    (hf : f i = some a) : ∃ j ≤ i, ∃ b, f j = some b ∧ (List.range n).findSome? f = some b := by
  have hsplit : List.range n =
      List.range (i + 1) ++ (List.range (n - (i + 1))).map (i + 1 + ·) := by
    rw [← List.range_add]
    congr 1
    omega
  have hsome : ((List.range (i + 1)).findSome? f).isSome := by
    rw [List.findSome?_isSome_iff]
    exact ⟨i, by simp, by simp [hf]⟩
  obtain ⟨b, hb⟩ := Option.isSome_iff_exists.1 hsome
  obtain ⟨j, hj, hfj⟩ := List.exists_of_findSome?_eq_some hb
  refine ⟨j, by simpa [Nat.lt_succ_iff] using hj, b, hfj, ?_⟩
  rw [hsplit, List.findSome?_append, hb, Option.some_or]

/-- The number as a fraction. -/
theorem exists_fraction {m : ℕ} {e : ℤ} (hvalue : (m : ℚ) * 2 ^ e = n) :
    ∃ den, 0 < den ∧
      (if 0 ≤ e then (m * twoTo e.toNat, 1) else (m, twoTo (-e).toNat)) = (n * den, den) := by
  by_cases he : 0 ≤ e
  · rw [zpow_of_nonneg he] at hvalue
    have hnat : m * twoTo e.toNat = n := by exact_mod_cast hvalue
    exact ⟨1, Nat.one_pos, by rw [if_pos he, hnat, Nat.mul_one]⟩
  · rw [zpow_of_neg he, mul_inv_eq_iff_eq_mul₀ (cast_twoTo_pos _).ne'] at hvalue
    have hnat : m = n * twoTo (-e).toNat := by exact_mod_cast hvalue
    exact ⟨twoTo (-e).toNat, Nat.pow_pos (by decide), by rw [if_neg he, ← hnat]⟩

theorem tenTo_le_of_digitCount {power : ℕ} (hn : 0 < n) (h : power < digitCount n) :
    tenTo power ≤ n := by
  cases power with
  | zero => exact hn
  | succ power =>
    by_contra hlt
    have hle : digitCount n ≤ power + 1 := digitCount_le (Nat.succ_pos _) (Nat.not_le.1 hlt)
    omega

theorem digitCount_pos (hn : 0 < n) : 0 < digitCount n := by
  rw [digitCount, if_neg hn.ne']
  exact Nat.length_toDigits_pos

/-- The search goes down from the greatest power of ten at most the number, and it ends at the units
at the latest. -/
theorem shortest_eq {m : ℕ} {e : ℤ} (h : Canonical m e) (hn : 0 < n) (hsmall : n < twoTo 52)
    (hvalue : (m : ℚ) * 2 ^ e = n) :
    ∃ power : ℕ, tenTo power ∣ n ∧ shortest m e = ⟨n / tenTo power, power⟩ := by
  obtain ⟨den, hden, hfraction⟩ := exists_fraction hvalue
  obtain ⟨last, hlast⟩ : ∃ last, digitCount n = last + 1 :=
    Nat.exists_eq_succ_of_ne_zero (digitCount_pos hn).ne'
  have hcount : digitCount n ≤ 16 := by
    have hbound : twoTo 52 < tenTo 16 := by decide
    exact digitCount_le (by decide) (hsmall.trans hbound)
  have hparts : ofParts false m e = finite false m e h := dif_pos h
  have horder : decimalOrder (n * den) den = last := by
    have hle : den ≤ n * den := Nat.le_mul_of_pos_left den hn
    rw [decimalOrder, if_pos hle, Nat.mul_div_cancel _ hden, hlast]
    omega
  let search (i : ℕ) := neighbour? (finite false m e h) (n * den) den (last - i)
  have hsearch : ∀ i power, i + power = last → search i =
      if tenTo power ∣ n then some ⟨n / tenTo power, power⟩ else none := by
    intro i power hi
    have hpower : (last : ℤ) - i = power := by omega
    have hten : tenTo power ≤ n := tenTo_le_of_digitCount hn (by omega)
    have hdouble : twoTo 53 = twoTo 52 + twoTo 52 := by decide
    simp only [search, hpower]
    exact neighbour?_eq hden (fun k hk => ofRatio_eq_iff h hvalue hk) (by omega)
  have hunits : search last = some ⟨n, 0⟩ := by
    simpa [tenTo] using hsearch last 0 rfl
  obtain ⟨i, hi, d, hd, hfind⟩ := findSome?_range (n := 17) (by omega) hunits
  have hshortest : shortest m e = d := by
    simp only [shortest, hfraction, horder, hparts]
    exact congrArg (Option.getD · _) hfind
  rw [hsearch i (last - i) (by omega)] at hd
  split_ifs at hd with hdvd
  exact ⟨last - i, hdvd, hshortest.trans (Option.some.inj hd).symm⟩

end Shortest

/-! ### Texts -/

theorem toList_toString (i : ℤ) :
    (toString i).toList = (if i < 0 then ['-'] else []) ++ Nat.toDigits 10 i.natAbs := by
  rw [Int.toString_eq_repr, Int.repr_eq_if]
  by_cases hi : i < 0
  · have hnat : (-i).toNat = i.natAbs := by omega
    simp [hi, not_le.2 hi, hnat]
  · have hnat : i.toNat = i.natAbs := by omega
    simp [hi, not_lt.1 hi, hnat]

/-- The text of the shortest digits is that of all digits. -/
theorem text_shortest {m n : ℕ} {e : ℤ} (h : Canonical m e) (hn : 0 < n) (hsmall : n < twoTo 52)
    (hvalue : (m : ℚ) * 2 ^ e = n) : (shortest m e).text = Nat.toDigits 10 n := by
  obtain ⟨power, hdvd, hshortest⟩ := shortest_eq h hn hsmall hvalue
  have hmul : n / tenTo power * tenTo power = n := Nat.div_mul_cancel hdvd
  have hpos : 0 < n / tenTo power := Nat.div_pos (Nat.le_of_dvd hn hdvd) (Nat.pow_pos (by decide))
  have hlength : (Nat.toDigits 10 (n / tenTo power)).length + power ≤ 21 := by
    have hall := toDigits_mul_tenTo hpos power
    have hcount : (Nat.toDigits 10 n).length ≤ 16 :=
      (Nat.length_toDigits_le_iff (by decide) (by decide)).2 (hsmall.trans (by decide))
    rw [hmul] at hall
    rw [hall, List.length_append, zeros, List.length_replicate] at hcount
    omega
  rw [hshortest, text_whole hpos hlength, hmul]

/-- The text of an integer below `2 ^ 52` in magnitude is its digits, behind a sign if it is
negative. -/
theorem text_eq_toString {x : Number} {i : ℤ} (h : x.value? = some (extended i))
    (hsmall : i.natAbs < twoTo 52) : x.text = toString i := by
  cases x with
  | nan => simp [value?] at h
  | infinite negative => cases negative <;> simp [value?, extended] at h
  | finite negative m e hcanonical =>
    simp only [value?, Option.some.injEq, extended_inj] at h
    by_cases hm : m = 0
    · have hzero : (i : ℚ) = 0 := by simp [← h, hm]
      obtain rfl : i = 0 := by exact_mod_cast hzero
      rw [text, if_pos hm]
      rfl
    · have hpos : (0 : ℚ) < m * 2 ^ e := by
        have hmpos : (0 : ℚ) < m := by exact_mod_cast Nat.pos_of_ne_zero hm
        positivity
      have hparts : (negative = true ↔ i < 0) ∧ (m : ℚ) * 2 ^ e = i.natAbs := by
        rw [Nat.cast_natAbs, Int.cast_abs]
        cases negative with
        | false =>
          have hi : (m : ℚ) * 2 ^ e = i := by simpa using h
          have hnot : ¬ i < 0 := by
            rw [hi] at hpos
            exact not_lt.2 (by exact_mod_cast hpos.le)
          exact ⟨by simp [hnot], by rw [← hi, abs_of_pos hpos]⟩
        | true =>
          have hi : -((m : ℚ) * 2 ^ e) = i := by simpa using h
          have hneg : i < 0 := by
            have hcast : (i : ℚ) < 0 := hi ▸ neg_neg_of_pos hpos
            exact_mod_cast hcast
          exact ⟨by simp [hneg], by rw [← hi, abs_neg, abs_of_pos hpos]⟩
      obtain ⟨hsign, hvalue⟩ := hparts
      have hi : 0 < i.natAbs := by
        rw [hvalue] at hpos
        exact_mod_cast hpos
      refine String.toList_injective ?_
      rw [toList_toString, text, if_neg hm, String.toList_ofList,
        text_shortest hcanonical hi hsmall hvalue]
      simp only [hsign]

end CodeTemplate.Number

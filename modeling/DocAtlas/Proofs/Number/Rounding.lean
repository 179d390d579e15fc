/-
Rounding to 53 bits. The exponent is chosen so that the quotient has full precision unless the exponent is smallest;
rounding moves the quotient by a half at most, so what comes out is in the form every number is kept in. A magnitude is
too large only from the middle between the largest number and the next power of two on.
-/
import DocAtlas.Number.Binary64
import Mathlib.Algebra.Order.Floor.Semifield
import Mathlib.Tactic

namespace DocAtlas.Binary64

variable {num den : Nat}

/-! ## Quotients -/

theorem two_zpow_pos (e : ℤ) : (0 : ℚ) < 2 ^ e := by positivity

/-- A power with its sign put aside. -/
theorem zpow_eq_div {b : ℚ} (hb : b ≠ 0) (e : ℤ) : b ^ e = b ^ e.toNat / b ^ (-e).toNat := by
  rw [← zpow_natCast, ← zpow_natCast, ← zpow_sub₀ hb]
  congr 1
  omega

theorem div_lt_iff_lt (n d k : Nat) : n / d < k ↔ (n : ℚ) / d < k := by
  rw [← Nat.floor_div_eq_div (K := ℚ), Nat.floor_lt (by positivity)]

/-- A fraction in units of a power of two. -/
theorem scaled_ratio (num den : Nat) (e : ℤ) :
    ((scaled num den e).1 : ℚ) / (scaled num den e).2 = num / den / 2 ^ e := by
  unfold scaled
  rw [zpow_eq_div two_ne_zero]
  push_cast
  simp only [Nat.pow_eq]
  push_cast
  field_simp

theorem scaled_ne_zero (num : Nat) (hden : den ≠ 0) (e : ℤ) : (scaled num den e).2 ≠ 0 :=
  Nat.mul_ne_zero hden (Nat.pow_pos (by decide)).ne'

/-! ## The exponent -/

theorem log2_bounds {n : Nat} (hn : n ≠ 0) : (2 : ℚ) ^ (Nat.log2 n : ℤ) ≤ n ∧ (n : ℚ) < 2 ^ ((Nat.log2 n : ℤ) + 1) := by
  constructor
  · rw [zpow_natCast]
    exact_mod_cast Nat.log2_self_le hn
  · rw [← Nat.cast_add_one, zpow_natCast]
    exact_mod_cast Nat.lt_log2_self

/-- The logarithms tell a quotient up to a factor of two. -/
theorem ratio_bounds (hnum : num ≠ 0) (hden : den ≠ 0) :
    (2 : ℚ) ^ ((Nat.log2 num : ℤ) - Nat.log2 den - 1) < num / den ∧ (num / den : ℚ) < 2 ^
      ((Nat.log2 num : ℤ) - Nat.log2 den + 1) := by
  obtain ⟨hlow, hhigh⟩ := log2_bounds hnum
  obtain ⟨hlow', hhigh'⟩ := log2_bounds hden
  have hpos : (0 : ℚ) < den := by exact_mod_cast Nat.pos_of_ne_zero hden
  constructor
  · rw [lt_div_iff₀ hpos]
    calc (2 : ℚ) ^ ((Nat.log2 num : ℤ) - Nat.log2 den - 1) * den
        < 2 ^ ((Nat.log2 num : ℤ) - Nat.log2 den - 1) * 2 ^ ((Nat.log2 den : ℤ) + 1) :=
          mul_lt_mul_of_pos_left hhigh' (two_zpow_pos _)
      _ = 2 ^ (Nat.log2 num : ℤ) := by rw [← zpow_add₀ two_ne_zero]; congr 1; omega
      _ ≤ num := hlow
  · rw [div_lt_iff₀ hpos]
    calc (num : ℚ) < 2 ^ ((Nat.log2 num : ℤ) + 1) := hhigh
      _ = 2 ^ ((Nat.log2 num : ℤ) - Nat.log2 den + 1) * 2 ^ (Nat.log2 den : ℤ) := by
          rw [← zpow_add₀ two_ne_zero]; congr 1; omega
      _ ≤ 2 ^ ((Nat.log2 num : ℤ) - Nat.log2 den + 1) * den := mul_le_mul_of_nonneg_left hlow' (two_zpow_pos _).le

/-- Before the smallest exponent is taken for smaller ones, a quotient has full precision. -/
theorem exists_expFor (hnum : num ≠ 0) (hden : den ≠ 0) :
    ∃ e, expFor num den = max e minExp ∧ (2 : ℚ) ^ 52 ≤ num / den / 2 ^ e ∧ (num / den / 2 ^ e : ℚ) < 2 ^ 53 := by
  obtain ⟨hlow, hhigh⟩ := ratio_bounds hnum hden
  set guess : ℤ := (Nat.log2 num : ℤ) - Nat.log2 den - 52 with hguess
  have hpos := two_zpow_pos guess
  -- the guess leaves 52 or 53 bits
  have hbelow : (2 : ℚ) ^ 51 < num / den / 2 ^ guess := by
    rw [lt_div_iff₀ hpos, ← zpow_natCast, ← zpow_add₀ two_ne_zero,
      show ((51 : ℕ) : ℤ) + guess = Nat.log2 num - Nat.log2 den - 1 by omega]
    exact hlow
  have habove : (num / den / 2 ^ guess : ℚ) < 2 ^ 53 := by
    rw [div_lt_iff₀ hpos, ← zpow_natCast, ← zpow_add₀ two_ne_zero,
      show ((53 : ℕ) : ℤ) + guess = Nat.log2 num - Nat.log2 den + 1 by omega]
    exact hhigh
  have hlt : ∀ k : Nat, (scaled num den guess).1 / (scaled num den guess).2 < k ↔ (num / den / 2 ^ guess : ℚ) < k :=
    fun k => by rw [div_lt_iff_lt, scaled_ratio]
  have hexp : expFor num den = max (if (scaled num den guess).1 / (scaled num den guess).2 < 2 ^ 52 then guess - 1
      else if 2 ^ 53 ≤ (scaled num den guess).1 / (scaled num den guess).2 then guess + 1 else guess) minExp := rfl
  by_cases hsmall : (scaled num den guess).1 / (scaled num den guess).2 < 2 ^ 52
  · refine ⟨guess - 1, by rw [hexp, if_pos hsmall], ?_⟩
    have hdouble : (num / den / 2 ^ (guess - 1) : ℚ) = 2 * (num / den / 2 ^ guess) := by
      rw [zpow_sub_one₀ two_ne_zero]
      field_simp
    have hsmall := (hlt _).1 hsmall
    push_cast at hsmall
    rw [hdouble]
    constructor <;> linarith
  · have hlarge : ¬ 2 ^ 53 ≤ (scaled num den guess).1 / (scaled num den guess).2 := by
      rw [not_le, hlt]
      exact_mod_cast habove
    refine ⟨guess, by rw [hexp, if_neg hsmall, if_neg hlarge], ?_, habove⟩
    rw [hlt, not_lt] at hsmall
    exact_mod_cast hsmall

/-- The exponent of a quotient leaves at most 53 bits before the point, and all of them unless it is smallest. -/
theorem expFor_spec (hnum : num ≠ 0) (hden : den ≠ 0) : (num / den / 2 ^ expFor num den : ℚ) < 2 ^ 53 ∧
    minExp ≤ expFor num den ∧ (minExp < expFor num den → (2 : ℚ) ^ 52 ≤ num / den / 2 ^ expFor num den) := by
  obtain ⟨e, hexp, hfull, hbits⟩ := exists_expFor hnum hden
  rw [hexp]
  refine ⟨lt_of_le_of_lt ?_ hbits, le_max_right _ _, fun h => ?_⟩
  · gcongr
    · norm_num
    · exact le_max_left _ _
  · rwa [max_eq_left (by omega)]

/-! ## Rounding -/

/-- Rounding moves a fraction by a half at most. -/
theorem roundHalfEven_spec (n : Nat) {d : Nat} (hd : d ≠ 0) :
    (n / d - 1 / 2 : ℚ) ≤ roundHalfEven n d ∧ (roundHalfEven n d : ℚ) ≤ n / d + 1 / 2 := by
  have hpos : (0 : ℚ) < d := by exact_mod_cast Nat.pos_of_ne_zero hd
  have hround : 2 * n ≤ 2 * (d * roundHalfEven n d) + d ∧ 2 * (d * roundHalfEven n d) ≤ 2 * n + d := by
    have hsplit := Nat.div_add_mod n d
    have hrest := Nat.mod_lt n (Nat.pos_of_ne_zero hd)
    have hnext : d * (n / d + 1) = d * (n / d) + d := by ring
    unfold roundHalfEven
    simp only
    split_ifs <;> constructor <;> omega
  have hlow : (2 * n : ℚ) ≤ 2 * (d * roundHalfEven n d) + d := by exact_mod_cast hround.1
  have hhigh : (2 * (d * roundHalfEven n d) : ℚ) ≤ 2 * n + d := by exact_mod_cast hround.2
  have hcancel : (n / d : ℚ) * d = n := div_mul_cancel₀ _ hpos.ne'
  constructor <;> nlinarith

/-! ## The nearest number -/

/-- The mantissa of a quotient: it may have come out one bit too long. -/
def mantissa (num den : Nat) : Nat :=
  roundHalfEven (scaled num den (expFor num den)).1 (scaled num den (expFor num den)).2

theorem mantissa_spec (num : Nat) (hden : den ≠ 0) : (num / den / 2 ^ expFor num den - 1 / 2 : ℚ) ≤ mantissa num den ∧
    (mantissa num den : ℚ) ≤ num / den / 2 ^ expFor num den + 1 / 2 := by
  have hspec := roundHalfEven_spec (scaled num den (expFor num den)).1 (scaled_ne_zero num hden (expFor num den))
  rwa [scaled_ratio] at hspec

theorem mantissa_le (hnum : num ≠ 0) (hden : den ≠ 0) : mantissa num den ≤ 2 ^ 53 := by
  have hround := (mantissa_spec num hden).2
  have hbits := (expFor_spec hnum hden).1
  have hlt : (mantissa num den : ℚ) < (2 ^ 53 + 1 : ℕ) := by
    push_cast
    linarith
  have := Nat.cast_lt.1 hlt
  omega

theorem le_mantissa (hnum : num ≠ 0) (hden : den ≠ 0) (h : minExp < expFor num den) : 2 ^ 52 ≤ mantissa num den := by
  have hround := (mantissa_spec num hden).1
  have hfull := (expFor_spec hnum hden).2.2 h
  have hlt : ((2 ^ 52 : ℕ) : ℚ) < (mantissa num den + 1 : ℕ) := by
    push_cast
    linarith
  have := Nat.cast_lt.1 hlt
  omega

theorem ofRatio?_eq (hnum : num ≠ 0) (neg : Bool) : ofRatio? neg num den =
    if mantissa num den = 2 ^ 53 then
      (if maxExp < expFor num den + 1 then none else some ⟨neg, 2 ^ 52, expFor num den + 1⟩)
    else if maxExp < expFor num den then none else some ⟨neg, mantissa num den, expFor num den⟩ := by
  unfold ofRatio?
  rw [if_neg hnum]
  change (if maxExp < (if mantissa num den = Nat.pow 2 53 then (Nat.pow 2 52, expFor num den + 1)
    else (mantissa num den, expFor num den)).2
    then none else some (⟨neg, (if mantissa num den = Nat.pow 2 53 then (Nat.pow 2 52, expFor num den + 1) else
      (mantissa num den, expFor num den)).1,
      (if mantissa num den = Nat.pow 2 53 then (Nat.pow 2 52, expFor num den + 1) else
      (mantissa num den, expFor num den)).2⟩ : Binary64)) = _
  simp only [Nat.pow_eq]
  split <;> rfl

theorem wf_zero (neg : Bool) : WF { zero with neg } :=
  ⟨Nat.pow_pos (by decide), le_rfl, show minExp ≤ maxExp by decide, .inr rfl⟩

/-- What a quotient is rounded to has the form every number is kept in. -/
theorem wf_of_ofRatio? (hden : den ≠ 0) {neg : Bool} {x : Binary64} (h : ofRatio? neg num den = some x) : x.WF := by
  by_cases hnum : num = 0
  · subst hnum
    cases h
    exact wf_zero neg
  · have hexp := (expFor_spec hnum hden).2.1
    rw [ofRatio?_eq hnum] at h
    split at h
    · split at h
      · cases h
      · rename_i hmax
        cases h
        exact ⟨by simp, by simp only; omega, by simp only; omega, .inl (by simp)⟩
    · rename_i hlong
      split at h
      · cases h
      · rename_i hmax
        cases h
        have hle := mantissa_le hnum hden
        refine ⟨by simp only [Nat.pow_eq]; omega, hexp, by simp only; omega, ?_⟩
        by_cases hmin : expFor num den = minExp
        · exact .inr hmin
        · exact .inl (le_mantissa hnum hden (by omega))

/-- The least magnitude that is too large: the middle between the largest number and the next power of two. -/
def limit : ℚ := (2 ^ 53 - 1 / 2) * 2 ^ maxExp

theorem limit_le_of_exp {q : ℚ} {e : ℤ} (he : maxExp ≤ e) (h : 2 ^ 53 - 1 / 2 ≤ q / 2 ^ e) : limit ≤ q := by
  rw [le_div_iff₀ (two_zpow_pos e)] at h
  refine le_trans ?_ h
  unfold limit
  gcongr
  norm_num

/-- A quotient below the limit is not too large. -/
theorem isSome_ofRatio? (hden : den ≠ 0) (neg : Bool) (h : (num / den : ℚ) < limit) :
    (ofRatio? neg num den).isSome = true := by
  by_cases hnum : num = 0
  · subst hnum
    rfl
  · rw [ofRatio?_eq hnum]
    split
    · rename_i hlong
      split
      · rename_i hmax
        have hround := (mantissa_spec num hden).2
        rw [hlong] at hround
        push_cast at hround
        exact absurd (limit_le_of_exp (e := expFor num den) (by omega) (by linarith)) (not_le.2 h)
      · rfl
    · split
      · rename_i hmax
        have hfull := (expFor_spec hnum hden).2.2 (lt_trans (by decide) hmax)
        have hdouble : (num / den / 2 ^ (expFor num den - 1) : ℚ) = 2 * (num / den / 2 ^ expFor num den) := by
          rw [zpow_sub_one₀ two_ne_zero]
          field_simp
        exact absurd (limit_le_of_exp (e := expFor num den - 1) (by omega) (by rw [hdouble]; linarith)) (not_le.2 h)
      · rfl

/-! ## Decimals -/

/-- The number of digits tells a number up to a factor of ten. -/
theorem toDigits_bounds {n : Nat} (hn : n ≠ 0) :
    10 ^ ((Nat.toDigits 10 n).length - 1) ≤ n ∧ n < 10 ^ (Nat.toDigits 10 n).length := by
  have hpos : 0 < (Nat.toDigits 10 n).length := Nat.length_toDigits_pos
  refine ⟨?_, (Nat.length_toDigits_le_iff (by decide) hpos).1 le_rfl⟩
  by_contra hlt
  rw [not_le] at hlt
  have hone : (Nat.toDigits 10 n).length - 1 ≠ 0 := fun hzero => by
    rw [hzero, pow_zero] at hlt
    omega
  have := (Nat.length_toDigits_le_iff (by decide) (Nat.pos_of_ne_zero hone)).2 hlt
  omega

/-- A decimal as a quotient. -/
theorem decimal_ratio (digits : Nat) (exp10 : ℤ) :
    ((digits * Nat.pow 10 exp10.toNat : Nat) : ℚ) / (Nat.pow 10 (-exp10).toNat : Nat) = digits * 10 ^ exp10 := by
  rw [zpow_eq_div (by norm_num), mul_div_assoc']
  simp only [Nat.pow_eq]
  push_cast
  rfl

theorem limit_lt : limit < 10 ^ (400 : ℤ) := calc
  limit < 2 ^ 53 * 2 ^ maxExp := mul_lt_mul_of_pos_right (by norm_num) (two_zpow_pos _)
  _ = (2 ^ 8) ^ 128 := by rw [← zpow_natCast, ← zpow_add₀ two_ne_zero, ← pow_mul, ← zpow_natCast]; rfl
  _ < (10 ^ 3) ^ 128 := by gcongr; norm_num
  _ ≤ 10 ^ (400 : ℤ) := by
    rw [← pow_mul, ← zpow_natCast]
    exact zpow_le_zpow_right₀ (by norm_num) (by norm_num)

theorem wf_of_ofDecimal? {neg : Bool} {digits : Nat} {exp10 : ℤ} {x : Binary64}
    (h : ofDecimal? neg digits exp10 = some x) : x.WF := by
  unfold ofDecimal? at h
  simp only at h
  split at h
  · cases h
    exact wf_zero neg
  · split at h
    · cases h
    · split at h
      · cases h
        exact wf_zero neg
      · exact wf_of_ofRatio? (Nat.pow_pos (by decide)).ne' h

/-- A decimal below the limit is not too large. -/
theorem isSome_ofDecimal? (neg : Bool) {digits : Nat} {exp10 : ℤ} (h : (digits * 10 ^ exp10 : ℚ) < limit) :
    (ofDecimal? neg digits exp10).isSome = true := by
  unfold ofDecimal?
  simp only
  split
  · rfl
  · rename_i hdigits
    split
    · rename_i hsize
      have hpos : 0 < (Nat.toDigits 10 digits).length := Nat.length_toDigits_pos
      have hlarge : (10 : ℚ) ^ (400 : ℤ) ≤ digits * 10 ^ exp10 := calc
        (10 : ℚ) ^ (400 : ℤ) ≤ 10 ^ ((((Nat.toDigits 10 digits).length - 1 : ℕ) : ℤ) + exp10) :=
          zpow_le_zpow_right₀ (by norm_num) (by omega)
        _ = 10 ^ ((Nat.toDigits 10 digits).length - 1) * 10 ^ exp10 := by rw [zpow_add₀ (by norm_num), zpow_natCast]
        _ ≤ digits * 10 ^ exp10 := by
          gcongr
          exact_mod_cast (toDigits_bounds hdigits).1
      exact absurd h (not_lt.2 (limit_lt.le.trans hlarge))
    · split
      · rfl
      · exact isSome_ofRatio? (Nat.pow_pos (by decide)).ne' neg (lt_of_eq_of_lt (decimal_ratio digits exp10) h)

end DocAtlas.Binary64

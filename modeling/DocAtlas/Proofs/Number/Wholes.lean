/-
Whole numbers below 2^53. Such a number is a floating-point number, and its neighbours are at most one away; so a
decimal without places behind the point that reads back as the number is the number, and one is found once the grid has
come down to the units.
-/
import DocAtlas.Proofs.Number.Shortest

namespace DocAtlas.Binary64

variable {num den n : Nat}

/-! ## Rounding -/

theorem roundHalfEven_one (n : Nat) : roundHalfEven n 1 = n := by
  unfold roundHalfEven
  simp [Nat.mod_one]

theorem expFor_whole (hn : n ≠ 0) (hlt : n < 2 ^ 53) : expFor n 1 ≤ 0 := by
  obtain ⟨e, hexp, hfull, -⟩ := exists_expFor hn one_ne_zero
  have hsmall : (n : ℚ) < 2 ^ 53 := by exact_mod_cast hlt
  have he : e < 1 := by
    rw [← zpow_lt_zpow_iff_right₀ (one_lt_two (α := ℚ)), zpow_one]
    rw [Nat.cast_one, div_one, le_div_iff₀ (two_zpow_pos e)] at hfull
    linarith
  rw [hexp]
  exact max_le (by omega) (by decide)

/-- A whole number is its own nearest number. -/
theorem exists_ofDecimal?_whole (hn : n ≠ 0) (hlt : n < 2 ^ 53) (neg : Bool) :
    ∃ x, ofDecimal? neg n 0 = some x ∧ x.neg = neg ∧ x.exp ≤ 0 ∧ x.mant = n * 2 ^ (-x.exp).toNat := by
  have hexp := expFor_whole hn hlt
  have hscaled : scaled n 1 (expFor n 1) = (n * 2 ^ (-expFor n 1).toNat, 1) := by
    unfold scaled
    rw [Int.toNat_of_nonpos hexp]
    rfl
  have hmantissa : mantissa n 1 = n * 2 ^ (-expFor n 1).toNat := by
    unfold mantissa
    rw [hscaled]
    exact roundHalfEven_one _
  have hshort : mantissa n 1 ≠ 2 ^ 53 := by
    have hbits := (expFor_spec hn one_ne_zero).1
    rw [← scaled_ratio, hscaled, ← hmantissa, Nat.cast_one, div_one] at hbits
    intro heq
    rw [heq] at hbits
    norm_num at hbits
  have hsize : (Nat.toDigits 10 n).length ≤ 16 :=
    (Nat.length_toDigits_le_iff (by decide) (by decide)).2 (hlt.trans (by decide))
  have hpos : 0 < (Nat.toDigits 10 n).length := Nat.length_toDigits_pos
  refine ⟨⟨neg, mantissa n 1, expFor n 1⟩, ?_, rfl, hexp, hmantissa⟩
  have hratio : ofDecimal? neg n 0 = ofRatio? neg n 1 := by
    unfold ofDecimal?
    simp only
    rw [if_neg hn, if_neg (by omega), if_neg (by omega)]
    simp
  have hmax : ¬ maxExp < expFor n 1 := not_lt.2 (hexp.trans (by decide))
  rw [hratio, ofRatio?_eq hn, if_neg hshort, if_neg hmax]

/-! ## The place of the point -/

theorem lt_zpow_iff (num : Nat) (hden : den ≠ 0) (p : ℤ) :
    num * Nat.pow 10 (-p).toNat < den * Nat.pow 10 p.toNat ↔ (num / den : ℚ) < 10 ^ p := by
  have hpos : (0 : ℚ) < den := by exact_mod_cast Nat.pos_of_ne_zero hden
  have hten : (0 : ℚ) < 10 ^ (-p).toNat := by positivity
  rw [zpow_eq_div (by norm_num), div_lt_div_iff₀ hpos hten, mul_comm (10 ^ p.toNat : ℚ)]
  simp only [Nat.pow_eq]
  exact_mod_cast Iff.rfl

/-- The numbers of digits tell the magnitude of a quotient up to a factor of a hundred. -/
theorem quotient_bounds (hnum : num ≠ 0) (hden : den ≠ 0) :
    (10 : ℚ) ^ ((Nat.toDigits 10 num).length - (Nat.toDigits 10 den).length - 1 : ℤ) ≤ num / den ∧
      (num / den : ℚ) < 10 ^ ((Nat.toDigits 10 num).length - (Nat.toDigits 10 den).length + 1 : ℤ) := by
  obtain ⟨hlow, hhigh⟩ := toDigits_bounds hnum
  obtain ⟨hlow', hhigh'⟩ := toDigits_bounds hden
  have hlen : 0 < (Nat.toDigits 10 num).length := Nat.length_toDigits_pos
  have hlen' : 0 < (Nat.toDigits 10 den).length := Nat.length_toDigits_pos
  have hpos : (0 : ℚ) < den := by exact_mod_cast Nat.pos_of_ne_zero hden
  constructor
  · rw [le_div_iff₀ hpos]
    calc (10 : ℚ) ^ ((Nat.toDigits 10 num).length - (Nat.toDigits 10 den).length - 1 : ℤ) * den
        ≤ 10 ^ ((Nat.toDigits 10 num).length - (Nat.toDigits 10 den).length - 1 : ℤ) *
            10 ^ ((Nat.toDigits 10 den).length : ℤ) := by
          gcongr
          exact_mod_cast hhigh'.le
      _ = 10 ^ (((Nat.toDigits 10 num).length - 1 : ℕ) : ℤ) := by
          rw [← zpow_add₀ (by norm_num)]
          congr 1
          omega
      _ ≤ num := by exact_mod_cast hlow
  · rw [div_lt_iff₀ hpos]
    calc (num : ℚ) < 10 ^ ((Nat.toDigits 10 num).length : ℤ) := by exact_mod_cast hhigh
      _ = 10 ^ ((Nat.toDigits 10 num).length - (Nat.toDigits 10 den).length + 1 : ℤ) *
            10 ^ (((Nat.toDigits 10 den).length - 1 : ℕ) : ℤ) := by
          rw [← zpow_add₀ (by norm_num)]
          congr 1
          omega
      _ ≤ 10 ^ ((Nat.toDigits 10 num).length - (Nat.toDigits 10 den).length + 1 : ℤ) * den := by
          gcongr
          exact_mod_cast hlow'

/-- The point of a quotient stands behind its first digit that counts. -/
theorem pointFor_spec (hnum : num ≠ 0) (hden : den ≠ 0) :
    (10 : ℚ) ^ (pointFor num den - 1) ≤ num / den ∧ (num / den : ℚ) < 10 ^ pointFor num den := by
  obtain ⟨guess, hguess⟩ : ∃ guess : ℤ, guess = (Nat.toDigits 10 num).length - (Nat.toDigits 10 den).length - 1 :=
    ⟨_, rfl⟩
  have hpoint : pointFor num den = if (num / den : ℚ) < 10 ^ guess then guess
      else if (num / den : ℚ) < 10 ^ (guess + 1) then guess + 1 else guess + 2 := by
    simp only [← lt_zpow_iff num hden, hguess]
    unfold pointFor
    simp only [decide_eq_true_eq]
  -- the guess is between one and two too low
  obtain ⟨hbelow, habove⟩ := quotient_bounds hnum hden
  rw [← hguess] at hbelow
  rw [show ((Nat.toDigits 10 num).length - (Nat.toDigits 10 den).length + 1 : ℤ) = guess + 2 by omega] at habove
  rw [hpoint, if_neg (not_lt.2 hbelow)]
  split
  · rename_i hfirst
    exact ⟨by rwa [add_sub_cancel_right], hfirst⟩
  · rename_i hsecond
    refine ⟨?_, habove⟩
    rw [show guess + 2 - 1 = guess + 1 by omega]
    exact not_lt.1 hsecond

/-! ## The shortest decimal -/

variable {x : Binary64} {c : Nat} {p : ℤ}

/-- A whole number as a floating-point number. -/
structure IsWhole (x : Binary64) (n : Nat) : Prop where
  exp_le : x.exp ≤ 0
  mant : x.mant = n * 2 ^ (-x.exp).toNat

theorem IsWhole.quarters (h : x.IsWhole n) : (4 * x.mant : ℚ) * 2 ^ (x.exp - 2) = n := by
  rw [h.mant, zpow_sub₀ two_ne_zero, zpow_eq_div two_ne_zero x.exp, Int.toNat_of_nonpos h.exp_le]
  push_cast
  field_simp

/-- A decimal without places behind the point that reads back as a whole number is that number. -/
theorem IsWhole.eq_of_readsBack (h : x.IsWhole n) (hp : 0 ≤ p) (hreads : readsBack x c p = true) :
    c * 10 ^ p.toNat = n := by
  have hvalue : (c * 10 ^ p : ℚ) = (c * 10 ^ p.toNat : ℕ) := by
    push_cast
    rw [← zpow_natCast, Int.toNat_of_nonneg hp]
  have hquarter : (2 : ℚ) ^ (x.exp - 2) ≤ 1 / 4 := by
    calc (2 : ℚ) ^ (x.exp - 2) ≤ 2 ^ (-2 : ℤ) := zpow_le_zpow_right₀ one_le_two (by have := h.exp_le; omega)
      _ = 1 / 4 := by norm_num
  have hpos := two_zpow_pos (x.exp - 2)
  -- it is at most half of the unit away
  have hnear : (x.lower * 2 ^ (x.exp - 2) : ℚ) ≤ c * 10 ^ p ∧ (c * 10 ^ p : ℚ) ≤ x.upper * 2 ^ (x.exp - 2) := by
    rw [readsBack_iff] at hreads
    split at hreads
    · exact hreads
    · exact ⟨hreads.1.le, hreads.2.le⟩
  have hn := h.quarters
  have hlow : (n : ℚ) ≤ (c * 10 ^ p.toNat : ℕ) + 1 / 2 := by
    rw [← hvalue]
    nlinarith [mul_le_mul_of_nonneg_right x.le_lower hpos.le]
  have hhigh : ((c * 10 ^ p.toNat : ℕ) : ℚ) ≤ n + 1 / 2 := by
    rw [← hvalue]
    rw [cast_upper] at hnear
    nlinarith
  have hlow' : 2 * n ≤ 2 * (c * 10 ^ p.toNat) + 1 := by
    have : (2 * n : ℚ) ≤ 2 * (c * 10 ^ p.toNat : ℕ) + 1 := by linarith
    exact_mod_cast this
  have hhigh' : 2 * (c * 10 ^ p.toNat) ≤ 2 * n + 1 := by
    have : (2 * (c * 10 ^ p.toNat : ℕ) : ℚ) ≤ 2 * n + 1 := by linarith
    exact_mod_cast this
  omega

/-- A whole number reads back as itself. -/
theorem IsWhole.readsBack (h : x.IsWhole n) (hn : n ≠ 0) : readsBack x n 0 = true := by
  have hpos := two_zpow_pos (x.exp - 2)
  have hmant : x.mant ≠ 0 := by
    rw [h.mant]
    exact Nat.mul_ne_zero hn (Nat.pow_pos (by decide)).ne'
  have hlower : (x.lower : ℚ) < 4 * x.mant := by
    have hlt : x.lower < 4 * x.mant := by
      unfold lower
      split <;> omega
    exact_mod_cast hlt
  have hupper : (4 * x.mant : ℚ) < x.upper := by
    rw [cast_upper]
    linarith
  have hlow := mul_lt_mul_of_pos_right hlower hpos
  have hhigh := mul_lt_mul_of_pos_right hupper hpos
  rw [h.quarters] at hlow hhigh
  rw [readsBack_iff, zpow_zero, mul_one]
  split
  · exact ⟨hlow.le, hhigh.le⟩
  · exact ⟨hlow, hhigh⟩

theorem IsWhole.ratio (h : x.IsWhole n) : x.ratio = (n * 2 ^ (-x.exp).toNat, 2 ^ (-x.exp).toNat) := by
  unfold Binary64.ratio
  rw [h.mant, Int.toNat_of_nonpos h.exp_le]
  simp

/-- On the grid of the units a whole number is picked. -/
theorem IsWhole.pick? (h : x.IsWhole n) (hn : n ≠ 0) (k : Nat) : pick? x x.ratio.1 x.ratio.2 k k = some (n, 0) := by
  have hpos : 0 < 2 ^ (-x.exp).toNat := by positivity
  unfold Binary64.pick?
  simp only [h.ratio, sub_self, neg_zero, Int.toNat_zero, Nat.pow_eq, pow_zero, mul_one, Nat.mul_div_cancel _ hpos,
    Nat.mul_mod_left, mul_zero, hpos, h.readsBack hn, if_true, Bool.true_and]
  split <;> rfl

/-- The point is behind one of the first sixteen digits. -/
theorem IsWhole.exists_pointFor (h : x.IsWhole n) (hn : n ≠ 0) (hlt : n < 2 ^ 53) :
    ∃ k < 16, pointFor x.ratio.1 x.ratio.2 = (k + 1 : ℕ) := by
  have hpow : 2 ^ (-x.exp).toNat ≠ 0 := by positivity
  have hspec := pointFor_spec (Nat.mul_ne_zero hn hpow) hpow
  have hratio : ((n * 2 ^ (-x.exp).toNat : ℕ) / (2 ^ (-x.exp).toNat : ℕ) : ℚ) = n := by
    push_cast
    field_simp
  rw [h.ratio]
  simp only
  rw [hratio] at hspec
  obtain ⟨hlow, hhigh⟩ := hspec
  have hone : (1 : ℚ) ≤ n := by exact_mod_cast Nat.one_le_iff_ne_zero.2 hn
  have hsmall : (n : ℚ) < 10 ^ (16 : ℤ) := by
    have : n < 10 ^ 16 := hlt.trans (by decide)
    exact_mod_cast this
  have hpos : 0 < pointFor (n * 2 ^ (-x.exp).toNat) (2 ^ (-x.exp).toNat) := by
    rw [← zpow_lt_zpow_iff_right₀ (show (1 : ℚ) < 10 by norm_num), zpow_zero]
    linarith
  have hle : pointFor (n * 2 ^ (-x.exp).toNat) (2 ^ (-x.exp).toNat) - 1 < 16 := by
    rw [← zpow_lt_zpow_iff_right₀ (show (1 : ℚ) < 10 by norm_num)]
    linarith
  exact ⟨(pointFor (n * 2 ^ (-x.exp).toNat) (2 ^ (-x.exp).toNat) - 1).toNat, by omega, by omega⟩

/-- A search finds something before a place where there is something. -/
theorem exists_findSome?_range {α : Type} {f : Nat → Option α} {m k : Nat} (hk : k < m) (h : (f k).isSome = true) :
    ∃ i ≤ k, ∃ y, (List.range m).findSome? f = some y ∧ f i = some y := by
  obtain ⟨j, rfl⟩ := Nat.exists_eq_add_of_le (show k + 1 ≤ m from hk)
  have hsome : ((List.range (k + 1)).findSome? f).isSome = true := List.findSome?_isSome_iff.2 ⟨k, by simp, h⟩
  obtain ⟨y, hy⟩ := Option.isSome_iff_exists.1 hsome
  obtain ⟨i, hi, hfi⟩ := List.exists_of_findSome?_eq_some hy
  refine ⟨i, by have := List.mem_range.1 hi; omega, y, ?_, hfi⟩
  rw [List.range_add, List.findSome?_append, hy]
  rfl

/-- The shortest decimal of a whole number is the number. -/
theorem IsWhole.shortest (h : x.IsWhole n) (hn : n ≠ 0) (hlt : n < 2 ^ 53) :
    (x.shortest.digits * 10 ^ (x.shortest.point - x.shortest.size) : ℚ) = n := by
  have hmant : x.mant ≠ 0 := h.mant ▸ Nat.mul_ne_zero hn (Nat.pow_pos (by decide)).ne'
  obtain ⟨k, hk, hpoint⟩ := h.exists_pointFor hn hlt
  -- a coarser grid than that of the units may have something already
  obtain ⟨i, hi, cp, hfound, hpick⟩ := exists_findSome?_range (m := 17) (k := k)
    (f := fun i => Binary64.pick? x x.ratio.1 x.ratio.2 (pointFor x.ratio.1 x.ratio.2) (i + 1)) (by omega)
    (by simp only [hpoint, h.pick? hn (k + 1), Option.isSome_some])
  obtain ⟨hp, hreads⟩ := pick?_spec hpick
  have hwhole := h.eq_of_readsBack (by omega) hreads
  have hvalue : (cp.1 * 10 ^ cp.2.toNat : ℚ) = n := by exact_mod_cast hwhole
  rw [shortest_value hmant, show x.found = some cp from hfound, Option.getD_some, ← hvalue, ← zpow_natCast,
    Int.toNat_of_nonneg (by omega)]

end DocAtlas.Binary64

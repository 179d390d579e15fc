/-
The shortest decimal of a number. A candidate reads back as the number if it lies between the midpoints to its
neighbours; so the decimal found has digits other than zero and is below the limit of magnitudes. Dropping zeros at the
end changes the digits and the exponent but not the decimal.
-/
import DocAtlas.Number.Shortest
import DocAtlas.Proofs.Number.Rounding

namespace DocAtlas

namespace Binary64

variable {x : Binary64} {c : Nat} {p : ℤ}

/-! ## Candidates -/

/-- The lower midpoint, in quarters of the unit of a number. -/
def lower (x : Binary64) : Nat := 4 * x.mant - (if x.mant = 2 ^ 52 ∧ minExp < x.exp then 1 else 2)

/-- The upper midpoint. -/
def upper (x : Binary64) : Nat := 4 * x.mant + 2

theorem cast_upper (x : Binary64) : (x.upper : ℚ) = 4 * x.mant + 2 := by
  unfold upper
  push_cast
  rfl

theorem le_lower (x : Binary64) : (4 * x.mant - 2 : ℚ) ≤ x.lower := by
  have hle : 4 * x.mant ≤ x.lower + 2 := by
    unfold lower
    split <;> omega
  have : (4 * x.mant : ℚ) ≤ x.lower + 2 := by exact_mod_cast hle
  linarith

/-- A candidate in quarters of the unit, as a quotient of natural numbers. -/
theorem quarters_ratio (x : Binary64) (c : Nat) (p : ℤ) :
    ((c * Nat.pow 10 p.toNat * Nat.pow 2 (-(x.exp - 2)).toNat : Nat) : ℚ) /
      (Nat.pow 10 (-p).toNat * Nat.pow 2 (x.exp - 2).toNat : Nat) =
      c * 10 ^ p / 2 ^ (x.exp - 2) := by
  rw [zpow_eq_div (by norm_num) p, zpow_eq_div two_ne_zero (x.exp - 2)]
  simp only [Nat.pow_eq]
  push_cast
  field_simp

/-- What it is to read back as a number: to lie between the midpoints, the ends included if the mantissa is even. -/
theorem readsBack_iff : readsBack x c p = true ↔
    if x.mant % 2 = 0 then x.lower * 2 ^ (x.exp - 2) ≤ (c * 10 ^ p : ℚ) ∧ (c * 10 ^ p : ℚ) ≤ x.upper * 2 ^ (x.exp - 2)
    else x.lower * 2 ^ (x.exp - 2) < (c * 10 ^ p : ℚ) ∧ (c * 10 ^ p : ℚ) < x.upper * 2 ^ (x.exp - 2) := by
  have hpos := two_zpow_pos (x.exp - 2)
  have hratio := quarters_ratio x c p
  unfold readsBack
  change (if x.mant % 2 = 0 then
      decide (x.lower * (Nat.pow 10 (-p).toNat * Nat.pow 2 (x.exp - 2).toNat) ≤ c * Nat.pow 10 p.toNat *
      Nat.pow 2 (-(x.exp - 2)).toNat) &&
      decide (c * Nat.pow 10 p.toNat * Nat.pow 2 (-(x.exp - 2)).toNat ≤ x.upper *
        (Nat.pow 10 (-p).toNat * Nat.pow 2 (x.exp - 2).toNat))
    else
      decide (x.lower * (Nat.pow 10 (-p).toNat * Nat.pow 2 (x.exp - 2).toNat) < c * Nat.pow 10 p.toNat *
      Nat.pow 2 (-(x.exp - 2)).toNat) &&
      decide (c * Nat.pow 10 p.toNat * Nat.pow 2 (-(x.exp - 2)).toNat < x.upper *
        (Nat.pow 10 (-p).toNat * Nat.pow 2 (x.exp - 2).toNat))) =
    true ↔ _
  have hunit : 0 < Nat.pow 10 (-p).toNat * Nat.pow 2 (x.exp - 2).toNat :=
    Nat.mul_pos (Nat.pow_pos (by decide)) (Nat.pow_pos (by decide))
  generalize c * Nat.pow 10 p.toNat * Nat.pow 2 (-(x.exp - 2)).toNat = v at *
  generalize Nat.pow 10 (-p).toNat * Nat.pow 2 (x.exp - 2).toNat = unit at *
  have hunit : (0 : ℚ) < unit := by exact_mod_cast hunit
  rw [div_eq_div_iff hunit.ne' hpos.ne'] at hratio
  have hle : ∀ k : Nat, k * unit ≤ v ↔ (k * 2 ^ (x.exp - 2) : ℚ) ≤ c * 10 ^ p := fun k => by
    rw [← mul_le_mul_iff_of_pos_right hunit, ← hratio, mul_right_comm, mul_le_mul_iff_of_pos_right hpos]
    exact_mod_cast Iff.rfl
  have hge : ∀ k : Nat, v ≤ k * unit ↔ (c * 10 ^ p : ℚ) ≤ k * 2 ^ (x.exp - 2) := fun k => by
    rw [← mul_le_mul_iff_of_pos_right hunit, ← hratio, mul_right_comm, mul_le_mul_iff_of_pos_right hpos]
    exact_mod_cast Iff.rfl
  split
  · rw [Bool.and_eq_true, decide_eq_true_eq, decide_eq_true_eq, hle, hge]
  · rw [Bool.and_eq_true, decide_eq_true_eq, decide_eq_true_eq, ← not_le, ← not_le, hle, hge, not_le, not_le]

/-- What reads back as a number is above zero and below the limit of magnitudes. -/
theorem readsBack_bounds (hx : x.WF) (hzero : x.mant ≠ 0) (h : readsBack x c p = true) :
    c ≠ 0 ∧ (c * 10 ^ p : ℚ) < limit := by
  have hpos := two_zpow_pos (x.exp - 2)
  have hone : (1 : ℚ) ≤ x.mant := by exact_mod_cast Nat.one_le_iff_ne_zero.2 hzero
  have hlower : (2 : ℚ) ≤ x.lower := by linarith [x.le_lower]
  obtain ⟨hlow, hhigh⟩ : x.lower * 2 ^ (x.exp - 2) ≤ (c * 10 ^ p : ℚ) ∧
    (c * 10 ^ p : ℚ) < (2 ^ 55 - 2) * 2 ^ (x.exp - 2) := by
    have hmant : x.mant < 2 ^ 53 := hx.mant_lt
    rw [readsBack_iff, cast_upper] at h
    split at h
    · rename_i heven
      have hlt : (x.mant + 1 : ℚ) < 2 ^ 53 := by
        have : x.mant + 1 < 2 ^ 53 := by omega
        exact_mod_cast this
      exact ⟨h.1, h.2.trans_lt (mul_lt_mul_of_pos_right (by linarith) hpos)⟩
    · have hle : (x.mant + 1 : ℚ) ≤ 2 ^ 53 := by exact_mod_cast Nat.succ_le_of_lt hmant
      exact ⟨h.1.le, h.2.trans_le (mul_le_mul_of_nonneg_right (by linarith) hpos.le)⟩
  constructor
  · rintro rfl
    rw [Nat.cast_zero, zero_mul] at hlow
    nlinarith
  · calc (c * 10 ^ p : ℚ) < (2 ^ 55 - 2) * 2 ^ (x.exp - 2) := hhigh
      _ ≤ (2 ^ 55 - 2) * 2 ^ (maxExp - 2) := by
        have hexp := hx.exp_le
        gcongr
        · norm_num
      _ = limit := by
        unfold limit
        rw [zpow_sub₀ two_ne_zero]
        ring

/-! ## The decimal found -/

/-- The candidate picked on a grid reads back. -/
theorem pick?_spec {num den n : Nat} {point : ℤ} (h : pick? x num den point n = some (c, p)) :
    p = point - n ∧ readsBack x c p = true := by
  unfold pick? at h
  simp only at h
  split at h
  · rename_i hboth
    rw [Bool.and_eq_true] at hboth
    split at h
    · cases h
      exact ⟨rfl, hboth.1⟩
    · split at h
      · cases h
        exact ⟨rfl, hboth.2⟩
      · split at h
        · cases h
          exact ⟨rfl, hboth.1⟩
        · cases h
          exact ⟨rfl, hboth.2⟩
  · split at h
    · rename_i hlow
      cases h
      exact ⟨rfl, hlow⟩
    · split at h
      · rename_i hhigh
        cases h
        exact ⟨rfl, hhigh⟩
      · cases h

/-- Zeros at the end go into the exponent. -/
theorem dropZeros_spec (fuel c : Nat) (p : ℤ) :
    ((dropZeros fuel c p).1 * 10 ^ (dropZeros fuel c p).2 : ℚ) = c * 10 ^ p ∧ ((dropZeros fuel c p).1 = 0 → c = 0) := by
  induction fuel generalizing c p with
  | zero => exact ⟨rfl, id⟩
  | succ fuel ih =>
    rw [dropZeros]
    split
    · rename_i h
      obtain ⟨hvalue, hzero⟩ := ih (c / 10) (p + 1)
      refine ⟨?_, fun h0 => ?_⟩
      · have hsplit : (c : ℚ) = (c / 10 : Nat) * 10 := by
          exact_mod_cast (Nat.div_mul_cancel (Nat.dvd_of_mod_eq_zero h.1)).symm
        rw [hvalue, zpow_add_one₀ (by norm_num)]
        conv_rhs => rw [hsplit]
        ring
      · have := hzero h0
        omega
    · exact ⟨rfl, id⟩

/-- What a search over the grids finds, or zero. -/
def found (x : Binary64) : Option (Nat × ℤ) :=
  (List.range 17).findSome? fun i => pick? x x.ratio.1 x.ratio.2 (pointFor x.ratio.1 x.ratio.2) (i + 1)

/-- The shortest decimal is what was found, with zeros at the end taken away. -/
theorem shortest_eq (hzero : x.mant ≠ 0) : x.shortest =
    let (c, p) := dropZeros 20 (x.found.getD (0, 0)).1 (x.found.getD (0, 0)).2
    ⟨c, (Nat.toDigits 10 c).length, p + (Nat.toDigits 10 c).length⟩ := by
  unfold shortest
  rw [if_neg (by simpa [isZero] using hzero)]
  rfl

/-- It stands for what was found. -/
theorem shortest_value (hzero : x.mant ≠ 0) : (x.shortest.digits * 10 ^ (x.shortest.point - x.shortest.size) : ℚ) =
    (x.found.getD (0, 0)).1 * 10 ^ (x.found.getD (0, 0)).2 := by
  rw [shortest_eq hzero]
  simp only [add_sub_cancel_right]
  exact (dropZeros_spec 20 _ _).1

/-- What was found reads back. -/
theorem found_spec {cp : Nat × ℤ} (h : x.found = some cp) : readsBack x cp.1 cp.2 = true := by
  obtain ⟨i, -, hpick⟩ := List.exists_of_findSome?_eq_some h
  exact (pick?_spec hpick).2

theorem limit_pos : 0 < limit := mul_pos (by norm_num) (two_zpow_pos _)

/-- What is printed for a number: its digits, how many they are, and where the point is. Zero has its point behind it,
and every decimal is below the limit of magnitudes. -/
structure IsPrintable (d : ShortDecimal) : Prop where
  size : d.size = (Nat.toDigits 10 d.digits).length
  zero : d.digits = 0 → d.point = 1
  lt_limit : (d.digits * 10 ^ (d.point - d.size) : ℚ) < limit

theorem isPrintable_shortest (hx : x.WF) : IsPrintable x.shortest := by
  by_cases hzero : x.mant = 0
  · have hshortest : x.shortest = ⟨0, 1, 1⟩ := if_pos (by simpa [isZero] using hzero)
    rw [hshortest]
    exact ⟨rfl, fun _ => rfl, by simpa using limit_pos⟩
  · refine ⟨?_, fun h0 => ?_, ?_⟩
    · rw [shortest_eq hzero]
    · cases hfound : x.found with
      | none =>
        rw [shortest_eq hzero, hfound]
        rfl
      | some cp =>
        rw [shortest_eq hzero, hfound] at h0
        exact absurd ((dropZeros_spec 20 cp.1 cp.2).2 h0) (readsBack_bounds hx hzero (found_spec hfound)).1
    · rw [shortest_value hzero]
      cases hfound : x.found with
      | none => simpa using limit_pos
      | some cp => exact (readsBack_bounds hx hzero (found_spec hfound)).2

end Binary64

end DocAtlas

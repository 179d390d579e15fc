/-
Floating-point numbers in documents. A decimal is written with its digits as they are or with zeros before or after
them, so reading it gives back sign and decimal; it has the form of a number, and one that is below the limit of
magnitudes can be read as a floating-point number again.
-/
import DocAtlas.Proofs.Json.Numbers
import DocAtlas.Proofs.Json.Values
import DocAtlas.Proofs.Number.Shortest

namespace DocAtlas

namespace Text

/-! ## Digits -/

theorem value_ofNat (n : Nat) : (ofNat n).value = n := (ofNat_spec n).2.1

theorem value_zeros_append (k : Nat) (ds : Text) : value (List.replicate k 48 ++ ds) = ds.value := by
  unfold value
  rw [List.foldl_append]
  congr 1
  induction k with
  | zero => rfl
  | succ k ih => exact ih

theorem value_append_zeros (ds : Text) (k : Nat) : value (ds ++ List.replicate k 48) = ds.value * 10 ^ k := by
  unfold value
  rw [List.foldl_append]
  induction k with
  | zero => simp
  | succ k ih =>
    rw [List.replicate_succ', List.foldl_append, ih, List.foldl_cons, List.foldl_nil, pow_succ]
    simp [mul_assoc]

theorem length_ofNat (n : Nat) : (ofNat n).length = (Nat.toDigits 10 n).length := by
  induction n using Nat.strong_induction_on with
  | _ n ih =>
    rw [ofNat_eq, Nat.toDigits_eq_if (by decide)]
    split
    · rfl
    · rename_i h
      rw [List.length_append, List.length_append, ih (n / 10) (by omega)]
      rfl

end Text

namespace Json

/-! ## Decimals in parts -/

/-- The digits behind a point, and nothing without digits. -/
def fractionText (ds : Text) : Text := if ds = [] then [] else 46 :: ds

/-- What the exponent of a number stands for. -/
def exponentValue (t : Text) : ℤ :=
  match t with
  | _ :: 45 :: u => -((Text.toNat? u).getD 0 : ℤ)
  | _ :: 43 :: u => ((Text.toNat? u).getD 0 : ℤ)
  | _ :: u => ((Text.toNat? u).getD 0 : ℤ)
  | [] => 0

/-- Digits, perhaps a point with digits behind it, and perhaps an exponent, for a magnitude. -/
structure IsDecimal (t : Text) (q : ℚ) : Prop where
  parts : ∃ whole ds exponent, IsWhole whole ∧ (∀ b ∈ ds, Text.isDigit b = true) ∧ IsExponent exponent ∧
    t = whole ++ (fractionText ds ++ exponent) ∧
    ((whole ++ ds).value * 10 ^ (exponentValue exponent - ds.length) : ℚ) = q

theorem isFraction_fractionText {ds : Text} (hds : ∀ b ∈ ds, Text.isDigit b = true) : IsFraction (fractionText ds) := by
  unfold fractionText
  split
  · exact .inl rfl
  · rename_i hne
    exact .inr ⟨ds, ⟨hne, hds⟩, rfl⟩

variable {sign t : Text} {q : ℚ}

theorem IsDecimal.isNumber (h : IsDecimal t q) (hsign : sign = [] ∨ sign = [45]) : IsNumber (sign ++ t) := by
  obtain ⟨whole, ds, exponent, hwhole, hds, hexponent, rfl, -⟩ := h.parts
  exact isNumber_parts hsign hwhole (isFraction_fractionText hds) hexponent

/-- The decimal of what follows a sign. -/
def decimalFrom (neg : Bool) (t : Text) : Bool × Nat × ℤ :=
  let whole := t.takeWhile Text.isDigit
  let t := t.drop whole.length
  let fraction := match t with
    | 46 :: u => u.takeWhile Text.isDigit
    | _ => []
  let t := if fraction.isEmpty then t else t.drop (fraction.length + 1)
  (neg, (Text.toNat? (whole ++ fraction)).getD 0, exponentValue t - fraction.length)

theorem decimalOf_minus (t : Text) : decimalOf (45 :: t) = decimalFrom true t := rfl

theorem decimalOf_plain {t : Text} (h : t.head? ≠ some 45) : decimalOf t = decimalFrom false t := by
  have hneg : (t.head? == some 45) = false := beq_eq_false_iff_ne.2 h
  unfold decimalOf
  rw [hneg]
  rfl

theorem decimalFrom_parts {whole ds exponent : Text} (hwhole : IsWhole whole) (hds : ∀ b ∈ ds, Text.isDigit b = true)
    (hexponent : IsExponent exponent) (neg : Bool) :
    decimalFrom neg (whole ++ (fractionText ds ++ exponent)) =
      (neg, (whole ++ ds).value, exponentValue exponent - ds.length) := by
  have hdigits : (Text.toNat? (whole ++ ds)).getD 0 = (whole ++ ds).value := by
    rw [Text.toNat?_of_digits (by simp [hwhole.1.1]) fun b hb => (List.mem_append.1 hb).elim (hwhole.1.2 b) (hds b)]
    rfl
  have hfraction : ∀ b ∈ (fractionText ds ++ exponent).head?, Text.isDigit b = false := by
    unfold fractionText
    split
    · exact hexponent.not_digit
    · exact fun b hb => by cases hb; rfl
  unfold decimalFrom
  simp only [takeWhile_digits hwhole.1.2 hfraction, List.drop_left]
  by_cases hnone : ds = []
  · subst hnone
    -- an exponent does not look like a fraction
    rw [← hdigits]
    rcases hexponent with rfl | ⟨sign, es, -, -, rfl⟩ <;> rfl
  · have hpoint : fractionText ds = 46 :: ds := if_neg hnone
    simp only [hpoint, List.cons_append, takeWhile_digits hds hexponent.not_digit, List.isEmpty_eq_false_iff.2 hnone,
      Bool.false_eq_true, if_false, List.drop_succ_cons, List.drop_left, hdigits]

/-- Sign and decimal are read from what is written for them. -/
theorem IsDecimal.decimalOf (h : IsDecimal t q) (hsign : sign = [] ∨ sign = [45]) :
    ∃ n e, Json.decimalOf (sign ++ t) = (!sign.isEmpty, n, e) ∧ (n * 10 ^ e : ℚ) = q := by
  obtain ⟨whole, ds, exponent, hwhole, hds, hexponent, rfl, hvalue⟩ := h.parts
  refine ⟨_, _, ?_, hvalue⟩
  rcases hsign with rfl | rfl
  · rw [List.nil_append, decimalOf_plain (hwhole.head?_ne _), decimalFrom_parts hwhole hds hexponent]
    rfl
  · rw [List.singleton_append, decimalOf_minus, decimalFrom_parts hwhole hds hexponent]
    rfl

/-! ## Decimals as they are written -/

theorem isDigits_ofNat (n : Nat) : IsDigits (Text.ofNat n) := (isWhole_ofNat n).1

theorem isDigit_zeros (k : Nat) : ∀ b ∈ List.replicate k (48 : UInt8), Text.isDigit b = true := fun b hb => by
  rw [List.eq_of_mem_replicate hb]
  rfl

/-- The first digits of a number are the whole part of a decimal, as a leading zero stands alone. -/
theorem isWhole_take (n : Nat) {k : Nat} (hk : 0 < k) : IsWhole ((Text.ofNat n).take k) := by
  obtain ⟨hall, -, d, ds, hcons, hzero⟩ := Text.ofNat_spec n
  obtain ⟨k, rfl⟩ := Nat.exists_eq_add_one_of_ne_zero hk.ne'
  refine ⟨⟨by rw [hcons]; exact List.cons_ne_nil _ _, fun b hb => hall b (List.mem_of_mem_take hb)⟩, fun t ht => ?_⟩
  rw [hcons, List.take_succ_cons] at ht
  obtain ⟨rfl, rfl⟩ := List.cons.inj ht
  rw [hzero rfl, List.take_nil]

variable {d : ShortDecimal}

theorem length_digits (hd : Binary64.IsPrintable d) : (Text.ofNat d.digits).length = d.size := by
  rw [Text.length_ofNat, hd.size]

/-- Zeros between the point and the digits. -/
theorem isDecimal_zeros_digits (hd : Binary64.IsPrintable d) (hpoint : d.point ≤ 0) :
    IsDecimal (Text.ofString "0." ++ List.replicate (-d.point).toNat 48 ++ Text.ofNat d.digits)
      (d.digits * 10 ^ (d.point - d.size)) := by
  have hdigits := isDigits_ofNat d.digits
  refine ⟨[48], List.replicate (-d.point).toNat 48 ++ Text.ofNat d.digits, [], ⟨⟨by simp, by simp; rfl⟩, by simp⟩,
    fun b hb => (List.mem_append.1 hb).elim (isDigit_zeros _ b) (hdigits.2 b), .inl rfl, ?_, ?_⟩
  · have hne : List.replicate (-d.point).toNat 48 ++ Text.ofNat d.digits ≠ [] := by
      simp [hdigits.1]
    rw [fractionText, if_neg hne]
    simp
    rfl
  · rw [← List.append_assoc, ← List.replicate_one, List.replicate_append_replicate, Text.value_zeros_append,
      Text.value_ofNat]
    congr 2
    simp [exponentValue, length_digits hd]
    omega

/-- The point within the digits. -/
theorem isDecimal_digits_point_digits (hd : Binary64.IsPrintable d) (hpoint : 0 < d.point)
    (hsize : d.point.toNat < d.size) :
    IsDecimal ((Text.ofNat d.digits).take d.point.toNat ++ "." ++ (Text.ofNat d.digits).drop d.point.toNat)
      (d.digits * 10 ^ (d.point - d.size)) := by
  refine ⟨(Text.ofNat d.digits).take d.point.toNat, (Text.ofNat d.digits).drop d.point.toNat, [],
    isWhole_take _ (by omega), fun b hb => (isDigits_ofNat d.digits).2 b (List.mem_of_mem_drop hb), .inl rfl, ?_, ?_⟩
  · have hne : (Text.ofNat d.digits).drop d.point.toNat ≠ [] := by
      simp [List.drop_eq_nil_iff, length_digits hd]
      omega
    rw [fractionText, if_neg hne]
    simp
    rfl
  · rw [List.take_append_drop, Text.value_ofNat]
    congr 2
    simp [exponentValue, length_digits hd]
    omega

/-- Zeros behind the digits are a whole part, as zero has none. -/
theorem isWhole_digits_zeros (hd : Binary64.IsPrintable d) :
    IsWhole (Text.ofNat d.digits ++ List.replicate (d.point.toNat - d.size) 48) := by
  refine ⟨⟨by simp [(isDigits_ofNat d.digits).1], fun b hb => ?_⟩, fun t ht => ?_⟩
  · exact (List.mem_append.1 hb).elim ((isDigits_ofNat d.digits).2 b) (isDigit_zeros _ b)
  · -- only zero begins with a zero, and its point is behind it
    have hlength := length_digits hd
    obtain ⟨-, hvalue, b, bs, hcons, hlone⟩ := Text.ofNat_spec d.digits
    rw [hcons, List.cons_append] at ht
    obtain ⟨rfl, rfl⟩ := List.cons.inj ht
    rw [hcons, hlone rfl] at hvalue hlength
    have hzero := hd.zero hvalue.symm
    rw [hlone rfl, hzero, ← hlength]
    rfl

/-- Zeros behind the digits. -/
theorem isDecimal_digits_zeros (hd : Binary64.IsPrintable d) (hpoint : 0 < d.point) (hsize : d.size ≤ d.point.toNat) :
    IsDecimal (Text.ofNat d.digits ++ List.replicate (d.point.toNat - d.size) 48)
    (d.digits * 10 ^ (d.point - d.size)) := by
  refine ⟨Text.ofNat d.digits ++ List.replicate (d.point.toNat - d.size) 48, [], [], isWhole_digits_zeros hd,
    List.forall_mem_nil _, .inl rfl, by simp [fractionText], ?_⟩
  rw [List.append_nil, Text.value_append_zeros, Text.value_ofNat]
  push_cast
  rw [← zpow_natCast, mul_assoc, ← zpow_add₀ (by norm_num)]
  congr 2
  simp [exponentValue]
  omega

theorem isDecimal_positional (hd : Binary64.IsPrintable d) :
    IsDecimal d.positional (d.digits * 10 ^ (d.point - d.size)) := by
  unfold ShortDecimal.positional
  simp only
  split
  · rename_i hpoint
    exact isDecimal_zeros_digits hd hpoint
  · rename_i hpoint
    split
    · rename_i hsize
      exact isDecimal_digits_point_digits hd (not_le.1 hpoint) hsize
    · rename_i hsize
      exact isDecimal_digits_zeros hd (not_le.1 hpoint) (not_lt.1 hsize)

theorem isDigits_paddedDigits (width n : Nat) :
    IsDigits (Text.paddedDigits 10 width n) ∧ (Text.paddedDigits 10 width n).value = n := by
  have hpadded : Text.paddedDigits 10 width n = List.replicate (width - (Text.ofNat n).length) 48 ++ Text.ofNat n := rfl
  rw [hpadded]
  refine ⟨⟨by simp [(isDigits_ofNat n).1], fun b hb => ?_⟩, by rw [Text.value_zeros_append, Text.value_ofNat]⟩
  exact (List.mem_append.1 hb).elim (isDigit_zeros _ b) ((isDigits_ofNat n).2 b)

theorem isDecimal_scientific (hd : Binary64.IsPrintable d) (width : Nat) :
    IsDecimal (d.scientific width) (d.digits * 10 ^ (d.point - d.size)) := by
  have hlength := length_digits hd
  have hpos : 0 < d.size := hd.size ▸ Nat.length_toDigits_pos
  obtain ⟨hpadded, hvalue⟩ := isDigits_paddedDigits width (d.point - 1).natAbs
  have hfraction : (if 1 < d.size then 46 :: (Text.ofNat d.digits).drop 1 else []) =
    fractionText ((Text.ofNat d.digits).drop 1) := by
    unfold fractionText
    by_cases h : 1 < d.size
    · rw [if_pos h, if_neg]
      rw [List.drop_eq_nil_iff, hlength]
      omega
    · rw [if_neg h, if_pos]
      rw [List.drop_eq_nil_iff, hlength]
      omega
  have hread : Text.toNat? (Text.paddedDigits 10 width (d.point - 1).natAbs) = some (d.point - 1).natAbs := by
    rw [Text.toNat?_of_digits hpadded.1 hpadded.2, hvalue]
  obtain ⟨sign, hsign, htext, hexponent⟩ : ∃ sign, (sign = 43 ∨ sign = 45) ∧
      Text.ofString (if d.point - 1 < 0 then "-" else "+") = [sign] ∧
      exponentValue (101 :: sign :: Text.paddedDigits 10 width (d.point - 1).natAbs) = d.point - 1 := by
    by_cases hneg : d.point - 1 < 0
    · refine ⟨45, .inr rfl, by rw [if_pos hneg]; rfl, ?_⟩
      simp only [exponentValue, hread, Option.getD_some]
      omega
    · refine ⟨43, .inl rfl, by rw [if_neg hneg]; rfl, ?_⟩
      simp only [exponentValue, hread, Option.getD_some]
      omega
  unfold ShortDecimal.scientific
  simp only
  rw [htext, hfraction]
  refine ⟨(Text.ofNat d.digits).take 1, (Text.ofNat d.digits).drop 1, _, isWhole_take _ Nat.one_pos,
    fun b hb => (isDigits_ofNat d.digits).2 b (List.mem_of_mem_drop hb), .inr ⟨sign, _, hsign, hpadded, rfl⟩, ?_, ?_⟩
  · simp only [List.append_assoc]
    rfl
  · rw [List.take_append_drop, Text.value_ofNat, hexponent, List.length_drop, hlength]
    congr 2
    omega

theorem decimalFrom_ofNat (neg : Bool) (n : Nat) : decimalFrom neg (Text.ofNat n) = (neg, n, 0) := by
  have hparts := decimalFrom_parts (isWhole_ofNat n) (List.forall_mem_nil _) (.inl rfl) neg
  simpa [fractionText, exponentValue, Text.value_ofNat] using hparts

/-- The decimal of a whole number. -/
theorem decimalOf_ofInt (z : ℤ) : Json.decimalOf (Text.ofInt z) = (decide (z < 0), z.natAbs, 0) := by
  cases z with
  | ofNat n =>
    rw [Text.ofInt, decimalOf_plain (head?_ofNat_ne n), decimalFrom_ofNat]
    simp
  | negSucc n =>
    rw [Text.ofInt, decimalOf_minus, decimalFrom_ofNat]
    simp

/-! ## Numbers as documents write them -/

variable {x : Binary64}

/-- The sign of a number as it is written. -/
def signText (x : Binary64) : Text := if x.neg then [45] else []

theorem exists_documentText (hx : x.WF) :
    ∃ t, x.documentText = signText x ++ t ∧
    IsDecimal t (x.shortest.digits * 10 ^ (x.shortest.point - x.shortest.size)) := by
  have hd := Binary64.isPrintable_shortest hx
  unfold Binary64.documentText
  simp only
  split
  · exact ⟨_, rfl, isDecimal_positional hd⟩
  · exact ⟨_, rfl, isDecimal_scientific hd _⟩

theorem signText_cases (x : Binary64) : signText x = [] ∨ signText x = [45] := by
  unfold signText
  split
  · exact .inr rfl
  · exact .inl rfl

theorem isNumber_documentText (hx : x.WF) : IsNumber x.documentText := by
  obtain ⟨t, htext, ht⟩ := exists_documentText hx
  rw [htext]
  exact ht.isNumber (signText_cases x)

/-- A number that was written can be read as a floating-point number again. -/
theorem fits_documentText (hx : x.WF) : Fits x.documentText := by
  obtain ⟨t, htext, ht⟩ := exists_documentText hx
  obtain ⟨n, e, hdecimal, hvalue⟩ := ht.decimalOf (signText_cases x)
  unfold Fits float?
  rw [htext, hdecimal]
  refine Binary64.isSome_ofDecimal? _ ?_
  rw [hvalue]
  exact (Binary64.isPrintable_shortest hx).lt_limit

theorem wf_of_float? {lit : Text} (h : float? lit = some x) : x.WF := Binary64.wf_of_ofDecimal? h

/-- A number in its shortest form is a number that fits. -/
theorem isNumber_shortened {lit : Text} (h : Fits lit) : IsNumber (shortened lit) ∧ Fits (shortened lit) := by
  obtain ⟨x, hx⟩ := Option.isSome_iff_exists.1 h
  have hwf := wf_of_float? hx
  unfold shortened
  rw [hx]
  exact ⟨isNumber_documentText hwf, fits_documentText hwf⟩

end Json

end DocAtlas

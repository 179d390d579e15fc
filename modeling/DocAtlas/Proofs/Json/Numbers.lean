/-
Numbers in a document. Readers of their parts stop at what follows a value (`Stops`), so a number is read from
within a document if reading it alone takes all of it (`IsNumber`). Whole numbers are such: their digits stand for
them, and the first is no zero unless it is the only one.
-/
import DocAtlas.Json.Decode
import DocAtlas.Json.Reader
import DocAtlas.Proofs.Text.Pieces

namespace DocAtlas

namespace Text

/-- The number that digits stand for. -/
def value (ds : Text) : Nat := ds.foldl (fun n b => n * 10 + (b.toNat - 48)) 0

theorem toNat?_of_digits {ds : Text} (hne : ds ≠ []) (hds : ∀ b ∈ ds, isDigit b = true) :
    toNat? ds = some ds.value := by
  unfold toNat?
  rw [List.all_eq_true.2 hds, if_neg (by simpa using hne)]
  rfl

/-- The byte of a digit. -/
def digitByte (d : Nat) : UInt8 := UInt8.ofNat (48 + d)

theorem utf8EncodeChar_digitChar {d : Nat} (hd : d < 10) : String.utf8EncodeChar (Nat.digitChar d) = [digitByte d] := by
  have hall : ∀ d < 10, String.utf8EncodeChar (Nat.digitChar d) = [digitByte d] := by decide
  exact hall d hd

theorem digitByte_spec {d : Nat} (hd : d < 10) : isDigit (digitByte d) = true ∧ (digitByte d).toNat = 48 + d := by
  have hall : ∀ d < 10, isDigit (digitByte d) = true ∧ (digitByte d).toNat = 48 + d := by decide
  exact hall d hd

/-- The digits of a number: those of its tenth and its last one. -/
theorem ofNat_eq (n : Nat) : ofNat n = if n < 10 then [digitByte n] else ofNat (n / 10) ++ [digitByte (n % 10)] := by
  have hlast : n % 10 < 10 := Nat.mod_lt n (by decide)
  unfold ofNat digits
  conv_lhs => rw [Nat.toDigits_eq_if (by decide)]
  split
  · rename_i h
    rw [List.flatMap_singleton, utf8EncodeChar_digitChar h]
  · rw [List.flatMap_append, List.flatMap_singleton, utf8EncodeChar_digitChar hlast]

/-- A number is written in digits that stand for it, and a leading zero stands alone. -/
theorem ofNat_spec (n : Nat) : (∀ b ∈ ofNat n, isDigit b = true) ∧ (ofNat n).value = n ∧
    ∃ d ds, ofNat n = d :: ds ∧ (d = 48 → ds = []) := by
  induction n using Nat.strong_induction_on with
  | _ n ih =>
    rw [ofNat_eq]
    split
    · rename_i h
      obtain ⟨hdigit, hvalue⟩ := digitByte_spec h
      refine ⟨by simpa using hdigit, ?_, _, _, rfl, fun _ => rfl⟩
      simp [value, hvalue]
    · rename_i h
      obtain ⟨hdigit, hvalue⟩ := digitByte_spec (Nat.mod_lt n (by decide : 0 < 10))
      obtain ⟨hall, hfold, d, ds, hcons, hzero⟩ := ih (n / 10) (by omega)
      unfold value at hfold ⊢
      refine ⟨?_, ?_, d, ds ++ [digitByte (n % 10)], by rw [hcons]; rfl, fun hd => ?_⟩
      · simpa [or_imp, forall_and] using ⟨hall, hdigit⟩
      · rw [List.foldl_append, hfold, List.foldl_cons, List.foldl_nil, hvalue]
        omega
      · -- only zero begins with a zero
        rw [hcons, hd, hzero hd] at hfold
        simp at hfold
        omega

theorem toNat?_ofNat (n : Nat) : toNat? (ofNat n) = some n := by
  obtain ⟨hall, hvalue, d, ds, hcons, -⟩ := ofNat_spec n
  have hne : ofNat n ≠ [] := hcons ▸ List.cons_ne_nil d ds
  rw [toNat?_of_digits hne hall, hvalue]

end Text

namespace Json

/-- What can follow a value in a document: a comma, a line end or nothing. -/
def EndsValue (rest : Text) : Prop := ∀ b ∈ rest.head?, b = 44 ∨ b = 10

variable {rest : Text}

theorem EndsValue.not_digit (h : EndsValue rest) : ∀ b ∈ rest.head?, Text.isDigit b = false := fun b hb => by
  rcases h b hb with rfl | rfl <;> rfl

/-- A reader that reads the same in front of the end of a value. -/
def Stops (rest : Text) (read : Text → Option (Text × Text)) : Prop :=
  ∀ t, read (t ++ rest) = (read t).map fun p => (p.1, p.2 ++ rest)

theorem stops_readDigits (h : EndsValue rest) : Stops rest readDigits := by
  intro t
  have hnone : rest.takeWhile Text.isDigit = [] := by
    cases rest with
    | nil => rfl
    | cons b rest => rw [List.takeWhile_cons_of_neg (by simp [h.not_digit b rfl])]
  have htake : (t ++ rest).takeWhile Text.isDigit = t.takeWhile Text.isDigit := by
    rw [List.takeWhile_append, hnone]
    split
    · rename_i hlength
      rw [List.append_nil]
      exact ((List.takeWhile_prefix _).eq_of_length hlength).symm
    · rfl
  unfold readDigits
  simp only [htake]
  split
  · rfl
  · rw [Option.map_some, List.drop_append_of_le_length (List.takeWhile_prefix _).length_le]

theorem stops_readWhole (h : EndsValue rest) : Stops rest readWhole := by
  intro t
  cases t with
  | nil =>
    have hdigits := stops_readDigits h []
    cases rest with
    | nil => rfl
    | cons b rest =>
      have hzero : b ≠ 48 := by rcases h b rfl with rfl | rfl <;> decide
      rw [List.nil_append, readWhole]
      · exact hdigits
      · exact fun _ heq => hzero (List.cons.inj heq).1
  | cons b t =>
    by_cases hzero : b = 48
    · subst hzero
      rfl
    · rw [List.cons_append, readWhole, readWhole]
      · exact stops_readDigits h (b :: t)
      · exact fun _ heq => hzero (List.cons.inj heq).1
      · exact fun _ heq => hzero (List.cons.inj heq).1

theorem stops_readFraction (h : EndsValue rest) : Stops rest readFraction := by
  intro t
  cases t with
  | nil =>
    cases rest with
    | nil => rfl
    | cons b rest => rcases h b rfl with rfl | rfl <;> rfl
  | cons b t =>
    by_cases hpoint : b = 46
    · subst hpoint
      rw [List.cons_append, readFraction, readFraction, stops_readDigits h, Option.map_map, Option.map_map]
      rfl
    · rw [List.cons_append, readFraction, readFraction]
      · rfl
      · exact fun _ heq => hpoint (List.cons.inj heq).1
      · exact fun _ heq => hpoint (List.cons.inj heq).1

theorem stops_readExponent (h : EndsValue rest) : Stops rest readExponent := by
  intro t
  cases t with
  | nil =>
    cases rest with
    | nil => rfl
    | cons b rest => rcases h b rfl with rfl | rfl <;> rfl
  | cons e t =>
    unfold readExponent
    by_cases hmark : (e == 101 || e == 69) = true
    · simp only [List.cons_append, if_pos hmark]
      cases t with
      | nil =>
        have hdigits := stops_readDigits h []
        cases rest with
        | nil => rfl
        | cons b rest =>
          have hsign : (b == 43 || b == 45) = false := by rcases h b rfl with rfl | rfl <;> rfl
          simp only [List.nil_append, hsign, Bool.false_eq_true, if_false] at hdigits ⊢
          rw [hdigits]
          rfl
      | cons s u =>
        simp only [List.cons_append]
        split
        · rw [stops_readDigits h, Option.map_map, Option.map_map]
          rfl
        · rw [← List.cons_append, stops_readDigits h, Option.map_map, Option.map_map]
          rfl
    · simp only [List.cons_append, if_neg hmark]
      rfl

/-- What follows the sign of a number. -/
def readUnsigned (sign t : Text) : Option (Text × Text) := do
  let (whole, t) ← readWhole t
  let (fraction, t) ← readFraction t
  let (exponent, t) ← readExponent t
  return (sign ++ whole ++ fraction ++ exponent, t)

theorem readNumber_minus (t : Text) : readNumber (45 :: t) = readUnsigned [45] t := rfl

theorem readNumber_plain {t : Text} (h : t.head? ≠ some 45) : readNumber t = readUnsigned [] t := by
  unfold readNumber
  split
  rename_i sign u heq
  split at heq
  · exact absurd rfl h
  · cases heq
    rfl

theorem stops_readUnsigned (h : EndsValue rest) (sign : Text) : Stops rest (readUnsigned sign) := by
  intro t
  unfold readUnsigned
  simp only [stops_readWhole h t, Option.bind_eq_bind]
  cases readWhole t with
  | none => rfl
  | some whole =>
    simp only [Option.map_some, Option.bind_some, stops_readFraction h whole.2]
    cases readFraction whole.2 with
    | none => rfl
    | some fraction =>
      simp only [Option.map_some, Option.bind_some, stops_readExponent h fraction.2]
      cases readExponent fraction.2 <;> rfl

theorem stops_readNumber (h : EndsValue rest) : Stops rest readNumber := by
  intro t
  by_cases hminus : t.head? = some 45
  · obtain ⟨u, rfl⟩ := List.head?_eq_some_iff.1 hminus
    exact stops_readUnsigned h [45] u
  · have hplain : (t ++ rest).head? ≠ some 45 := by
      cases t with
      | nil =>
        intro heq
        rcases h 45 heq with heq | heq <;> cases heq
      | cons b t => exact hminus
    rw [readNumber_plain hminus, readNumber_plain hplain]
    exact stops_readUnsigned h [] t

/-- A number as JSON writes it. -/
def IsNumber (lit : Text) : Prop := readNumber lit = some (lit, [])

instance (lit : Text) : Decidable (IsNumber lit) := inferInstanceAs (Decidable (_ = _))

theorem readNumber_append {lit : Text} (hlit : IsNumber lit) (h : EndsValue rest) :
    readNumber (lit ++ rest) = some (lit, rest) := by
  rw [stops_readNumber h, hlit]
  rfl

/-- A number starts with a digit or a minus. -/
theorem starts_of_readNumber {t : Text} {p : Text × Text} (h : readNumber t = some p) :
    ∃ b u, t = b :: u ∧ (Text.isDigit b = true ∨ b = 45) := by
  cases t with
  | nil => cases h
  | cons b u =>
    refine ⟨b, u, rfl, ?_⟩
    by_cases hminus : b = 45
    · exact .inr hminus
    · left
      by_contra hdigit
      have hwhole : readWhole (b :: u) = none := by
        rw [readWhole, readDigits, List.takeWhile_cons_of_neg hdigit]
        · rfl
        · rintro t heq
          rw [(List.cons.inj heq).1] at hdigit
          exact hdigit rfl
      have hplain : (b :: u).head? ≠ some 45 := fun heq => hminus (Option.some.inj heq)
      rw [readNumber_plain hplain, readUnsigned, hwhole] at h
      cases h

theorem IsNumber.starts {lit : Text} (h : IsNumber lit) : ∃ b u, lit = b :: u ∧ (Text.isDigit b = true ∨ b = 45) :=
  starts_of_readNumber h

/-! ## Numbers in parts -/

/-- A nonempty run of digits. -/
def IsDigits (ds : Text) : Prop := ds ≠ [] ∧ ∀ b ∈ ds, Text.isDigit b = true

/-- The digits before a point: a leading zero stands alone. -/
def IsWhole (ds : Text) : Prop := IsDigits ds ∧ ∀ t, ds = 48 :: t → t = []

/-- A point with digits behind it, or nothing. -/
def IsFraction (t : Text) : Prop := t = [] ∨ ∃ ds, IsDigits ds ∧ t = 46 :: ds

/-- A signed exponent, or nothing. -/
def IsExponent (t : Text) : Prop := t = [] ∨ ∃ sign ds, (sign = 43 ∨ sign = 45) ∧ IsDigits ds ∧ t = 101 :: sign :: ds

theorem IsWhole.head?_ne {ds : Text} (h : IsWhole ds) (t : Text) : (ds ++ t).head? ≠ some 45 := by
  obtain ⟨d, ds, rfl⟩ := List.exists_cons_of_ne_nil h.1.1
  intro heq
  have hdigit := h.1.2 d (List.mem_cons_self ..)
  rw [Option.some.inj heq] at hdigit
  cases hdigit

theorem IsExponent.not_digit {t : Text} (h : IsExponent t) : ∀ b ∈ t.head?, Text.isDigit b = false := by
  rcases h with rfl | ⟨sign, ds, -, -, rfl⟩
  · exact fun _ hb => by cases hb
  · exact fun b hb => by cases hb; rfl

theorem takeWhile_digits {ds rest : Text} (hds : ∀ b ∈ ds, Text.isDigit b = true)
    (hrest : ∀ b ∈ rest.head?, Text.isDigit b = false) :
    (ds ++ rest).takeWhile Text.isDigit = ds := by
  rw [List.takeWhile_append_of_pos hds]
  cases rest with
  | nil => simp
  | cons b rest => simp [hrest b rfl]

theorem readDigits_append {ds : Text} (hds : IsDigits ds) {rest : Text}
    (hrest : ∀ b ∈ rest.head?, Text.isDigit b = false) :
    readDigits (ds ++ rest) = some (ds, rest) := by
  unfold readDigits
  simp [takeWhile_digits hds.2 hrest, hds.1]

theorem readDigits_all {ds : Text} (hds : IsDigits ds) : readDigits ds = some (ds, []) := by
  have hread : readDigits (ds ++ []) = some (ds, []) := readDigits_append hds fun _ hb => by cases hb
  rwa [List.append_nil] at hread

theorem readWhole_append {ds : Text} (hds : IsWhole ds) {rest : Text}
    (hrest : ∀ b ∈ rest.head?, Text.isDigit b = false) :
    readWhole (ds ++ rest) = some (ds, rest) := by
  have hread := readDigits_append hds.1 hrest
  cases ds with
  | nil => exact absurd rfl hds.1.1
  | cons d ds =>
    by_cases hzero : d = 48
    · subst hzero
      rw [hds.2 ds rfl]
      rfl
    · rw [List.cons_append] at hread ⊢
      rw [readWhole, hread]
      exact fun _ heq => hzero (List.cons.inj heq).1

theorem readExponent_all {t : Text} (ht : IsExponent t) : readExponent t = some (t, []) := by
  rcases ht with rfl | ⟨sign, ds, hsign, hds, rfl⟩
  · rfl
  · have hmark : (sign == 43 || sign == 45) = true := by rcases hsign with rfl | rfl <;> rfl
    have hexponent : readExponent (101 :: sign :: ds) =
        (readDigits ds).map fun (ds, rest) => (101 :: sign :: ds, rest) := by
      unfold readExponent
      simp only [hmark]
      rfl
    rw [hexponent, readDigits_all hds]
    rfl

theorem readFraction_append {t exponent : Text} (ht : IsFraction t) (hexponent : IsExponent exponent) :
    readFraction (t ++ exponent) = some (t, exponent) := by
  rcases ht with rfl | ⟨ds, hds, rfl⟩
  · rcases hexponent with rfl | ⟨sign, ds, -, -, rfl⟩ <;> rfl
  · rw [List.cons_append, readFraction, readDigits_append hds hexponent.not_digit]
    rfl

/-- A number put together from its parts. -/
theorem isNumber_parts {sign whole fraction exponent : Text} (hsign : sign = [] ∨ sign = [45]) (hwhole : IsWhole whole)
    (hfraction : IsFraction fraction) (hexponent : IsExponent exponent) :
      IsNumber (sign ++ (whole ++ (fraction ++ exponent))) := by
  have hrest : ∀ b ∈ (fraction ++ exponent).head?, Text.isDigit b = false := by
    rcases hfraction with rfl | ⟨ds, -, rfl⟩
    · exact hexponent.not_digit
    · exact fun b hb => by cases hb; rfl
  have hread : ∀ sign, readUnsigned sign (whole ++ (fraction ++ exponent)) =
    some (sign ++ (whole ++ (fraction ++ exponent)), []) := by
    intro sign
    unfold readUnsigned
    simp only [Option.bind_eq_bind, readWhole_append hwhole hrest, Option.bind_some,
      readFraction_append hfraction hexponent, readExponent_all hexponent, List.append_assoc]
    rfl
  unfold IsNumber
  rcases hsign with rfl | rfl
  · rw [List.nil_append, readNumber_plain (hwhole.head?_ne _), hread]
    rfl
  · rw [List.singleton_append, readNumber_minus, hread]
    rfl

theorem isWhole_ofNat (n : Nat) : IsWhole (Text.ofNat n) := by
  obtain ⟨hall, -, d, ds, hcons, hzero⟩ := Text.ofNat_spec n
  refine ⟨⟨by rw [hcons]; exact List.cons_ne_nil _ _, hall⟩, fun t ht => ?_⟩
  rw [hcons] at ht
  obtain ⟨rfl, rfl⟩ := List.cons.inj ht
  exact hzero rfl

theorem isNumber_ofInt (n : Int) : IsNumber (Text.ofInt n) := by
  cases n with
  | ofNat m =>
    have hnumber := isNumber_parts (.inl rfl) (isWhole_ofNat m) (.inl rfl) (.inl rfl)
    simp only [List.nil_append, List.append_nil] at hnumber
    exact hnumber
  | negSucc m =>
    have hnumber := isNumber_parts (.inr rfl) (isWhole_ofNat (m + 1)) (.inl rfl) (.inl rfl)
    simp only [List.append_nil] at hnumber
    exact hnumber

/-! ## Whole numbers -/

theorem head?_ofNat_ne (n : Nat) : (Text.ofNat n).head? ≠ some 45 := by
  have hne := (isWhole_ofNat n).head?_ne []
  rwa [List.append_nil] at hne

/-- A number of 64 bits can be read from its digits. -/
theorem int?_int {n : Int} (hlow : -(2 ^ 63) ≤ n) (hhigh : n < 2 ^ 63) : int? (int n) = some n := by
  have hrange : (decide (-(Nat.pow 2 63 : Int) ≤ n) && decide (n < (Nat.pow 2 63 : Int))) = true := by
    simpa using ⟨hlow, hhigh⟩
  unfold int int?
  cases n with
  | ofNat m =>
    have hsign : Text.dropPrefix? "-" (Text.ofNat m) = none := by
      rw [Option.eq_none_iff_forall_ne_some]
      intro u hu
      exact head?_ofNat_ne m (List.head?_eq_some_iff.2 ⟨u, Text.dropPrefix?_eq_some.1 hu⟩)
    have hhead : ((Text.ofNat m).head? == some 45) = false := beq_eq_false_iff_ne.2 (head?_ofNat_ne m)
    simp only [Text.ofInt, Text.trimPrefix, hsign, Option.getD_none, Text.toNat?_ofNat, hhead,
      Bool.false_eq_true, if_false]
    exact Option.filter_eq_some_iff.2 ⟨rfl, hrange⟩
  | negSucc m =>
    have hsign : Text.dropPrefix? "-" (45 :: Text.ofNat (m + 1)) = some (Text.ofNat (m + 1)) :=
      Text.dropPrefix?_eq_some.2 rfl
    simp only [Text.ofInt, Text.trimPrefix, hsign, Option.getD_some, Text.toNat?_ofNat, List.head?_cons,
      beq_self_eq_true, if_true]
    exact Option.filter_eq_some_iff.2 ⟨rfl, hrange⟩

end Json

end DocAtlas

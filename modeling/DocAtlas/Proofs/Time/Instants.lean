/-
An instant that is written as a date, a time of day and a zone has nothing wrong with it when it is read.
-/
import DocAtlas.Time.Calendar
import DocAtlas.Time.Instant
import DocAtlas.Proofs.Json.Numbers

namespace DocAtlas

/-! ## Digits -/

namespace Text

theorem paddedDigits_four {n : Nat} (h : n < 10000) :
    paddedDigits 10 4 n = [digitByte (n / 1000), digitByte (n / 100 % 10), digitByte (n / 10 % 10),
      digitByte (n % 10)] := by
  have hpad : ∀ k, paddedDigits 10 k n = List.replicate (k - (ofNat n).length) 48 ++ ofNat n := fun _ => rfl
  have hzero : (48 : UInt8) = digitByte 0 := rfl
  rw [hpad]
  rcases Nat.lt_or_ge n 10 with h1 | h1
  · rw [ofNat_eq, if_pos h1, hzero, show n / 1000 = 0 by omega, show n / 100 % 10 = 0 by omega,
      show n / 10 % 10 = 0 by omega, show n % 10 = n by omega]
    rfl
  · rcases Nat.lt_or_ge n 100 with h2 | h2
    · rw [ofNat_eq, if_neg (by omega), ofNat_eq, if_pos (by omega), hzero, show n / 1000 = 0 by omega,
        show n / 100 % 10 = 0 by omega, show n / 10 % 10 = n / 10 by omega]
      rfl
    · rcases Nat.lt_or_ge n 1000 with h3 | h3
      · rw [ofNat_eq, if_neg (by omega), ofNat_eq, if_neg (by omega), ofNat_eq, if_pos (by omega), hzero,
          show n / 1000 = 0 by omega, show n / 100 % 10 = n / 10 / 10 by omega]
        rfl
      · rw [ofNat_eq, if_neg (by omega), ofNat_eq, if_neg (by omega), ofNat_eq, if_neg (by omega), ofNat_eq,
          if_pos (by omega),
          show n / 1000 = n / 10 / 10 / 10 by omega, show n / 100 % 10 = n / 10 / 10 % 10 by omega]
        rfl

end Text

namespace Calendar

theorem pairText_eq {n : Nat} (h : n < 100) : pairText n = [Text.digitByte (n / 10), Text.digitByte (n % 10)] := by
  have hall : ∀ n < 100, pairText n = [Text.digitByte (n / 10), Text.digitByte (n % 10)] := by decide
  exact hall n h

end Calendar

namespace Instant

open Calendar (pairText)

/-- The parts an instant is written in. -/
structure Parts where
  year : Nat
  month : Nat
  day : Nat
  hour : Nat
  minute : Nat
  second : Nat
  /-- The digits of a fraction of a second; none if it is a whole second. -/
  fraction : Text
  /-- Whether the zone is east, and how many hours and minutes; none is the zone zero. -/
  zone : Option (Bool × Nat × Nat)

namespace Parts

def fractionText (p : Parts) : Text := if p.fraction.isEmpty then [] else "." ++ p.fraction

def zoneText (p : Parts) : Text :=
  match p.zone with
  | none => "Z"
  | some (east, h, m) => (if east then "+" else "-") ++ pairText h ++ ":" ++ pairText m

def text (p : Parts) : Text :=
  List.flatten [Text.paddedDigits 10 4 p.year, "-", pairText p.month, "-", pairText p.day, "T", pairText p.hour, ":",
    pairText p.minute, ":", pairText p.second, p.fractionText, p.zoneText]

/-- A date of the calendar in a year of four digits, a time of day, and a zone less than a day away. -/
structure IsValid (p : Parts) : Prop where
  year : p.year < 10000
  month : 1 ≤ p.month ∧ p.month ≤ 12
  day : 1 ≤ p.day ∧ p.day ≤ daysIn p.year p.month
  hour : p.hour < 24
  minute : p.minute < 60
  second : p.second < 60
  fraction : p.fraction.all Text.isDigit = true
  zone : ∀ z ∈ p.zone, z.2.1 < 24 ∧ z.2.2 < 60

end Parts

/-! ## Reading the parts -/

theorem year_append {n : Nat} (h : n < 10000) (t : Text) : year (Text.paddedDigits 10 4 n ++ t) = .ok (n, t) := by
  obtain ⟨ha, ha'⟩ := Text.digitByte_spec (show n / 1000 < 10 by omega)
  obtain ⟨hb, hb'⟩ := Text.digitByte_spec (show n / 100 % 10 < 10 by omega)
  obtain ⟨hc, hc'⟩ := Text.digitByte_spec (show n / 10 % 10 < 10 by omega)
  obtain ⟨hd, hd'⟩ := Text.digitByte_spec (show n % 10 < 10 by omega)
  have hvalue : ((n / 1000 * 10 + n / 100 % 10) * 10 + n / 10 % 10) * 10 + n % 10 = n := by omega
  rw [Text.paddedDigits_four h]
  simp [year, Text.toNat?, ha, hb, hc, hd, ha', hb', hc', hd', hvalue]

theorem pair_append {n : Nat} (h : n < 100) (due : Text) (single : Bool) (t : Text) :
    pair due single (pairText n ++ t) = .ok (n, t) := by
  obtain ⟨ha, ha'⟩ := Text.digitByte_spec (show n / 10 < 10 by omega)
  obtain ⟨hb, hb'⟩ := Text.digitByte_spec (show n % 10 < 10 by omega)
  rw [Calendar.pairText_eq h]
  simp only [List.cons_append, List.nil_append, pair, ha, hb, digitValue, ha', hb']
  simp
  omega

theorem expect_append (due t : Text) : expect due (due ++ t) = .ok t := by
  unfold expect
  rw [Text.dropPrefix?_eq_some.2 rfl]

theorem below_eq_ok {part : Text} {bound : Nat} {r : Nat × Text} (h : r.1 < bound) : below part bound r = .ok r :=
  if_pos h

/-- A fraction ends where the zone begins. -/
theorem afterFraction_append {p : Parts} (h : p.IsValid) :
    afterFraction (p.fractionText ++ p.zoneText) = p.zoneText := by
  have hzone : ∃ b t, p.zoneText = b :: t ∧ Text.isDigit b = false ∧ b ≠ 46 ∧ b ≠ 44 := by
    unfold Parts.zoneText
    split
    · exact ⟨90, [], rfl, rfl, by decide, by decide⟩
    · rename_i east h m _
      cases east
      · exact ⟨45, _, rfl, rfl, by decide, by decide⟩
      · exact ⟨43, _, rfl, rfl, by decide, by decide⟩
  obtain ⟨b, t, hzone, hdigit, hpoint, hcomma⟩ := hzone
  unfold Parts.fractionText
  cases hfraction : p.fraction with
  | nil =>
    rw [hzone]
    cases t with
    | nil => rfl
    | cons c t => simp [afterFraction, hpoint, hcomma]
  | cons d ds =>
    have hall := h.fraction
    rw [hfraction] at hall
    obtain ⟨hd, hds⟩ := List.forall_mem_cons.1 (List.all_eq_true.1 hall)
    change afterFraction (46 :: d :: (ds ++ p.zoneText)) = _
    rw [afterFraction, hd, List.dropWhile_append_of_pos hds, hzone, List.dropWhile_cons_of_neg (by simp [hdigit])]
    rfl

theorem afterOffset_signed {s h1 h2 m1 m2 : UInt8} (hs : s = 43 ∨ s = 45)
    (hdigits : [h1, h2, m1, m2].all Text.isDigit = true) (hhours : digitValue h1 * 10 + digitValue h2 ≤ 24)
    (hminutes : digitValue m1 * 10 + digitValue m2 ≤ 60) (rest : Text) :
    afterOffset (s :: h1 :: h2 :: 58 :: m1 :: m2 :: rest) = .ok rest := by
  have hutc : s ≠ 90 := by rcases hs with rfl | rfl <;> decide
  have hsign : (s == 43 || s == 45) = true := by rcases hs with rfl | rfl <;> rfl
  rw [afterOffset]
  · rw [if_neg (by rw [hdigits]; decide), if_neg (by omega), if_neg (by omega), if_pos hsign]
  · exact hutc

theorem afterOffset_zone {p : Parts} (h : p.IsValid) : afterOffset p.zoneText = .ok [] := by
  unfold Parts.zoneText
  split
  · rfl
  · rename_i east hours minutes hzone
    obtain ⟨hh, hm⟩ := h.zone _ hzone
    simp only at hh hm
    obtain ⟨ha, ha'⟩ := Text.digitByte_spec (show hours / 10 < 10 by omega)
    obtain ⟨hb, hb'⟩ := Text.digitByte_spec (show hours % 10 < 10 by omega)
    obtain ⟨hc, hc'⟩ := Text.digitByte_spec (show minutes / 10 < 10 by omega)
    obtain ⟨hd, hd'⟩ := Text.digitByte_spec (show minutes % 10 < 10 by omega)
    rw [Calendar.pairText_eq (n := hours) (by omega), Calendar.pairText_eq (n := minutes) (by omega)]
    have hsigned : ∀ s, s = 43 ∨ s = 45 →
      afterOffset (s :: Text.digitByte (hours / 10) :: Text.digitByte (hours % 10) :: 58 ::
        Text.digitByte (minutes / 10) :: Text.digitByte (minutes % 10) :: []) = .ok [] := fun s hs =>
      afterOffset_signed hs (by simp [ha, hb, hc, hd]) (by unfold digitValue; omega) (by unfold digitValue; omega) []
    cases east
    · exact hsigned 45 (.inr rfl)
    · exact hsigned 43 (.inl rfl)

theorem daysIn_lt (y m : Nat) : daysIn y m < 100 := by
  unfold daysIn
  split_ifs <;> decide

/-- Nothing is wrong with an instant that is written in parts. -/
theorem check_text {p : Parts} (h : p.IsValid) : check p.text = .ok () := by
  obtain ⟨hmonth, hmonth'⟩ := h.month
  obtain ⟨hday, hday'⟩ := h.day
  have hdays := daysIn_lt p.year p.month
  have hbind : ∀ {α β : Type} (x : α) (f : α → Except Complaint β), (Except.ok x >>= f) = f x := fun _ _ => rfl
  have hhour := h.hour
  have hminute := h.minute
  have hsecond := h.second
  unfold check Parts.text
  simp only [List.flatten_cons, List.flatten_nil, List.append_nil]
  rw [year_append h.year, hbind]
  simp only [expect_append, hbind]
  rw [pair_append (show p.month < 100 by omega), hbind, if_neg (show ¬(p.month = 0 ∨ 12 < p.month) by omega)]
  simp only [expect_append, hbind]
  rw [pair_append (show p.day < 100 by omega), hbind]
  simp only [expect_append, hbind]
  rw [pair_append (show p.hour < 100 by omega), hbind, below_eq_ok hhour, hbind]
  simp only [expect_append, hbind]
  rw [pair_append (show p.minute < 100 by omega), hbind, below_eq_ok hminute, hbind]
  simp only [expect_append, hbind]
  rw [pair_append (show p.second < 100 by omega), hbind, below_eq_ok hsecond, hbind]
  simp only
  rw [afterFraction_append h, afterOffset_zone h, hbind, if_neg (by decide),
    if_neg (show ¬(p.day = 0 ∨ daysIn p.year p.month < p.day) by omega)]
  rfl

/-! ## Bytes -/

/-- Whether a text is made of ASCII bytes. -/
def isAscii (t : Text) : Bool := t.all fun b => b < 0x80

theorem isAscii_append (t u : Text) : isAscii (t ++ u) = (isAscii t && isAscii u) := List.all_append

theorem isAscii_of_digits {t : Text} (h : t.all Text.isDigit = true) : isAscii t = true := by
  refine List.all_eq_true.2 fun b hb => ?_
  have hdigit := List.all_eq_true.1 h b hb
  simp only [Text.isDigit, Bool.and_eq_true, decide_eq_true_eq] at hdigit
  exact decide_eq_true (UInt8.lt_of_le_of_lt hdigit.2 (by decide))

theorem isAscii_pairText {n : Nat} (h : n < 100) : isAscii (pairText n) = true := by
  have hall : ∀ n < 100, isAscii (pairText n) = true := by decide
  exact hall n h

theorem isAscii_zone {p : Parts} (h : p.IsValid) : isAscii p.zoneText = true := by
  unfold Parts.zoneText
  split
  · rfl
  · rename_i east hours minutes hzone
    obtain ⟨hh, hm⟩ := h.zone _ hzone
    simp only at hh hm
    have hsign : isAscii (Text.ofString (if east then "+" else "-")) = true := by cases east <;> rfl
    rw [isAscii_append, isAscii_append, isAscii_append, hsign, isAscii_pairText (by omega), isAscii_pairText (by omega)]
    rfl

theorem isAscii_text {p : Parts} (h : p.IsValid) : isAscii p.text = true := by
  have hyear : isAscii (Text.paddedDigits 10 4 p.year) = true := by
    refine isAscii_of_digits (List.all_eq_true.2 fun b hb => ?_)
    rcases List.mem_append.1 hb with hb | hb
    · rw [List.eq_of_mem_replicate hb]
      rfl
    · exact (Text.ofNat_spec p.year).1 b hb
  have hfraction : isAscii p.fractionText = true := by
    unfold Parts.fractionText
    split
    · rfl
    · rw [isAscii_append, isAscii_of_digits h.fraction]
      rfl
  obtain ⟨hmonth, hmonth'⟩ := h.month
  obtain ⟨hday, hday'⟩ := h.day
  have hdays := daysIn_lt p.year p.month
  have hhour := h.hour
  have hminute := h.minute
  have hsecond := h.second
  have hdash : isAscii "-" = true := rfl
  have htime : isAscii "T" = true := rfl
  have hcolon : isAscii ":" = true := rfl
  unfold Parts.text
  simp only [List.flatten_cons, List.flatten_nil, List.append_nil, isAscii_append, hyear, hdash, htime, hcolon,
    isAscii_pairText (show p.month < 100 by omega), isAscii_pairText (show p.day < 100 by omega),
    isAscii_pairText (show p.hour < 100 by omega), isAscii_pairText (show p.minute < 100 by omega),
    isAscii_pairText (show p.second < 100 by omega), hfraction, isAscii_zone h, Bool.and_self]

theorem isUtf8_text {p : Parts} (h : p.IsValid) : p.text.isUtf8 = true :=
  Text.isUtf8_of_ascii fun b hb => of_decide_eq_true (List.all_eq_true.1 (isAscii_text h) b hb)

end Instant

end DocAtlas

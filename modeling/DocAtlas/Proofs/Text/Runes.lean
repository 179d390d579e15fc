/-
Runes and characters. A rune with a code point consists of the bytes that encode it, so a text is
determined by its characters, except where one of them is U+FFFD: that is the character of every stray
byte. A text that begins with the characters of another followed by a slash begins with the other text.
-/
import DocAtlas.Files.Glob
import DocAtlas.Proofs.Text.Pieces

namespace DocAtlas

namespace Rune

/-! ## Bytes of a sequence -/

theorem le_toNat_of_isTail {b : UInt8} (h : isTail b = true) : 0x80 ≤ b.toNat ∧ b.toNat ≤ 0xBF := by
  simpa [isTail, UInt8.le_iff_toNat_le] using h

theorem toNat_of_leadsThree {a b : UInt8} (h : leadsThree a b = true) :
    0xE0 ≤ a.toNat ∧ a.toNat ≤ 0xEF ∧ 0x80 ≤ b.toNat ∧ b.toNat ≤ 0xBF ∧ (a.toNat = 0xE0 → 0xA0 ≤ b.toNat) ∧
      (a.toNat = 0xED → b.toNat ≤ 0x9F) := by
  unfold leadsThree at h
  split at h
  · subst_vars
    simp [UInt8.le_iff_toNat_le] at h ⊢
    omega
  · rename_i hE0
    split at h
    · subst_vars
      simp [UInt8.le_iff_toNat_le] at h ⊢
      omega
    · rename_i hED
      rw [← UInt8.toNat_inj] at hE0 hED
      simp [UInt8.le_iff_toNat_le, isTail] at h hE0 hED ⊢
      omega

theorem toNat_of_leadsFour {a b : UInt8} (h : leadsFour a b = true) :
    0xF0 ≤ a.toNat ∧ a.toNat ≤ 0xF4 ∧ 0x80 ≤ b.toNat ∧ b.toNat ≤ 0xBF ∧ (a.toNat = 0xF0 → 0x90 ≤ b.toNat) ∧
      (a.toNat = 0xF4 → b.toNat ≤ 0x8F) := by
  unfold leadsFour at h
  split at h
  · subst_vars
    simp [UInt8.le_iff_toNat_le] at h ⊢
    omega
  · rename_i hF0
    split at h
    · subst_vars
      simp [UInt8.le_iff_toNat_le] at h ⊢
      omega
    · rename_i hF4
      rw [← UInt8.toNat_inj] at hF0 hF4
      simp [UInt8.le_iff_toNat_le, isTail] at h hF0 hF4 ⊢
      omega

/-! ## Forms of a sequence -/

variable {a b c d : UInt8}

/-- Two bytes that stand for a code point. -/
def IsPair (a b : UInt8) : Prop := ¬ a < 0x80 ∧ (0xC2 ≤ a && a ≤ 0xDF && isTail b) = true

/-- Three bytes that do, the first two of which do not. -/
def IsTriple (a b c : UInt8) : Prop :=
  ¬ a < 0x80 ∧ ¬ (0xC2 ≤ a && a ≤ 0xDF && isTail b) = true ∧ (leadsThree a b && isTail c) = true

/-- Four bytes that do, of which no fewer do. -/
def IsQuadruple (a b c d : UInt8) : Prop :=
  ¬ a < 0x80 ∧ ¬ (0xC2 ≤ a && a ≤ 0xDF && isTail b) = true ∧ ¬ (leadsThree a b && isTail c) = true ∧
    (leadsFour a b && isTail c && isTail d) = true

theorem read_ascii (h : a < 0x80) (u : Text) : read a u = ⟨some a.toNat, [a]⟩ := if_pos h

theorem read_pair (h : IsPair a b) (u : Text) :
    read a (b :: u) = ⟨some (a.toNat % 32 * 64 + tailBits b), [a, b]⟩ := by
  unfold read
  rw [if_neg h.1]
  split <;> rename_i heq <;> cases heq <;> exact if_pos h.2

theorem read_triple (h : IsTriple a b c) (u : Text) :
    read a (b :: c :: u) = ⟨some (a.toNat % 16 * 4096 + tailBits b * 64 + tailBits c), [a, b, c]⟩ := by
  unfold read
  rw [if_neg h.1]
  split <;> rename_i heq <;> cases heq <;> exact (if_neg h.2.1).trans (if_pos h.2.2)

theorem read_quadruple (h : IsQuadruple a b c d) (u : Text) :
    read a (b :: c :: d :: u) =
      ⟨some (a.toNat % 8 * 262144 + tailBits b * 4096 + tailBits c * 64 + tailBits d), [a, b, c, d]⟩ := by
  unfold read
  rw [if_neg h.1]
  exact (if_neg h.2.1).trans ((if_neg h.2.2.1).trans (if_pos h.2.2.2))

/-- The sequences that stand for code points. -/
theorem read_forms (a : UInt8) (t : Text) : (read a t).code = none ∨ a < 0x80 ∨ (∃ b u, t = b :: u ∧ IsPair a b) ∨
    (∃ b c u, t = b :: c :: u ∧ IsTriple a b c) ∨ ∃ b c d u, t = b :: c :: d :: u ∧ IsQuadruple a b c d := by
  by_cases ha : a < 0x80
  · exact .inr (.inl ha)
  unfold read
  rw [if_neg ha]
  split
  · rename_i b c d u
    by_cases hb : (0xC2 ≤ a && a ≤ 0xDF && isTail b) = true
    · exact .inr (.inr (.inl ⟨b, _, rfl, ha, hb⟩))
    by_cases hc : (leadsThree a b && isTail c) = true
    · exact .inr (.inr (.inr (.inl ⟨b, c, _, rfl, ha, hb, hc⟩)))
    by_cases hd : (leadsFour a b && isTail c && isTail d) = true
    · exact .inr (.inr (.inr (.inr ⟨b, c, d, u, rfl, ha, hb, hc, hd⟩)))
    · left
      rw [if_neg hb, if_neg hc, if_neg hd]
  · rename_i b c
    by_cases hb : (0xC2 ≤ a && a ≤ 0xDF && isTail b) = true
    · exact .inr (.inr (.inl ⟨b, _, rfl, ha, hb⟩))
    by_cases hc : (leadsThree a b && isTail c) = true
    · exact .inr (.inr (.inr (.inl ⟨b, c, _, rfl, ha, hb, hc⟩)))
    · left
      rw [if_neg hb, if_neg hc]
  · rename_i b
    by_cases hb : (0xC2 ≤ a && a ≤ 0xDF && isTail b) = true
    · exact .inr (.inr (.inl ⟨b, _, rfl, ha, hb⟩))
    · left
      rw [if_neg hb]
  · exact .inl rfl

/-- A sequence that stands for a code point is read as that, whatever follows it. -/
theorem read_bytes {a : UInt8} {t : Text} (h : (read a t).code.isSome = true) (u : Text) :
    ∃ rest, (read a t).bytes = a :: rest ∧ read a (rest ++ u) = read a t := by
  rcases read_forms a t with hnone | ha | ⟨b, v, rfl, hb⟩ | ⟨b, c, v, rfl, hc⟩ | ⟨b, c, d, v, rfl, hd⟩
  · rw [hnone] at h
    cases h
  · exact ⟨[], by rw [read_ascii ha], by rw [read_ascii ha, read_ascii ha]⟩
  · exact ⟨[b], by rw [read_pair hb], by rw [read_pair hb]; exact read_pair hb u⟩
  · exact ⟨[b, c], by rw [read_triple hc], by rw [read_triple hc]; exact read_triple hc u⟩
  · exact ⟨[b, c, d], by rw [read_quadruple hd], by rw [read_quadruple hd]; exact read_quadruple hd u⟩

/-! ## Code points -/

/-- A code point with the bytes that encode it. -/
structure Encodes (r : Rune) (n : Nat) : Prop where
  valid : n.isValidChar
  code : r.code = some n
  bytes : r.bytes = Text.ofCode n

theorem toNat_ofNat {n : Nat} (h : n.isValidChar) : (Char.ofNat n).val.toNat = n := by
  unfold Char.ofNat
  rw [dif_pos h]
  rfl

theorem eq_ofNat {a : UInt8} {n : Nat} (h : n = a.toNat) : a = UInt8.ofNat n := by
  rw [h, UInt8.ofNat_toNat]

theorem encodes_one (ha : a < 0x80) : Encodes ⟨some a.toNat, [a]⟩ a.toNat := by
  have hlt : a.toNat < 128 := UInt8.lt_iff_toNat_lt.1 ha
  have hvalid : a.toNat.isValidChar := .inl (by omega)
  refine ⟨hvalid, rfl, ?_⟩
  unfold Text.ofCode String.utf8EncodeChar
  simp only [toNat_ofNat hvalid]
  rw [if_pos (by omega), UInt8.ofNat_toNat]

theorem encodes_two (h : (0xC2 ≤ a && a ≤ 0xDF && isTail b) = true) :
    Encodes ⟨some (a.toNat % 32 * 64 + tailBits b), [a, b]⟩ (a.toNat % 32 * 64 + tailBits b) := by
  simp only [Bool.and_eq_true, decide_eq_true_eq, UInt8.le_iff_toNat_le] at h
  have ha : 0xC2 ≤ a.toNat ∧ a.toNat ≤ 0xDF := h.1
  have hb := le_toNat_of_isTail h.2
  have hvalid : (a.toNat % 32 * 64 + tailBits b).isValidChar := .inl (by unfold tailBits; omega)
  refine ⟨hvalid, rfl, ?_⟩
  unfold Text.ofCode String.utf8EncodeChar
  simp only [toNat_ofNat hvalid]
  unfold tailBits
  rw [if_neg (by omega), if_pos (by omega), ← eq_ofNat (a := a) (by omega), ← eq_ofNat (a := b) (by omega)]

theorem encodes_three (h : (leadsThree a b && isTail c) = true) :
    Encodes ⟨some (a.toNat % 16 * 4096 + tailBits b * 64 + tailBits c), [a, b, c]⟩
      (a.toNat % 16 * 4096 + tailBits b * 64 + tailBits c) := by
  rw [Bool.and_eq_true] at h
  have hab := toNat_of_leadsThree h.1
  have hc := le_toNat_of_isTail h.2
  have hvalid : (a.toNat % 16 * 4096 + tailBits b * 64 + tailBits c).isValidChar := by
    unfold tailBits Nat.isValidChar
    omega
  refine ⟨hvalid, rfl, ?_⟩
  unfold Text.ofCode String.utf8EncodeChar
  simp only [toNat_ofNat hvalid]
  unfold tailBits
  rw [if_neg (by omega), if_neg (by omega), if_pos (by omega), ← eq_ofNat (a := a) (by omega),
    ← eq_ofNat (a := b) (by omega), ← eq_ofNat (a := c) (by omega)]

theorem encodes_four (h : (leadsFour a b && isTail c && isTail d) = true) :
    Encodes ⟨some (a.toNat % 8 * 262144 + tailBits b * 4096 + tailBits c * 64 + tailBits d), [a, b, c, d]⟩
      (a.toNat % 8 * 262144 + tailBits b * 4096 + tailBits c * 64 + tailBits d) := by
  rw [Bool.and_eq_true, Bool.and_eq_true] at h
  have hab := toNat_of_leadsFour h.1.1
  have hc := le_toNat_of_isTail h.1.2
  have hd := le_toNat_of_isTail h.2
  have hvalid : (a.toNat % 8 * 262144 + tailBits b * 4096 + tailBits c * 64 + tailBits d).isValidChar := by
    unfold tailBits Nat.isValidChar
    omega
  refine ⟨hvalid, rfl, ?_⟩
  unfold Text.ofCode String.utf8EncodeChar
  simp only [toNat_ofNat hvalid]
  unfold tailBits
  rw [if_neg (by omega), if_neg (by omega), if_neg (by omega), ← eq_ofNat (a := a) (by omega),
    ← eq_ofNat (a := b) (by omega), ← eq_ofNat (a := c) (by omega), ← eq_ofNat (a := d) (by omega)]

/-- What is read as a rune: a stray byte, or a code point with its bytes. -/
theorem encodes_read (a : UInt8) (t : Text) : (read a t).code = none ∨ ∃ n, Encodes (read a t) n := by
  rcases read_forms a t with hnone | ha | ⟨b, u, rfl, hb⟩ | ⟨b, c, u, rfl, hc⟩ | ⟨b, c, d, u, rfl, hd⟩
  · exact .inl hnone
  · exact .inr ⟨_, read_ascii ha t ▸ encodes_one ha⟩
  · exact .inr ⟨_, read_pair hb u ▸ encodes_two hb.2⟩
  · exact .inr ⟨_, read_triple hc u ▸ encodes_three hc.2.2⟩
  · exact .inr ⟨_, read_quadruple hd u ▸ encodes_four hd.2.2.2⟩

/-! ## Characters -/

/-- The character of a rune. -/
def char (r : Rune) : Char := Char.ofNat (r.code.getD 0xFFFD)

/-- The character of stray bytes. -/
def stray : Char := Char.ofNat 0xFFFD

/-- A rune that was read is that of its character, unless this is the character of stray bytes. -/
theorem eq_of_char {a b : UInt8} {t u : Text} (h : (read a t).char = (read b u).char)
    (hstray : (read a t).char ≠ stray) :
    read a t = read b u := by
  have hcode : ∀ (a : UInt8) (t : Text), (read a t).char ≠ stray →
      ∃ n, Encodes (read a t) n ∧ n = (read a t).char.val.toNat := by
    intro a t hne
    rcases encodes_read a t with hnone | ⟨n, hn⟩
    · exact absurd (by rw [char, hnone]; rfl) hne
    · exact ⟨n, hn, by rw [char, hn.code, Option.getD_some, toNat_ofNat hn.valid]⟩
  obtain ⟨n, hn, hnchar⟩ := hcode a t hstray
  obtain ⟨m, hm, hmchar⟩ := hcode b u (h ▸ hstray)
  have hnm : n = m := by rw [hnchar, hmchar, h]
  calc read a t = ⟨(read a t).code, (read a t).bytes⟩ := rfl
    _ = ⟨(read b u).code, (read b u).bytes⟩ := by rw [hn.code, hn.bytes, hnm, ← hm.code, ← hm.bytes]
    _ = read b u := rfl

end Rune

namespace Text

theorem chars_eq (t : Text) : t.chars = t.runes.map Rune.char := rfl

theorem mem_runesAfter {r : Rune} : ∀ {t : Text} {skip : Nat}, r ∈ runesAfter skip t → ∃ a u, r = Rune.read a u
  | [], _, h => by cases h
  | x :: t, 0, h => by
    rcases List.mem_cons.1 h with rfl | h
    · exact ⟨x, t, rfl⟩
    · exact mem_runesAfter h
  | x :: t, skip + 1, h => by
    rw [runesAfter] at h
    exact mem_runesAfter h

/-- Runes that were read are those of their characters, if no stray byte is among these. -/
theorem eq_of_map_char {rs rs' : List Rune} (hrs : ∀ r ∈ rs, ∃ a u, r = Rune.read a u)
    (hrs' : ∀ r ∈ rs', ∃ a u, r = Rune.read a u) (hstray : Rune.stray ∉ rs.map Rune.char)
    (h : rs.map Rune.char = rs'.map Rune.char) : rs = rs' := by
  induction rs generalizing rs' with
  | nil => rw [List.map_nil, eq_comm, List.map_eq_nil_iff] at h; exact h.symm
  | cons r rs ih =>
    obtain ⟨r', rs', rfl⟩ : ∃ r' rest, rs' = r' :: rest := by
      cases rs' with
      | nil => cases h
      | cons r' rest => exact ⟨r', rest, rfl⟩
    obtain ⟨hr, hrest⟩ := List.cons.inj h
    obtain ⟨a, u, rfl⟩ := hrs r (List.mem_cons_self ..)
    obtain ⟨b, v, rfl⟩ := hrs' r' (List.mem_cons_self ..)
    rw [List.map_cons, List.mem_cons, not_or] at hstray
    rw [Rune.eq_of_char hr (Ne.symm hstray.1),
      ih (fun r hr => hrs r (List.mem_cons_of_mem _ hr)) (fun r hr => hrs' r (List.mem_cons_of_mem _ hr))
      hstray.2 hrest]

/-- Whether no character of a text is that of stray bytes. -/
def IsPlain (t : Text) : Prop := Rune.stray ∉ t.chars

/-- A plain text is determined by its characters. -/
theorem eq_of_chars {t u : Text} (ht : IsPlain t) (h : t.chars = u.chars) : t = u := by
  have hrunes : t.runes = u.runes := eq_of_map_char (fun _ => mem_runesAfter) (fun _ => mem_runesAfter) ht h
  rw [← ofRunes_runes t, hrunes, ofRunes_runes]

theorem chars_append {a : UInt8} (ha : a < 0x80) (t u : Text) :
    (t ++ a :: u).chars = t.chars ++ Char.ofNat a.toNat :: u.chars := by
  rw [chars_eq, runes_append ha, List.map_append, List.map_cons]
  rfl

/-- A text whose characters are those of a plain one, then that of an ASCII byte, then others, is the
plain one, the byte, and a rest. -/
theorem exists_eq_append_of_chars {t u : Text} (ht : IsPlain t) {a : UInt8} (ha : a < 0x80) {cs : List Char}
    (h : u.chars = t.chars ++ Char.ofNat a.toNat :: cs) : ∃ v, u = t ++ a :: v := by
  obtain ⟨rs, rest, hu, hrs, hrest⟩ := List.map_eq_append_iff.1 h
  obtain ⟨r, rest, rfl, hr, -⟩ := List.map_eq_cons_iff.1 hrest
  have hread : ∀ r ∈ u.runes, ∃ a u, r = Rune.read a u := fun _ => mem_runesAfter
  rw [hu] at hread
  have hbefore : t.runes = rs :=
    eq_of_map_char (fun _ => mem_runesAfter) (fun r hr => hread r (List.mem_append_left _ hr)) ht hrs.symm
  have hbyte : Rune.ascii a = r := by
    obtain ⟨b, v, rfl⟩ := hread r (List.mem_append_right _ (List.mem_cons_self ..))
    have hascii : Rune.read a [] = Rune.ascii a := if_pos ha
    rw [← hascii]
    refine Rune.eq_of_char (by rw [hascii]; exact hr.symm) ?_
    rw [hascii]
    intro heq
    have hnat := congrArg (fun c => c.val.toNat) heq
    have hlt : a.toNat < 128 := UInt8.lt_iff_toNat_lt.1 ha
    have hvalid : a.toNat.isValidChar := .inl (by omega)
    have hleft : (Rune.ascii a).char.val.toNat = a.toNat := Rune.toNat_ofNat hvalid
    have hright : Rune.stray.val.toNat = 0xFFFD := Rune.toNat_ofNat (by unfold Nat.isValidChar; omega)
    simp only [hleft, hright] at hnat
    omega
  refine ⟨ofRunes rest, ?_⟩
  calc u = ofRunes (rs ++ r :: rest) := by rw [← hu, ofRunes_runes]
    _ = ofRunes rs ++ (r.bytes ++ ofRunes rest) := by simp [ofRunes]
    _ = t ++ a :: ofRunes rest := by rw [← hbefore, ofRunes_runes, ← hbyte]; rfl

/-! ## Texts without stray bytes -/

theorem runesAfter_append_left (rest u : Text) : runesAfter rest.length (rest ++ u) = runes u := by
  induction rest with
  | nil => rfl
  | cons b rest ih => exact ih

/-- What stands for a code point adds one rune. -/
theorem runes_bytes {a : UInt8} {t : Text} (h : (Rune.read a t).code.isSome = true) (u : Text) :
    runes ((Rune.read a t).bytes ++ u) = Rune.read a t :: runes u := by
  obtain ⟨rest, hbytes, hread⟩ := Rune.read_bytes h u
  have hlength : (Rune.read a t).bytes.length - 1 = rest.length := by
    rw [hbytes]
    rfl
  have hrunes : runes (a :: (rest ++ u)) = Rune.read a (rest ++ u) ::
      runesAfter ((Rune.read a (rest ++ u)).bytes.length - 1) (rest ++ u) := rfl
  rw [hbytes, List.cons_append, hrunes, hread, hlength, runesAfter_append_left]

/-- The bytes of a rune, or those of U+FFFD for a stray byte. -/
def scrubbedRune (r : Rune) : Text := if r.code.isSome then r.bytes else ofCode 0xFFFD

theorem scrubbed_eq (t : Text) : t.scrubbed = t.runes.flatMap scrubbedRune := rfl

theorem runes_scrubbedRune {r : Rune} (hr : ∃ a t, r = Rune.read a t) (u : Text) :
    ∃ r', r'.code.isSome = true ∧ runes (scrubbedRune r ++ u) = r' :: runes u := by
  obtain ⟨a, t, rfl⟩ := hr
  unfold scrubbedRune
  split
  · rename_i h
    exact ⟨_, h, runes_bytes h u⟩
  · have hbytes : ofCode 0xFFFD = (Rune.read 0xEF [0xBF, 0xBD]).bytes := by decide
    have h : (Rune.read 0xEF [0xBF, 0xBD]).code.isSome = true := by decide
    rw [hbytes]
    exact ⟨_, h, runes_bytes h u⟩

/-- A text without its stray bytes is in UTF-8. -/
theorem isUtf8_scrubbed (t : Text) : t.scrubbed.isUtf8 = true := by
  have hall : ∀ rs : List Rune, (∀ r ∈ rs, ∃ a t, r = Rune.read a t) → isUtf8 (rs.flatMap scrubbedRune) = true := by
    intro rs hrs
    induction rs with
    | nil => rfl
    | cons r rs ih =>
      obtain ⟨hr, hrs⟩ := List.forall_mem_cons.1 hrs
      obtain ⟨r', hcode, hrunes⟩ := runes_scrubbedRune hr (rs.flatMap scrubbedRune)
      unfold isUtf8 at ih ⊢
      rw [List.flatMap_cons, hrunes, List.all_cons, hcode, ih hrs]
      rfl
  rw [scrubbed_eq]
  exact hall t.runes fun r hr => mem_runesAfter (show r ∈ runesAfter 0 t from hr)

end Text

end DocAtlas

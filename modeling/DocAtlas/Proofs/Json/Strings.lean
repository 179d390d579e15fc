/-
A string that is written is read back, with U+FFFD for stray bytes. Every rune of a text is written as units which
stand for its bytes: bytes as they are, one-letter escapes, or escaped codes. Codes are escaped below the space, for
what is special in web pages, for the two line separators and for stray bytes; none of them is a surrogate.
-/
import DocAtlas.Json.Reader
import DocAtlas.Json.Writer
import DocAtlas.Proofs.Text.Runes

namespace DocAtlas

/-! ## Runes -/

namespace Rune

/-- A rune that is no ASCII byte: its code and its bytes are beyond ASCII. The line separators are told from
the others. -/
structure IsWide (r : Rune) (n : Nat) : Prop where
  code : r.code = some n
  wide : 0x80 ≤ n
  bytes : ∀ b ∈ r.bytes, 0x80 ≤ b.toNat
  separator : n = 0x2028 ∨ n = 0x2029 → r.bytes = Text.ofCode n

variable {a b c d : UInt8}

theorem isWide_two (h : (0xC2 ≤ a && a ≤ 0xDF && isTail b) = true) :
    IsWide ⟨some (a.toNat % 32 * 64 + tailBits b), [a, b]⟩ (a.toNat % 32 * 64 + tailBits b) := by
  simp only [Bool.and_eq_true, decide_eq_true_eq, UInt8.le_iff_toNat_le] at h
  have ha : 0xC2 ≤ a.toNat ∧ a.toNat ≤ 0xDF := h.1
  have hb := le_toNat_of_isTail h.2
  unfold tailBits
  exact ⟨rfl, by omega, by simp; omega, by omega⟩

theorem isWide_three (h : (leadsThree a b && isTail c) = true) :
    IsWide ⟨some (a.toNat % 16 * 4096 + tailBits b * 64 + tailBits c), [a, b, c]⟩
      (a.toNat % 16 * 4096 + tailBits b * 64 + tailBits c) := by
  rw [Bool.and_eq_true] at h
  have hab := toNat_of_leadsThree h.1
  have hc := le_toNat_of_isTail h.2
  unfold tailBits
  refine ⟨rfl, by omega, by simp; omega, fun hn => ?_⟩
  -- the code determines the bytes
  have hbytes : a.toNat = 0xE2 ∧ b.toNat = 0x80 ∧ (c.toNat = 0xA8 ∨ c.toNat = 0xA9) := by omega
  obtain ⟨ha, hb, hc⟩ := hbytes
  obtain rfl : a = 0xE2 := UInt8.toNat_inj.1 ha
  obtain rfl : b = 0x80 := UInt8.toNat_inj.1 hb
  rcases hc with hc | hc
  · obtain rfl : c = 0xA8 := UInt8.toNat_inj.1 hc
    decide
  · obtain rfl : c = 0xA9 := UInt8.toNat_inj.1 hc
    decide

theorem isWide_four (h : (leadsFour a b && isTail c && isTail d) = true) :
    IsWide ⟨some (a.toNat % 8 * 262144 + tailBits b * 4096 + tailBits c * 64 + tailBits d), [a, b, c, d]⟩
      (a.toNat % 8 * 262144 + tailBits b * 4096 + tailBits c * 64 + tailBits d) := by
  rw [Bool.and_eq_true, Bool.and_eq_true] at h
  have hab := toNat_of_leadsFour h.1.1
  have hc := le_toNat_of_isTail h.1.2
  have hd := le_toNat_of_isTail h.2
  unfold tailBits
  exact ⟨rfl, by omega, by simp; omega, by omega⟩

/-- What is read as a rune: an ASCII byte, a stray byte or something wide. -/
theorem read_cases (a : UInt8) (t : Text) :
    a < 0x80 ∧ read a t = ascii a ∨ (read a t).code = none ∨ ∃ n, IsWide (read a t) n := by
  rcases read_forms a t with hnone | ha | ⟨b, u, rfl, hb⟩ | ⟨b, c, u, rfl, hc⟩ | ⟨b, c, d, u, rfl, hd⟩
  · exact .inr (.inl hnone)
  · exact .inl ⟨ha, read_ascii ha t⟩
  · exact .inr (.inr ⟨_, read_pair hb u ▸ isWide_two hb.2⟩)
  · exact .inr (.inr ⟨_, read_triple hc u ▸ isWide_three hc.2.2⟩)
  · exact .inr (.inr ⟨_, read_quadruple hd u ▸ isWide_four hd.2.2.2⟩)

end Rune

namespace Json

/-! ## Units -/

theorem readUnits_letter {c b : UInt8} (h : letterEscape? c = some b) (t : Text) :
    readUnits (92 :: c :: t) = (readUnits t).map fun p => (.byte b :: p.1, p.2) := by
  have hc : c ≠ 117 := by
    rintro rfl
    cases h
  rw [readUnits]
  · rw [h]
    cases readUnits t <;> rfl
  · exact fun _ _ _ _ _ h _ => hc h

theorem readUnits_code {a b c d : UInt8} {n : Nat} (h : hex4? a b c d = some n) (t : Text) :
    readUnits (92 :: 117 :: a :: b :: c :: d :: t) = (readUnits t).map fun p => (.unit n :: p.1, p.2) := by
  rw [readUnits, h]
  cases readUnits t <;> rfl

theorem readUnits_byte {b : UInt8} (hlow : ¬ b < 32) (hquote : b ≠ 34) (hescape : b ≠ 92) (t : Text) :
    readUnits (b :: t) = (readUnits t).map fun p => (.byte b :: p.1, p.2) := by
  rw [readUnits]
  · rw [if_neg (by simp [hlow, hescape])]
    cases readUnits t <;> rfl
  · exact hquote
  · exact fun _ _ _ _ _ h _ => hescape h
  · exact fun _ _ h _ => hescape h

/-! ## Runes as units -/

/-- What is written for a rune is read as units that stand for its bytes. -/
structure IsWritten (written bytes : Text) (us : List Unit16) : Prop where
  read : ∀ t, readUnits (written ++ t) = (readUnits t).map fun p => (us ++ p.1, p.2)
  join : ∀ more, joinUnits none (us ++ more) = bytes ++ joinUnits none more

theorem isWritten_bytes {bytes : Text} (h : ∀ b ∈ bytes, ¬ b < 32 ∧ b ≠ 34 ∧ b ≠ 92) :
    IsWritten bytes bytes (bytes.map .byte) := by
  induction bytes with
  | nil => exact ⟨fun t => by cases h : readUnits t <;> simp [h], fun more => rfl⟩
  | cons b bytes ih =>
    obtain ⟨⟨hlow, hquote, hescape⟩, h⟩ := List.forall_mem_cons.1 h
    obtain ⟨hread, hjoin⟩ := ih h
    constructor
    · intro t
      rw [List.cons_append, readUnits_byte hlow hquote hescape, hread]
      cases readUnits t <;> rfl
    · intro more
      rw [List.map_cons, List.cons_append, joinUnits, hjoin]
      rfl

theorem isWritten_letter {c b : UInt8} (h : letterEscape? c = some b) : IsWritten [92, c] [b] [.byte b] :=
  ⟨fun t => readUnits_letter h t, fun _ => rfl⟩

/-- A code that is no surrogate. -/
theorem isWritten_code {a b c d : UInt8} {n : Nat} (h : hex4? a b c d = some n) (hn : n < 0xD800 ∨ 0xDFFF < n) :
    IsWritten [92, 117, a, b, c, d] (Text.ofCode n) [.unit n] := by
  refine ⟨fun t => readUnits_code h t, fun more => ?_⟩
  have hlow : (decide (0xDC00 ≤ n) && decide (n ≤ 0xDFFF)) = false := by simp; omega
  have hhigh : (decide (0xD800 ≤ n) && decide (n ≤ 0xDBFF)) = false := by simp; omega
  rw [List.cons_append, joinUnits]
  simp only [hlow, hhigh, Bool.false_eq_true, if_false, List.nil_append]

/-- How an ASCII byte can be written. -/
def isAsciiWritten (a : UInt8) : Bool :=
  match escapedRune true (.ascii a) with
  | [b] => b == a && !(b < 32) && b != 34 && b != 92
  | [92, c] => letterEscape? c == some a
  | [92, 117, b, c, d, e] => hex4? b c d e == some a.toNat && Text.ofCode a.toNat == [a]
  | _ => false

theorem exists_isWritten_ascii {a : UInt8} (ha : a < 0x80) : ∃ us, IsWritten (escapedRune true (.ascii a)) [a] us := by
  have hall : ∀ n < 0x80, isAsciiWritten (UInt8.ofNat n) = true := by decide
  have h : isAsciiWritten a = true := by
    have := hall a.toNat (UInt8.lt_iff_toNat_lt.1 ha)
    rwa [UInt8.ofNat_toNat] at this
  unfold isAsciiWritten at h
  split at h
  · rename_i b hb
    simp only [Bool.and_eq_true, beq_iff_eq, Bool.not_eq_true', decide_eq_false_iff_not, bne_iff_ne] at h
    obtain ⟨⟨⟨rfl, hlow⟩, hquote⟩, hescape⟩ := h
    rw [hb]
    exact ⟨_, isWritten_bytes (List.forall_mem_singleton.2 ⟨hlow, hquote, hescape⟩)⟩
  · rename_i c hc
    rw [hc]
    exact ⟨_, isWritten_letter (by simpa using h)⟩
  · rename_i b c d e hcode
    simp only [Bool.and_eq_true, beq_iff_eq] at h
    rw [hcode, ← h.2]
    exact ⟨_, isWritten_code h.1 (.inl (by have := UInt8.lt_iff_toNat_lt.1 ha; simp at this; omega))⟩
  · cases h

theorem exists_isWritten_wide {r : Rune} {n : Nat} (h : r.IsWide n) :
    ∃ us, IsWritten (escapedRune true r) r.bytes us := by
  have hwide := h.wide
  by_cases hsep : n = 0x2028 ∨ n = 0x2029
  · rw [h.separator hsep]
    rcases hsep with rfl | rfl
    · have hescaped : escapedRune true r = codeEscape 0x2028 := by
        unfold escapedRune
        rw [h.code]
        rfl
      have hcode : codeEscape 0x2028 = [92, 117, 50, 48, 50, 56] := by decide
      rw [hescaped, hcode]
      exact ⟨_, isWritten_code (by decide) (.inl (by omega))⟩
    · have hescaped : escapedRune true r = codeEscape 0x2029 := by
        unfold escapedRune
        rw [h.code]
        rfl
      have hcode : codeEscape 0x2029 = [92, 117, 50, 48, 50, 57] := by decide
      rw [hescaped, hcode]
      exact ⟨_, isWritten_code (by decide) (.inl (by omega))⟩
  · rw [not_or] at hsep
    have hescaped : escapedRune true r = r.bytes := by
      have hne : ∀ k, k < 0x80 → (n == k) = false := fun k hk => beq_eq_false_iff_ne.2 (by omega)
      unfold escapedRune
      rw [h.code]
      simp [hne, hsep]
      omega
    rw [hescaped]
    refine ⟨_, isWritten_bytes fun b hb => ?_⟩
    have hbyte := h.bytes b hb
    refine ⟨fun hlow => ?_, ?_, ?_⟩
    · have := UInt8.lt_iff_toNat_lt.1 hlow
      simp at this
      omega
    · rintro rfl
      exact absurd hbyte (by decide)
    · rintro rfl
      exact absurd hbyte (by decide)

/-! ## Texts -/

theorem IsWritten.append {w w' bytes bytes' : Text} {us us' : List Unit16} (h : IsWritten w bytes us)
    (h' : IsWritten w' bytes' us') : IsWritten (w ++ w') (bytes ++ bytes') (us ++ us') where
  read t := by
    rw [List.append_assoc, h.read, h'.read]
    cases readUnits t <;> simp
  join more := by rw [List.append_assoc, h.join, h'.join, List.append_assoc]

/-- Every rune that was read is written so that it can be read again; a stray byte as U+FFFD. -/
theorem exists_isWritten_rune {r : Rune} (hr : ∃ a t, r = Rune.read a t) :
    ∃ us, IsWritten (escapedRune true r) (Text.scrubbedRune r) us := by
  obtain ⟨a, t, rfl⟩ := hr
  rcases Rune.read_cases a t with ⟨ha, hascii⟩ | hnone | ⟨n, hwide⟩
  · rw [hascii]
    exact exists_isWritten_ascii ha
  · have hwritten : escapedRune true (Rune.read a t) = [92, 117, 102, 102, 102, 100] := by
      unfold escapedRune
      rw [hnone]
      rfl
    have hbytes : Text.scrubbedRune (Rune.read a t) = Text.ofCode 0xFFFD := by
      unfold Text.scrubbedRune
      rw [hnone]
      rfl
    rw [hwritten, hbytes]
    exact ⟨_, isWritten_code (by decide) (.inr (by omega))⟩
  · have hbytes : Text.scrubbedRune (Rune.read a t) = (Rune.read a t).bytes := if_pos (by rw [hwide.code]; rfl)
    rw [hbytes]
    exact exists_isWritten_wide hwide

theorem exists_isWritten_runes {rs : List Rune} (h : ∀ r ∈ rs, ∃ a t, r = Rune.read a t) :
    ∃ us, IsWritten (rs.flatMap (escapedRune true)) (rs.flatMap Text.scrubbedRune) us := by
  induction rs with
  | nil => exact ⟨[], isWritten_bytes (List.forall_mem_nil _)⟩
  | cons r rs ih =>
    obtain ⟨hr, hrs⟩ := List.forall_mem_cons.1 h
    obtain ⟨us, hr⟩ := exists_isWritten_rune hr
    obtain ⟨us', hrs⟩ := ih hrs
    exact ⟨us ++ us', hr.append hrs⟩

theorem scrubbed_of_isUtf8 {t : Text} (h : t.isUtf8 = true) : t.scrubbed = t := by
  have hall := List.all_eq_true.1 h
  calc t.scrubbed = t.runes.flatMap Rune.bytes := List.flatMap_congr fun r hr => if_pos (hall r hr)
    _ = t := Text.ofRunes_runes t

/-- A string that is written is read back without its stray bytes, whatever follows. -/
theorem readString_quote (t rest : Text) :
    readString (t.runes.flatMap (escapedRune true) ++ 34 :: rest) = some (t.scrubbed, rest) := by
  obtain ⟨us, hread, hjoin⟩ := exists_isWritten_runes fun r (hr : r ∈ Text.runesAfter 0 t) => Text.mem_runesAfter hr
  have hend : readUnits (34 :: rest) = some ([], rest) := by rw [readUnits]
  have hunits : joinUnits none us = t.scrubbed := by
    have hjoined := hjoin []
    rwa [List.append_nil, joinUnits, List.append_nil] at hjoined
  unfold readString
  change (readUnits ((Text.runesAfter 0 t).flatMap (escapedRune true) ++ 34 :: rest)).bind _ = _
  rw [hread, hend]
  change some (Text.scrubbed (joinUnits none (us ++ [])), rest) = _
  rw [List.append_nil, hunits, scrubbed_of_isUtf8 (Text.isUtf8_scrubbed t)]

end Json

end DocAtlas

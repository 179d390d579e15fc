/-
Texts that trimming leaves as they are: the rune at either end is no white space. Two such texts with an
ASCII byte between them are again one, whatever byte it is, so a line of words is followed word by word.
-/
import DocAtlas.Proofs.Text.Pieces

namespace DocAtlas.Text

variable {s t u : Text} {a : UInt8}

/-- No rune of the text is white space. -/
def IsUnspaced (t : Text) : Prop := ∀ r ∈ t.runes, r.isBlank = false

/-- Neither the first rune nor the last is white space. -/
def IsTrimmed (t : Text) : Prop :=
  (∀ r ∈ t.runes.head?, r.isBlank = false) ∧ ∀ r ∈ t.runes.getLast?, r.isBlank = false

instance (t : Text) : Decidable (IsUnspaced t) := inferInstanceAs (Decidable (∀ _ ∈ _, _))

instance (t : Text) : Decidable (IsTrimmed t) := inferInstanceAs (Decidable (_ ∧ _))

/-! ## Trimming -/

theorem trimLeft_of_trimmed (h : IsTrimmed t) : trimLeft t = t := by
  have hdrop : t.runes.dropWhile Rune.isBlank = t.runes := by
    cases hr : t.runes with
    | nil => rfl
    | cons r rs => exact List.dropWhile_cons_of_neg (by simp [h.1 r (by simp [hr])])
  rw [trimLeft, hdrop, ofRunes_runes]

theorem trimRight_of_trimmed (h : IsTrimmed t) : trimRight t = t := by
  have hdrop : t.runes.reverse.dropWhile Rune.isBlank = t.runes.reverse := by
    cases hr : t.runes.reverse with
    | nil => rfl
    | cons r rs =>
      have hlast : t.runes.getLast? = some r := by rw [List.getLast?_eq_head?_reverse, hr]; rfl
      exact List.dropWhile_cons_of_neg (by simp [h.2 r hlast])
  rw [trimRight, hdrop, List.reverse_reverse, ofRunes_runes]

theorem trim_of_trimmed (h : IsTrimmed t) : trim t = t := by
  rw [trim, trimLeft_of_trimmed h, trimRight_of_trimmed h]

theorem trim_of_blanks (h : ∀ b ∈ t, IsBlankByte b) : trim t = [] := by
  have hleft := trimLeft_blanks h []
  rw [List.append_nil] at hleft
  rw [trim, hleft]
  rfl

/-! ## Texts put together -/

theorem runes_eq_nil : t.runes = [] ↔ t = [] := by
  constructor
  · intro h
    rw [← ofRunes_runes t, h]
    rfl
  · rintro rfl
    rfl

theorem IsTrimmed.append (ht : IsTrimmed t) (hu : IsTrimmed u) (ha : a < 0x80) (hne : t ≠ []) (hne' : u ≠ []) :
    IsTrimmed (t ++ a :: u) := by
  have ht' : t.runes ≠ [] := fun h => hne (runes_eq_nil.1 h)
  have hu' : u.runes ≠ [] := fun h => hne' (runes_eq_nil.1 h)
  refine ⟨?_, ?_⟩
  · rw [runes_append ha, List.head?_append_of_ne_nil _ ht']
    exact ht.1
  · rw [runes_append ha, List.getLast?_append_of_ne_nil _ (by simp), List.getLast?_cons_of_ne_nil hu']
    exact hu.2

theorem IsUnspaced.trimmed (h : IsUnspaced t) : IsTrimmed t :=
  ⟨fun r hr => h r (List.mem_of_mem_head? hr), fun r hr => h r (List.mem_of_mem_getLast? hr)⟩

theorem isUnspaced_append (ha : a < 0x80) :
    IsUnspaced (t ++ a :: u) ↔ IsUnspaced t ∧ (Rune.ascii a).isBlank = false ∧ IsUnspaced u := by
  unfold IsUnspaced
  rw [runes_append ha, List.forall_mem_append, List.forall_mem_cons]

theorem isUnspaced_cons (ha : a < 0x80) : IsUnspaced (a :: u) ↔ (Rune.ascii a).isBlank = false ∧ IsUnspaced u := by
  rw [← List.nil_append (a :: u), isUnspaced_append ha]
  exact and_iff_right fun r hr => by cases hr

/-- What follows ASCII bytes in such a text is one. -/
theorem IsUnspaced.of_append (hs : ∀ b ∈ s, b < 0x80) (h : IsUnspaced (s ++ t)) : IsUnspaced t := by
  induction s with
  | nil => exact h
  | cons b s ih =>
    obtain ⟨hb, hs⟩ := List.forall_mem_cons.1 hs
    exact ih hs ((isUnspaced_cons hb).1 h).2

theorem IsUnspaced.not_mem (h : IsUnspaced t) (ha : IsBlankByte a) : a ∉ t := by
  intro hmem
  obtain ⟨s, u, rfl⟩ := List.append_of_mem hmem
  have hsolid := ((isUnspaced_append ha.1).1 h).2.1
  rw [isBlank_of_blank ha] at hsolid
  cases hsolid

theorem isUnspaced_of_solid (h : ∀ b ∈ t, IsSolidByte b) : IsUnspaced t := by
  induction t with
  | nil => exact fun r hr => by cases hr
  | cons b t ih =>
    obtain ⟨hb, ht⟩ := List.forall_mem_cons.1 h
    exact (isUnspaced_cons hb.1).2 ⟨by simpa using isBlank_of_solid hb, ih ht⟩

end DocAtlas.Text

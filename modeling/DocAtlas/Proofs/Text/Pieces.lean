/-
A text in pieces: slices, lines, runes and white space. An ASCII byte is never part of a longer
sequence, so a text falls apart into runes on both sides of it independently; with this, trimming is
followed byte by byte where the text is ASCII, whatever stands in the rest.
-/
import DocAtlas.Text.Blank
import Mathlib.Tactic

namespace DocAtlas

/-- The rune of an ASCII byte. -/
def Rune.ascii (a : UInt8) : Rune := ⟨some a.toNat, [a]⟩

namespace Text

/-- The middle one of three pieces. -/
theorem slice_append (x m y : Text) : slice (x ++ m ++ y) x.length (x.length + m.length) = m := by
  unfold slice
  rw [← List.length_append, List.take_left, List.drop_left]

theorem le_length_of_slice {t u : Text} {a : Nat} (h : slice t a (a + u.length) = u) (hu : u ≠ []) :
    a + u.length ≤ t.length := by
  have hpos := List.length_pos_iff.2 hu
  have hlen := congrArg List.length h
  unfold slice at hlen
  rw [List.length_drop, List.length_take] at hlen
  omega

theorem dropPrefix?_eq_some {p t u : Text} : dropPrefix? p t = some u ↔ t = p ++ u := by
  induction p generalizing t with
  | nil => simp [dropPrefix?]
  | cons a p ih =>
    cases t with
    | nil => simp [dropPrefix?]
    | cons b t =>
      rw [dropPrefix?]
      split
      · rename_i h
        simp [ih, h]
      · rename_i h
        simp [Ne.symm h]

theorem dropPrefix?_eq_none {p t : Text} : dropPrefix? p t = none ↔ ¬ p <+: t := by
  rw [Option.eq_none_iff_forall_ne_some]
  constructor
  · rintro h ⟨u, rfl⟩
    exact h u (dropPrefix?_eq_some.2 rfl)
  · intro h u hu
    exact h ⟨u, (dropPrefix?_eq_some.1 hu).symm⟩

theorem trimPrefix_append (p t : Text) : trimPrefix p (p ++ t) = t := by
  rw [trimPrefix, dropPrefix?_eq_some.2 rfl, Option.getD_some]

theorem trimPrefix_of_not_prefix {p t : Text} (h : ¬ p <+: t) : trimPrefix p t = t := by
  rw [trimPrefix, dropPrefix?_eq_none.2 h, Option.getD_none]

/-! ## Runes -/

theorem isTail_of_ascii {a : UInt8} (ha : a < 0x80) : Rune.isTail a = false := by
  simp only [Rune.isTail, Bool.and_eq_false_iff, decide_eq_false_iff_not]
  exact .inl (UInt8.not_le.2 ha)

theorem leadsThree_of_ascii (x : UInt8) {a : UInt8} (ha : a < 0x80) : Rune.leadsThree x a = false := by
  have h1 : ¬ (0xA0 : UInt8) ≤ a := UInt8.not_le.2 (UInt8.lt_trans ha (by decide))
  have h2 : ¬ (0x80 : UInt8) ≤ a := UInt8.not_le.2 ha
  simp [Rune.leadsThree, isTail_of_ascii ha, h1, h2]

theorem leadsFour_of_ascii (x : UInt8) {a : UInt8} (ha : a < 0x80) : Rune.leadsFour x a = false := by
  have h1 : ¬ (0x90 : UInt8) ≤ a := UInt8.not_le.2 (UInt8.lt_trans ha (by decide))
  have h2 : ¬ (0x80 : UInt8) ≤ a := UInt8.not_le.2 ha
  simp [Rune.leadsFour, isTail_of_ascii ha, h1, h2]

/-- A sequence does not reach over an ASCII byte. -/
theorem read_append (x a : UInt8) (t u : Text) (ha : a < 0x80) : Rune.read x (t ++ a :: u) = Rune.read x t := by
  have h1 := isTail_of_ascii ha
  have h3 := leadsThree_of_ascii x ha
  have h4 := leadsFour_of_ascii x ha
  unfold Rune.read
  split
  · rfl
  · match t with
    | [] => match u with
      | [] => simp [h1]
      | [b] => simp [h1, h3]
      | b :: c :: u => simp [h1, h3, h4]
    | [b] => match u with
      | [] => simp [h1]
      | c :: u => simp [h1]
    | [b, c] => simp [h1]
    | b :: c :: d :: t => rfl

/-- A rune takes at least one byte, from the beginning of the text. -/
theorem read_takes (x : UInt8) (t : Text) : (Rune.read x t).bytes <+: x :: t ∧ 1 ≤ (Rune.read x t).bytes.length := by
  unfold Rune.read
  split
  · simp
  · split <;> (repeat' split) <;> simp

theorem runesAfter_append {a : UInt8} (ha : a < 0x80) (u : Text) : ∀ (t : Text) (skip : Nat), skip ≤ t.length →
    runesAfter skip (t ++ a :: u) = runesAfter skip t ++ Rune.ascii a :: runes u
  | [], skip, h => by
    rw [Nat.le_zero.1 h, List.nil_append, runesAfter]
    simp [Rune.read, ha, Rune.ascii, runes, runesAfter]
  | x :: t, 0, _ => by
    have hlen := (read_takes x t).1.length_le
    rw [List.length_cons] at hlen
    rw [List.cons_append, runesAfter, runesAfter, read_append x a t u ha, runesAfter_append ha u t _ (by omega)]
    rfl
  | x :: t, skip + 1, h => by
    rw [List.cons_append, runesAfter, runesAfter]
    exact runesAfter_append ha u t skip (by simpa using h)

/-- The runes around an ASCII byte. -/
theorem runes_append {a : UInt8} (ha : a < 0x80) (t u : Text) :
    runes (t ++ a :: u) = runes t ++ Rune.ascii a :: runes u := runesAfter_append ha u t 0 (Nat.zero_le _)

theorem runes_cons {a : UInt8} (ha : a < 0x80) (u : Text) : runes (a :: u) = Rune.ascii a :: runes u :=
  runes_append ha [] u

theorem ofRunes_runesAfter : ∀ (t : Text) (skip : Nat), ofRunes (runesAfter skip t) = t.drop skip
  | [], skip => by simp [runesAfter, ofRunes]
  | x :: t, 0 => by
    obtain ⟨⟨rest, hrest⟩, hpos⟩ := read_takes x t
    have hdrop : t.drop ((Rune.read x t).bytes.length - 1) = rest := by
      have := congrArg (List.drop (Rune.read x t).bytes.length) hrest
      rw [List.drop_left, ← Nat.sub_add_cancel hpos, List.drop_succ_cons] at this
      exact this.symm
    rw [runesAfter, ofRunes, List.flatMap_cons]
    change _ ++ ofRunes _ = _
    rw [ofRunes_runesAfter t, hdrop, hrest, List.drop_zero]
  | x :: t, skip + 1 => by
    rw [runesAfter]
    exact ofRunes_runesAfter t skip

/-- The runes' bytes make up the text. -/
theorem ofRunes_runes (t : Text) : ofRunes (runes t) = t := ofRunes_runesAfter t 0

/-- A text around an ASCII byte is in UTF-8 if its two parts are. -/
theorem isUtf8_append {a : UInt8} (ha : a < 0x80) (t u : Text) : isUtf8 (t ++ a :: u) = (isUtf8 t && isUtf8 u) := by
  unfold isUtf8
  rw [runes_append ha, List.all_append, List.all_cons]
  rfl

theorem isUtf8_of_ascii {t : Text} (h : ∀ a ∈ t, a < 0x80) : isUtf8 t = true := by
  induction t with
  | nil => rfl
  | cons a t ih =>
    obtain ⟨ha, ht⟩ := List.forall_mem_cons.1 h
    rw [← List.nil_append (a :: t), isUtf8_append ha, ih ht]
    rfl

/-! ## White space -/

/-- An ASCII byte that is white space. -/
def IsBlankByte (a : UInt8) : Prop := a < 0x80 ∧ Rune.isBlankCode a.toNat = true

/-- An ASCII byte that is no white space. -/
def IsSolidByte (a : UInt8) : Prop := a < 0x80 ∧ Rune.isBlankCode a.toNat = false

instance (a : UInt8) : Decidable (IsBlankByte a) := inferInstanceAs (Decidable (_ ∧ _))

instance (a : UInt8) : Decidable (IsSolidByte a) := inferInstanceAs (Decidable (_ ∧ _))

theorem isBlank_of_blank {a : UInt8} (ha : IsBlankByte a) : (Rune.ascii a).isBlank = true := ha.2

theorem isBlank_of_solid {a : UInt8} (ha : IsSolidByte a) : ¬ (Rune.ascii a).isBlank = true := by
  simpa [Rune.isBlank, Rune.ascii] using ha.2

theorem trimLeft_blank {a : UInt8} (ha : IsBlankByte a) (t : Text) : trimLeft (a :: t) = trimLeft t := by
  unfold trimLeft
  rw [runes_cons ha.1, List.dropWhile_cons_of_pos (isBlank_of_blank ha)]

theorem trimLeft_blanks {s : Text} (hs : ∀ a ∈ s, IsBlankByte a) (t : Text) : trimLeft (s ++ t) = trimLeft t := by
  induction s with
  | nil => rfl
  | cons a s ih =>
    rw [List.cons_append, trimLeft_blank (hs a (List.mem_cons_self ..))]
    exact ih fun b hb => hs b (List.mem_cons_of_mem _ hb)

theorem trimLeft_solid {a : UInt8} (ha : IsSolidByte a) (t : Text) : trimLeft (a :: t) = a :: t := by
  unfold trimLeft
  rw [runes_cons ha.1, List.dropWhile_cons_of_neg (isBlank_of_solid ha), ← runes_cons ha.1,
    ofRunes_runes]

theorem trimRight_nil : trimRight [] = [] := rfl

/-- Trimming at the end goes no further than a byte that is no white space. -/
theorem trimRight_solid {a : UInt8} (ha : IsSolidByte a) (t u : Text) :
    trimRight (t ++ a :: u) = t ++ a :: trimRight u := by
  have hdrop : ((runes u).reverse ++ Rune.ascii a :: (runes t).reverse).dropWhile Rune.isBlank =
      (runes u).reverse.dropWhile Rune.isBlank ++ Rune.ascii a :: (runes t).reverse := by
    rw [List.dropWhile_append]
    split
    · rename_i h
      rw [List.isEmpty_iff.1 h, List.dropWhile_cons_of_neg (isBlank_of_solid ha), List.nil_append]
    · rfl
  unfold trimRight
  rw [runes_append ha.1, List.reverse_append, List.reverse_cons, List.append_assoc, List.singleton_append, hdrop,
    List.reverse_append, List.reverse_cons, List.reverse_reverse, List.append_assoc, List.singleton_append]
  unfold ofRunes
  rw [List.flatMap_append, List.flatMap_cons]
  change ofRunes (runes t) ++ _ = _
  rw [ofRunes_runes]
  rfl

/-- What is left of a text that begins with a blank begins with it, or is nothing. -/
theorem trimRight_blank {a : UInt8} (ha : IsBlankByte a) (u : Text) :
    trimRight (a :: u) = [] ∨ ∃ w, trimRight (a :: u) = a :: w := by
  unfold trimRight
  rw [runes_cons ha.1, List.reverse_cons, List.dropWhile_append]
  split
  · left
    rw [List.dropWhile_cons_of_pos (isBlank_of_blank ha)]
    rfl
  · right
    rw [List.reverse_append, List.reverse_singleton, List.singleton_append]
    exact ⟨_, rfl⟩

/-! ## Parts and lines -/

section Parts

variable (sep : UInt8)

theorem splitOn_ne_nil : ∀ t : Text, splitOn sep t ≠ []
  | [] => by simp [splitOn]
  | c :: t => by
    rw [splitOn]
    split
    · simp
    · split <;> simp

theorem splitOn_cons_sep (t : Text) : splitOn sep (sep :: t) = [] :: splitOn sep t := by
  rw [splitOn]
  split
  · rename_i h; exact absurd h (splitOn_ne_nil _ _)
  · rename_i h; simp [h]

variable {sep}

theorem splitOn_cons {b : UInt8} (hb : b ≠ sep) (t : Text) :
    ∃ l ls, splitOn sep t = l :: ls ∧ splitOn sep (b :: t) = (b :: l) :: ls := by
  rw [splitOn]
  split
  · rename_i h; exact absurd h (splitOn_ne_nil _ _)
  · rename_i l ls h
    exact ⟨l, ls, h, by simp [hb]⟩

/-- A separator ends a part. -/
theorem splitOn_append (s t : Text) : splitOn sep (s ++ sep :: t) = splitOn sep s ++ splitOn sep t := by
  induction s with
  | nil => rw [List.nil_append, splitOn_cons_sep]; rfl
  | cons b s ih =>
    by_cases hb : b = sep
    · rw [hb, List.cons_append, splitOn_cons_sep, splitOn_cons_sep, ih, List.cons_append]
    · obtain ⟨l, ls, h1, h2⟩ := splitOn_cons hb (s ++ sep :: t)
      obtain ⟨l', ls', h1', h2'⟩ := splitOn_cons hb s
      rw [ih, h1'] at h1
      cases h1
      rw [List.cons_append, h2, h2']
      rfl

theorem splitOn_of_not_mem {t : Text} (h : sep ∉ t) : splitOn sep t = [t] := by
  induction t with
  | nil => rfl
  | cons b t ih =>
    rw [List.mem_cons, not_or] at h
    obtain ⟨hb, ht⟩ := h
    obtain ⟨l, ls, h1, h2⟩ := splitOn_cons (Ne.symm hb) t
    rw [ih ht] at h1
    cases h1
    exact h2

/-- Parts without a separator are those of the text they are joined to. -/
theorem splitOn_joinWith : ∀ {ps : List Text}, ps ≠ [] → (∀ p ∈ ps, sep ∉ p) → splitOn sep (joinWith [sep] ps) = ps
  | [], hne, _ => absurd rfl hne
  | [p], _, h => splitOn_of_not_mem (h p (List.mem_cons_self ..))
  | p :: q :: ps, _, h => by
    rw [joinWith, List.append_assoc, List.singleton_append, splitOn_append,
      splitOn_of_not_mem (h p (List.mem_cons_self ..)),
      splitOn_joinWith (by simp) fun r hr => h r (List.mem_cons_of_mem _ hr)]
    rfl

/-- No part holds a separator. -/
theorem not_mem_of_mem_splitOn {t p : Text} (h : p ∈ splitOn sep t) : sep ∉ p := by
  induction t generalizing p with
  | nil =>
    rw [splitOn, List.mem_singleton] at h
    simp [h]
  | cons b t ih =>
    by_cases hb : b = sep
    · rw [hb, splitOn_cons_sep] at h
      rcases List.mem_cons.1 h with rfl | h
      · simp
      · exact ih h
    · obtain ⟨l, ls, h1, h2⟩ := splitOn_cons hb t
      rw [h2] at h
      rw [h1] at ih
      rcases List.mem_cons.1 h with rfl | h
      · rw [List.mem_cons, not_or]
        exact ⟨Ne.symm hb, ih (List.mem_cons_self ..)⟩
      · exact ih (List.mem_cons_of_mem _ h)

end Parts

/-- Parts of which some and then some more are joined. -/
theorem joinWith_append {sep : UInt8} {ps qs : List Text} (hps : ps ≠ []) (hqs : qs ≠ []) :
    joinWith [sep] (ps ++ qs) = joinWith [sep] ps ++ sep :: joinWith [sep] qs := by
  induction ps with
  | nil => exact absurd rfl hps
  | cons p ps ih =>
    cases ps with
    | nil =>
      cases qs with
      | nil => exact absurd rfl hqs
      | cons q qs => simp [joinWith]
    | cons p' ps =>
      rw [List.cons_append, List.cons_append, joinWith, ← List.cons_append, ih (List.cons_ne_nil p' ps), joinWith]
      simp

theorem lines_cons_newline (t : Text) : lines (newline :: t) = [] :: lines t := splitOn_cons_sep newline t

theorem lines_cons {b : UInt8} (hb : b ≠ newline) (t : Text) :
    ∃ l ls, lines t = l :: ls ∧ lines (b :: t) = (b :: l) :: ls := splitOn_cons hb t

/-- A newline ends a line. -/
theorem lines_append (s t : Text) : lines (s ++ newline :: t) = lines s ++ lines t := splitOn_append s t

/-- The first line of a text goes up to its first newline. -/
theorem head?_lines (t : Text) : (lines t).head? = some (t.takeWhile (· ≠ newline)) := by
  induction t with
  | nil => rfl
  | cons b t ih =>
    by_cases hb : b = newline
    · rw [hb, lines_cons_newline]; simp
    · obtain ⟨l, ls, h1, h2⟩ := lines_cons hb t
      rw [h1, List.head?_cons] at ih
      cases ih
      rw [h2, List.takeWhile_cons_of_pos (by simpa using hb)]
      rfl

/-- A text is whole lines and the beginning of one. -/
theorem exists_lineStart (t : Text) :
    ∃ front left, t = front ++ left ∧ newline ∉ left ∧ ∀ b ∈ front.getLast?, b = newline := by
  induction t using List.reverseRecOn with
  | nil => exact ⟨[], [], rfl, List.not_mem_nil, fun b hb => by cases hb⟩
  | append_singleton t b ih =>
    by_cases hb : b = newline
    · refine ⟨t ++ [b], [], by simp, List.not_mem_nil, fun c hc => ?_⟩
      rw [List.getLast?_concat] at hc
      exact (Option.some.inj hc).symm.trans hb
    · obtain ⟨front, left, rfl, hleft, hfront⟩ := ih
      refine ⟨front, left ++ [b], by simp, fun hmem => ?_, hfront⟩
      rcases List.mem_append.1 hmem with hmem | hmem
      · exact hleft hmem
      · exact hb (List.mem_singleton.1 hmem).symm

end Text

end DocAtlas

/-
Where a comment ends. A block comment goes on to the first `*/`, so a documentation block is one
comment exactly if `*/` stands in it once, at its end. `closings` counts the places where it stands.
Nothing the block puts around the words it takes over can make a `*/` with them, and neither can
its indentation: the count is one for the end of the block and those of the words themselves.
-/
import DocAtlas.Doc.Block
import Mathlib.Tactic

namespace DocAtlas.Doc

/-- What ends a block comment. -/
def closer : Text := [42, 47]

/-- How often `closer` stands in a text. -/
def closings : Text → Nat
  | [] => 0
  | b :: t => (if b = 42 ∧ t.head? = some 47 then 1 else 0) + closings t

/-- A byte of an indentation. -/
def IsIndent (b : UInt8) : Prop := b = 32 ∨ b = 9

instance (b : UInt8) : Decidable (IsIndent b) := inferInstanceAs (Decidable (_ ∨ _))

/-! ## Counting -/

theorem closings_eq_zero_iff (t : Text) : closings t = 0 ↔ ¬ closer <:+: t := by
  induction t with
  | nil => simp [closings, closer]
  | cons b t ih =>
    have hhead : closer <+: b :: t ↔ b = 42 ∧ t.head? = some 47 := by
      cases t with
      | nil => simp [closer]
      | cons c t => simp [closer, List.cons_prefix_cons, eq_comm]
    rw [closings, List.infix_cons_iff, hhead]
    split
    · rename_i h; simp [h]
    · rename_i h; simp [h, ih]

/-- Two texts have the count of both unless the first ends and the second begins within a
`closer`. -/
theorem closings_append {s t : Text} (h : s.getLast? ≠ some 42 ∨ t.head? ≠ some 47) :
    closings (s ++ t) = closings s + closings t := by
  induction s with
  | nil => simp [closings]
  | cons b s ih =>
    cases s with
    | nil =>
      have hb : ¬ (b = 42 ∧ t.head? = some 47) := by
        rintro ⟨rfl, ht⟩
        rcases h with h | h
        · exact h rfl
        · exact h ht
      simp [closings, hb]
    | cons c s =>
      rw [List.getLast?_cons_cons] at h
      change (if b = 42 ∧ some c = some 47 then 1 else 0) + closings (c :: s ++ t) =
        (if b = 42 ∧ some c = some 47 then 1 else 0) + closings (c :: s) + closings t
      rw [ih h, Nat.add_assoc]

theorem closings_cons {b : UInt8} {t : Text} (hb : b ≠ 42) : closings (b :: t) = closings t := by
  rw [closings, if_neg (fun h => hb h.1), Nat.zero_add]

theorem closings_of_ne {s : Text} (h : ∀ b ∈ s, b ≠ 42) (t : Text) : closings (s ++ t) = closings t := by
  induction s with
  | nil => rfl
  | cons b s ih =>
    rw [List.cons_append, closings_cons (h b (List.mem_cons_self ..))]
    exact ih fun c hc => h c (List.mem_cons_of_mem _ hc)

/-- A fixed text before another counts on its own unless it ends in a star. -/
theorem closings_fixed {l : Text} (hl : l.getLast? ≠ some 42) (t : Text) :
    closings (l ++ t) = closings l + closings t := closings_append (.inl hl)

/-- A word before a fixed text counts on its own unless that begins with a slash. -/
theorem closings_word {l : Text} (hl : l ≠ []) (hh : l.head? ≠ some 47) (w t : Text) :
    closings (w ++ (l ++ t)) = closings w + closings (l ++ t) := by
  refine closings_append (.inr ?_)
  rwa [List.head?_append_of_ne_nil _ hl]

/-! ## Words in a block -/

/-- The line that says when a block was made. -/
def stampLine : Option Int → Text
  | some ms => Text.ofString " * @generated " ++ Text.ofInt ms ++ "\n"
  | none => []

/-- The lines of the props. -/
def propLines (param : Text) (props : List Text) : Text := props.flatMap fun p => paramLine "*" (param ++ "." ++ p)

/-- The line of the props that are not listed. -/
def restLine (param : Text) : Option Text → Text
  | some r => paramLine "Object" (param ++ "." ++ r)
  | none => []

/-- The name a block gives the parameter. -/
def Facts.shownParam (facts : Facts) : Text := if facts.param.isEmpty then unnamedParam else facts.param

/-- The parts of the parameter that have a line of their own. -/
def Facts.parts (facts : Facts) : List Text := plainProps facts.props ++ (restOf facts).toList

/-- The words a block takes over from the code. -/
def Facts.words (facts : Facts) : List Text :=
  facts.name.dropWhile (· == 95) :: facts.shownParam :: facts.parts

/-- A block line by line. -/
theorem render_eq (facts : Facts) (stamp : Option Int) :
    render facts stamp = Text.ofString "/**\n" ++ (stampLine stamp ++ (Text.ofString " * @component " ++
      (facts.name.dropWhile (· == 95) ++ (Text.ofString "\n *\n" ++ (Text.ofString " * @param \x7bObject\x7d " ++
        (facts.shownParam ++ (Text.ofString " Component props\n" ++
          (propLines facts.shownParam (plainProps facts.props) ++
          (restLine facts.shownParam (restOf facts) ++
            (Text.ofString " * @returns \x7bJSX.Element\x7d React component\n" ++ Text.ofString " */")))))))))) := by
  simp only [← List.append_assoc]
  rfl

theorem closings_paramLine (type path t : Text) :
    closings (paramLine type path ++ t) = closings type + closings path + closings t := by
  unfold paramLine
  simp only [List.append_assoc]
  rw [closings_fixed (by decide), closings_word (by decide) (by decide),
    closings_fixed (by decide), closings_word (by decide) (by decide),
    closings_fixed (by decide)]
  rw [show closings (Text.ofString " * @param \x7b") = 0 by decide,
    show closings (Text.ofString "\x7d ") = 0 by decide,
    show closings (Text.ofString " - [auto generate]\n") = 0 by decide]
  omega

theorem closings_path (param part : Text) :
    closings (param ++ Text.ofString "." ++ part) = closings param + closings part := by
  rw [List.append_assoc, closings_word (by decide) (by decide), closings_fixed (by decide)]
  rw [show closings (Text.ofString ".") = 0 by decide, Nat.zero_add]

/-- The lines of the plain props count with the parameter before each of them. -/
theorem closings_propLines (param : Text) (props : List Text) (t : Text) :
    closings (propLines param props ++ t) =
      (props.map fun p => closings param + closings p).sum + closings t := by
  unfold propLines
  induction props with
  | nil => simp
  | cons p props ih =>
    rw [List.flatMap_cons, List.append_assoc, closings_paramLine, ih, closings_path, List.map_cons, List.sum_cons]
    rw [show closings (Text.ofString "*") = 0 by decide]
    omega

theorem closings_restLine (param : Text) (rest : Option Text) (t : Text) :
    closings (restLine param rest ++ t) = (rest.toList.map fun p => closings param + closings p).sum + closings t := by
  cases rest with
  | none => simp [restLine]
  | some r =>
    rw [restLine, closings_paramLine, closings_path]
    rw [show closings (Text.ofString "Object") = 0 by decide]
    simp

theorem mem_ofNat {n : Nat} {b : UInt8} (h : b ∈ Text.ofNat n) : 48 ≤ b ∧ b ≤ 57 := by
  obtain ⟨c, hc, hb⟩ := List.mem_flatMap.1 h
  have hd := Nat.isDigit_of_mem_toDigits (by decide) (by decide) hc
  simp only [Char.isDigit, Bool.and_eq_true, decide_eq_true_eq] at hd
  have hlo : 48 ≤ c.val.toNat := hd.1
  have hhi : c.val.toNat ≤ 57 := hd.2
  unfold String.utf8EncodeChar at hb
  simp only at hb
  generalize c.val.toNat = v at hlo hhi hb
  have hv : v < UInt8.size := by unfold UInt8.size; omega
  rw [if_pos (by omega), List.mem_singleton] at hb
  rw [hb, UInt8.le_iff_toNat_le, UInt8.le_iff_toNat_le, UInt8.toNat_ofNat_of_lt' hv]
  exact ⟨hlo, hhi⟩

/-- A number is written with digits and a minus. -/
theorem mem_ofInt {i : Int} {b : UInt8} (h : b ∈ Text.ofInt i) : b = 45 ∨ (48 ≤ b ∧ b ≤ 57) := by
  cases i with
  | ofNat n => exact .inr (mem_ofNat h)
  | negSucc n =>
    rcases List.mem_cons.1 h with h | h
    · exact .inl h
    · exact .inr (mem_ofNat h)

theorem closings_stampLine (stamp : Option Int) (t : Text) :
    closings (stampLine stamp ++ t) = closings t := by
  cases stamp with
  | none => rfl
  | some ms =>
    simp only [stampLine, List.append_assoc]
    have hno : ∀ b ∈ Text.ofInt ms, b ≠ 42 := by
      rintro b hb rfl
      rcases mem_ofInt hb with h | ⟨h, -⟩ <;> exact absurd h (by decide)
    rw [closings_fixed (by decide), closings_of_ne hno, closings_fixed (by decide)]
    rw [show closings (Text.ofString " * @generated ") = 0 by decide,
      show closings (Text.ofString "\n") = 0 by decide]
    omega

/-- A block closes once, and once more for every time one of its words does. -/
theorem closings_render (facts : Facts) (stamp : Option Int) :
    closings (render facts stamp) = closings (facts.name.dropWhile (· == 95)) + closings facts.shownParam +
      (facts.parts.map fun p => closings facts.shownParam + closings p).sum + 1 := by
  rw [render_eq, closings_fixed (by decide), closings_stampLine, closings_fixed (by decide),
    closings_word (by decide) (by decide), closings_fixed (by decide),
    closings_fixed (by decide), closings_word (by decide) (by decide),
    closings_fixed (by decide), closings_propLines, closings_restLine, closings_fixed (by decide)]
  rw [show closings (Text.ofString "/**\n") = 0 by decide,
    show closings (Text.ofString " * @component ") = 0 by decide,
    show closings (Text.ofString "\n *\n") = 0 by decide,
    show closings (Text.ofString " * @param \x7bObject\x7d ") = 0 by decide,
    show closings (Text.ofString " Component props\n") = 0 by decide,
    show closings (Text.ofString " * @returns \x7bJSX.Element\x7d React component\n") = 0 by decide,
    show closings (Text.ofString " */") = 1 by decide]
  unfold Facts.parts
  rw [List.map_append, List.sum_append]
  omega

theorem closings_render_eq_one_iff (facts : Facts) (stamp : Option Int) :
    closings (render facts stamp) = 1 ↔ ∀ w ∈ facts.words, ¬ closer <:+: w := by
  have hparts : (facts.parts.map fun p => closings facts.shownParam + closings p).sum = 0 ↔
      ∀ p ∈ facts.parts, closings facts.shownParam = 0 ∧ closings p = 0 := by
    rw [List.sum_eq_zero_iff]
    simp
  simp only [← closings_eq_zero_iff, Facts.words, List.forall_mem_cons]
  rw [closings_render]
  constructor
  · intro h
    have hz := hparts.1 (by omega)
    exact ⟨by omega, by omega, fun p hp => (hz p hp).2⟩
  · rintro ⟨hn, hp, hw⟩
    have hz := hparts.2 fun p hp' => ⟨hp, hw p hp'⟩
    omega

/-! ## Indentation -/

theorem head?_indent (pad t : Text) : (indent pad t).head? = t.head? := by
  cases t with
  | nil => rfl
  | cons b t =>
    unfold indent Text.replaceByte
    rw [List.flatMap_cons]
    split
    · rename_i h; rw [h]; rfl
    · rfl

theorem indent_cons (pad t : Text) (b : UInt8) :
    indent pad (b :: t) = (if b = Text.newline then Text.newline :: pad else [b]) ++ indent pad t := by
  unfold indent Text.replaceByte
  rw [List.flatMap_cons]

theorem indent_append (pad s t : Text) : indent pad (s ++ t) = indent pad s ++ indent pad t := by
  unfold indent Text.replaceByte
  rw [List.flatMap_append]

theorem indent_of_ne {t : Text} (pad : Text) (h : ∀ b ∈ t, b ≠ Text.newline) : indent pad t = t := by
  induction t with
  | nil => rfl
  | cons b t ih =>
    rw [indent_cons, if_neg (h b (List.mem_cons_self ..)), ih fun c hc => h c (List.mem_cons_of_mem _ hc)]
    rfl

/-- A fixed text without a newline stays as it is. -/
theorem indent_fixed {t : Text} (pad : Text) (h : t.all (· != Text.newline) = true) : indent pad t = t :=
  indent_of_ne pad fun b hb => by simpa using List.all_eq_true.1 h b hb

/-- Indenting a block neither makes a `closer` nor breaks one. -/
theorem closings_indent {pad : Text} (hpad : ∀ b ∈ pad, IsIndent b) (t : Text) :
    closings (indent pad t) = closings t := by
  have hstar : ∀ b ∈ Text.newline :: pad, b ≠ 42 := by
    intro b hb
    rcases List.mem_cons.1 hb with rfl | hb
    · decide
    · rcases hpad b hb with rfl | rfl <;> decide
  induction t with
  | nil => rfl
  | cons b t ih =>
    rw [indent_cons]
    split
    · rename_i h
      rw [closings_of_ne hstar, ih, h, closings_cons (by decide)]
    · rw [List.singleton_append, closings, closings, head?_indent, ih]

/-! ## One comment -/

/-- The text is one block comment, then a newline and an indentation. -/
structure OneComment (pad t : Text) : Prop where
  opens : Text.ofString "/**" <+: t
  closesOnce : closings t = 1
  ends : ∃ body, t = body ++ closer ++ Text.newline :: pad
  blank : ∀ b ∈ pad, IsIndent b

theorem opens_indent_render (pad : Text) (facts : Facts) (stamp : Option Int) :
    Text.ofString "/**" <+: indent pad (render facts stamp) := by
  rw [render_eq, show Text.ofString "/**\n" = Text.ofString "/**" ++ [Text.newline] by decide,
    List.append_assoc, indent_append, indent_fixed pad (by decide)]
  exact List.prefix_append _ _

theorem ends_indent_render (pad : Text) (facts : Facts) (stamp : Option Int) :
    ∃ body, indent pad (render facts stamp) = body ++ closer := by
  rw [render_eq, show Text.ofString " */" = [32] ++ closer by decide]
  simp only [← List.append_assoc]
  rw [indent_append, indent_fixed pad (show closer.all (· != Text.newline) = true by decide)]
  exact ⟨_, rfl⟩

/-- An indented block is one comment exactly if no word it takes over can end a comment. -/
theorem oneComment_iff {pad : Text} (hpad : ∀ b ∈ pad, IsIndent b) (facts : Facts) (stamp : Option Int) :
    OneComment pad (indent pad (render facts stamp) ++ "\n" ++ pad) ↔ ∀ w ∈ facts.words, ¬ closer <:+: w := by
  have hcount : closings (indent pad (render facts stamp) ++ "\n" ++ pad) = closings (render facts stamp) := by
    have hstar : ∀ b ∈ pad, b ≠ 42 := by
      intro b hb
      rcases hpad b hb with rfl | rfl <;> decide
    have hzero : closings pad = 0 := by simpa [closings] using closings_of_ne hstar []
    rw [List.append_assoc, closings_word (by decide) (by decide), closings_fixed (by decide),
      closings_indent hpad, hzero]
    rw [show closings (Text.ofString "\n") = 0 by decide]
    omega
  rw [← closings_render_eq_one_iff facts stamp]
  constructor
  · intro h
    rw [← hcount]
    exact h.closesOnce
  · intro h
    obtain ⟨body, hbody⟩ := ends_indent_render pad facts stamp
    refine ⟨?_, hcount.trans h, ⟨body, ?_⟩, hpad⟩
    · rw [List.append_assoc]
      exact (opens_indent_render pad facts stamp).trans (List.prefix_append _ _)
    · rw [hbody, List.append_assoc]
      rfl

end DocAtlas.Doc

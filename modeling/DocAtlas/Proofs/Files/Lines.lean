/-
The lines of a range. Fetching counts line ends byte by byte; what it returns is said here by the lines of
the content, of which there is one more than there are line ends. A range that reaches the last line loses
a line end after it, which is there if lines before it are empty.
-/
import DocAtlas.Files.FileCache
import DocAtlas.Proofs.Text.Pieces

namespace DocAtlas

namespace Text

/-- The lines from `first` to `last`, counted from one, as far as there are lines; none if there is no line `first`. -/
def lineRange (t : Text) (first last : Nat) : Option Text :=
  if (lines t).length < first then none
  else if last < (lines t).length then some (joinWith [newline] (((lines t).take last).drop (first - 1)))
  else some (trimSuffix "\n" (joinWith [newline] ((lines t).drop (first - 1))))

theorem lines_ne_nil (t : Text) : lines t ≠ [] := splitOn_ne_nil _ t

theorem length_lines_pos (t : Text) : 0 < (lines t).length := List.length_pos_iff.2 (lines_ne_nil t)

theorem joinWith_nil_cons {sep : Text} {ls : List Text} (hne : ls ≠ []) :
    joinWith sep ([] :: ls) = sep ++ joinWith sep ls := by
  obtain ⟨l, ls, rfl⟩ := List.exists_cons_of_ne_nil hne
  rfl

theorem joinWith_cons_cons (sep : Text) (b : UInt8) (l : Text) (ls : List Text) :
    joinWith sep ((b :: l) :: ls) = b :: joinWith sep (l :: ls) := by
  cases ls <;> rfl

theorem joinWith_lines (t : Text) : joinWith [newline] (lines t) = t := by
  induction t with
  | nil => rfl
  | cons b t ih =>
    by_cases hb : b = newline
    · rw [hb, lines_cons_newline, joinWith_nil_cons (lines_ne_nil t), ih]
      rfl
    · obtain ⟨l, ls, hls, hcons⟩ := lines_cons hb t
      rw [hcons, joinWith_cons_cons, ← hls, ih]

theorem lines_joinWith {ls : List Text} (hne : ls ≠ []) (h : ∀ l ∈ ls, newline ∉ l) :
    lines (joinWith [newline] ls) = ls :=
  splitOn_joinWith hne h

/-- After some lines stand the lines that follow them. -/
theorem afterLines_eq (n : Nat) (t : Text) :
    afterLines n t = if n < (lines t).length then some (joinWith [newline] ((lines t).drop n)) else none := by
  induction t generalizing n with
  | nil =>
    cases n with
    | zero => rfl
    | succ n => simp [afterLines, lines, splitOn]
  | cons b t ih =>
    cases n with
    | zero =>
      rw [afterLines, if_pos (length_lines_pos _), List.drop_zero, joinWith_lines]
    | succ n =>
      rw [afterLines]
      by_cases hb : b = newline
      · rw [if_pos hb, ih, hb, lines_cons_newline]
        simp
      · obtain ⟨l, ls, hls, hcons⟩ := lines_cons hb t
        rw [if_neg hb, ih, hls, hcons]
        simp

/-- The first lines, of which at least one is asked for. -/
theorem firstLines_eq {n : Nat} (hn : 0 < n) (t : Text) :
    firstLines n t = if n < (lines t).length then some (joinWith [newline] ((lines t).take n)) else none := by
  induction t generalizing n with
  | nil =>
    obtain ⟨n, rfl⟩ := Nat.exists_eq_add_one_of_ne_zero hn.ne'
    simp [firstLines, lines, splitOn]
  | cons b t ih =>
    have hcount : n = 1 ∨ ∃ m, n = m + 2 := by
      obtain ⟨m, rfl⟩ := Nat.exists_eq_add_one_of_ne_zero hn.ne'
      cases m with
      | zero => exact .inl rfl
      | succ m => exact .inr ⟨m, rfl⟩
    by_cases hb : b = newline
    · subst hb
      rw [lines_cons_newline]
      rcases hcount with rfl | ⟨n, rfl⟩
      · have := length_lines_pos t
        simp [firstLines, joinWith, this]
      · rw [firstLines, if_pos rfl, ih (Nat.succ_pos n), List.take_succ_cons, List.length_cons]
        by_cases h : n + 1 < (lines t).length
        · have hne : (lines t).take (n + 1) ≠ [] := by
            rw [Ne, List.take_eq_nil_iff, not_or]
            exact ⟨Nat.succ_ne_zero n, lines_ne_nil t⟩
          rw [if_pos h, if_pos (Nat.succ_lt_succ h), joinWith_nil_cons hne]
          rfl
        · rw [if_neg h, if_neg (mt Nat.lt_of_succ_lt_succ h)]
          rfl
    · obtain ⟨l, ls, hls, hcons⟩ := lines_cons hb t
      have hfirst : firstLines n (b :: t) = (firstLines n t).map (b :: ·) := by
        rcases hcount with rfl | ⟨n, rfl⟩
        · rw [firstLines, if_neg hb]
        · rw [firstLines, if_neg hb]
      obtain ⟨m, rfl⟩ := Nat.exists_eq_add_one_of_ne_zero hn.ne'
      rw [hfirst, ih hn, hls, hcons, List.take_succ_cons, List.take_succ_cons, joinWith_cons_cons, List.length_cons,
        List.length_cons]
      split <;> rfl

end Text

namespace FileCache

/-- Fetching lines gives the lines of the range. -/
theorem linesOf_eq (content path : Text) {first last : Nat} (hfirst : 1 ≤ first) (hlast : first ≤ last) :
    linesOf content path first last =
      match Text.lineRange content first last with
      | some t => .ok t
      | none => .error (.lineBeyond first path) := by
  obtain ⟨n, rfl⟩ := Nat.exists_eq_add_one_of_ne_zero (Nat.one_le_iff_ne_zero.1 hfirst)
  have hcount : 0 < last + 1 - (n + 1) := by omega
  unfold linesOf Text.lineRange
  rw [Nat.add_sub_cancel, Text.afterLines_eq]
  by_cases hn : n < (Text.lines content).length
  · rw [if_pos hn, if_neg (by omega)]
    have hne : (Text.lines content).drop n ≠ [] := by
      rw [Ne, List.drop_eq_nil_iff]
      omega
    have hlines : Text.lines (Text.joinWith [Text.newline] ((Text.lines content).drop n)) =
      (Text.lines content).drop n :=
      Text.lines_joinWith hne fun l hl => Text.not_mem_of_mem_splitOn (List.mem_of_mem_drop hl)
    simp only [Text.firstLines_eq hcount, hlines, List.length_drop]
    by_cases hlt : last < (Text.lines content).length
    · rw [if_pos (by omega), if_pos hlt, List.drop_take, Nat.add_sub_add_right]
      rfl
    · rw [if_neg (by omega), if_neg hlt]
      rfl
  · rw [if_neg hn, if_pos (by omega)]

/-- Fetching a range of lines fetches the file. -/
theorem fetchLines_of_range (c : FileCache) (d : Disk) (path : Text) {first last : Int} (hfirst : 1 ≤ first)
    (hlast : first ≤ last) :
    (c.fetchLines d path first last).cache = (c.fetch d path).cache ∧
      (c.fetchLines d path first last).result.toOption =
        (c.fetch d path).result.toOption.bind fun content => Text.lineRange content first.toNat last.toNat := by
  unfold fetchLines
  rw [if_neg (by omega)]
  refine ⟨rfl, ?_⟩
  simp only [fetchPart]
  cases (c.fetch d path).result with
  | error f => rfl
  | ok content =>
    change (linesOf content path first.toNat last.toNat).toOption = Text.lineRange content first.toNat last.toNat
    rw [linesOf_eq content path (by omega) (by omega)]
    cases Text.lineRange content first.toNat last.toNat <;> rfl

theorem fetchLines_of_noRange {c : FileCache} {d : Disk} {path : Text} {first last : Int}
    (h : first < 1 ∨ last < first) :
    c.fetchLines d path first last = ⟨.error (.lineRange first last), [], c⟩ := if_pos h

end FileCache

end DocAtlas

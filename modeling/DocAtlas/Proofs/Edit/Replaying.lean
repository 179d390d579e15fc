/-
A diff is a patch: its hunks, replayed on the lines before, give the lines after. A reader of a patch goes
by the numbers in the headers and the marks in the bodies alone, so `replayFrom` looks at nothing else, and
it refuses a hunk whose context is not where its header says.

The gathering cuts the aligned lines into gaps of kept lines and bodies around the added ones (`Laid`). With
the numbers the alignment gives to its lines this places every hunk in both texts (`Placed`), and everything
a patch has to satisfy is read off the places.
-/
import DocAtlas.Proofs.Edit.Surviving

namespace DocAtlas.Patch

/-! ## What a patch says -/

/-- The lines of the text before among aligned lines. -/
def oldTexts (ls : List Line) : List Text := (ls.filter fun l => !l.added).map Line.text

/-- The lines of the text after among aligned lines. -/
def newTexts (ls : List Line) : List Text := ls.map Line.text

namespace Hunk

/-- The lines of the body that are not marked as added. -/
def context (h : Hunk) : List Text := oldTexts h.lines

/-- The lines of the body. -/
def shown (h : Hunk) : List Text := newTexts h.lines

/-- The number of lines before the hunk in the text before. Lines count from one; a hunk without context
names the line it lands after. -/
def oldFrom (h : Hunk) : Nat := if h.oldLines = 0 then h.oldStart else h.oldStart - 1

/-- The number of lines before the hunk in the text after. -/
def newFrom (h : Hunk) : Nat := h.newStart - 1

end Hunk

/-- Replays hunks on the rest of a text of which `done` lines are gone: what is left before each hunk is
carried over, and its context gives way to its body. -/
def replayFrom (done : Nat) (old : List Text) : List Hunk → Option (List Text)
  | [] => some old
  | h :: hs =>
    let gap := h.oldFrom - done
    if done ≤ h.oldFrom ∧ gap ≤ old.length ∧ h.context.isPrefixOf (old.drop gap) ∧ h.oldLines = h.context.length then
      (replayFrom (h.oldFrom + h.oldLines) (old.drop (gap + h.oldLines)) hs).map fun rest =>
      old.take gap ++ h.shown ++ rest
    else none

/-- A run of lines with so many lines before it. -/
def IsRun (ls : List Text) (before : Nat) (run : List Text) : Prop :=
  ∃ first last, ls = first ++ run ++ last ∧ first.length = before

/-- The lines, numbered from `n`, that are in none of the runs, which are given by where they begin and how
many lines they have. -/
def outside (runs : List (Nat × Nat)) (n : Nat) (ls : List Text) : List Text :=
  ((ls.zipIdx n).filter fun (_, i) => !runs.any fun (start, count) => start ≤ i && i < start + count).map Prod.fst

/-- A patch that leads from the lines before to the lines after. -/
structure IsPatch (old new : List Text) (hs : List Hunk) : Prop where
  replays : replayFrom 0 old hs = some new
  /-- The hunks ascend and do not overlap, in either text. -/
  apart : hs.Pairwise fun h k => h.oldFrom + h.oldLines ≤ k.oldFrom ∧ h.newFrom + h.newLines ≤ k.newFrom
  /-- The header names the run of lines before that the body shows. -/
  oldRun : ∀ h ∈ hs, h.oldLines = h.context.length ∧ (0 < h.oldLines → 0 < h.oldStart) ∧ IsRun old h.oldFrom h.context
  /-- The header names the run of lines after that the body shows. -/
  newRun : ∀ h ∈ hs, h.newLines = h.shown.length ∧ 0 < h.newStart ∧ IsRun new h.newFrom h.shown
  /-- No number of a header is larger than the number of lines. -/
  fits : ∀ h ∈ hs, h.oldStart ≤ old.length ∧ h.oldLines ≤ old.length ∧ h.newStart ≤ new.length ∧ h.newLines ≤ new.length
  /-- The lines outside the hunks are carried over. -/
  carried : outside (hs.map fun h => (h.oldFrom, h.oldLines)) 0 old =
    outside (hs.map fun h => (h.newFrom, h.newLines)) 0 new
  /-- Every added line is in one hunk and in no other. -/
  gathered : ∀ ls, align? old new = some ls → ∀ l ∈ ls, l.added = true →
    ∃ first h last, hs = first ++ h :: last ∧ l ∈ h.lines ∧ ∀ k ∈ first ++ last, l ∉ k.lines

/-- The text of a patch: the names of the file, then hunk by hunk. -/
def printed (path : Text) : List Hunk → Text
  | [] => []
  | h :: hs => "--- a/" ++ path ++ "\n+++ b/" ++ path ++ "\n" ++ (h :: hs).flatMap Hunk.render

/-! ## Aligned lines -/

/-- The lines have their numbers: `i` is that of the next line before, `j` that of the next line after. -/
def Numbered : (i j : Nat) → List Line → Prop
  | _, _, [] => True
  | i, j, l :: ls => l.new = j ∧ if l.added then Numbered i (j + 1) ls else l.old = i ∧ Numbered (i + 1) (j + 1) ls

theorem oldTexts_append (ls ls' : List Line) : oldTexts (ls ++ ls') = oldTexts ls ++ oldTexts ls' := by
  simp [oldTexts]

theorem newTexts_append (ls ls' : List Line) : newTexts (ls ++ ls') = newTexts ls ++ newTexts ls' := List.map_append

theorem oldTexts_cons (l : Line) (ls : List Line) :
    oldTexts (l :: ls) = if l.added then oldTexts ls else l.text :: oldTexts ls := by
  cases h : l.added <;> simp [oldTexts, h]

/-- Kept lines are lines of both texts. -/
theorem oldTexts_of_kept {ls : List Line} (h : ∀ l ∈ ls, l.added = false) : oldTexts ls = newTexts ls := by
  unfold oldTexts newTexts
  rw [List.filter_eq_self.2 fun l hl => by simp [h l hl]]

theorem length_newTexts (ls : List Line) : (newTexts ls).length = ls.length := List.length_map ..

theorem length_oldTexts_of_kept {ls : List Line} (h : ∀ l ∈ ls, l.added = false) :
    (oldTexts ls).length = ls.length := by
  rw [oldTexts_of_kept h, length_newTexts]

theorem oldTexts_ne_nil {ls : List Line} {l : Line} (hl : l ∈ ls) (hadded : l.added = false) : oldTexts ls ≠ [] := by
  have hmem : l ∈ ls.filter fun l => !l.added := List.mem_filter.2 ⟨hl, by simp [hadded]⟩
  simpa [oldTexts] using List.ne_nil_of_mem hmem

theorem alignFrom_spec {old new : List Text} {i j : Nat} {ls : List Line} (h : alignFrom i j old new = some ls) :
    Numbered i j ls ∧ oldTexts ls = old ∧ newTexts ls = new := by
  induction new generalizing i j old ls with
  | nil =>
    cases old with
    | nil =>
      cases h
      exact ⟨trivial, rfl, rfl⟩
    | cons o old => cases h
  | cons line rest ih =>
    have hadded : ∀ {old : List Text}, (alignFrom i (j + 1) old rest).map (⟨true, line, 0, j⟩ :: ·) = some ls →
        Numbered i j ls ∧ oldTexts ls = old ∧ newTexts ls = line :: rest := by
      intro old h
      obtain ⟨ls, hls, rfl⟩ := Option.map_eq_some_iff.1 h
      obtain ⟨hnumbers, hold, hnew⟩ := ih hls
      exact ⟨⟨rfl, hnumbers⟩, hold, congrArg (line :: ·) hnew⟩
    cases old with
    | nil => exact hadded h
    | cons o old =>
      rw [alignFrom] at h
      split at h
      · rename_i hline
        obtain ⟨ls, hls, rfl⟩ := Option.map_eq_some_iff.1 h
        obtain ⟨hnumbers, hold, hnew⟩ := ih hls
        refine ⟨⟨rfl, rfl, hnumbers⟩, ?_, congrArg (line :: ·) hnew⟩
        rw [oldTexts_cons, hold, hline.1]
        rfl
      · exact hadded h

theorem numbered_append {i j : Nat} {ls ls' : List Line} :
    Numbered i j (ls ++ ls') ↔ Numbered i j ls ∧ Numbered (i + (oldTexts ls).length) (j + ls.length) ls' := by
  induction ls generalizing i j with
  | nil => simp [Numbered, oldTexts]
  | cons l ls ih =>
    rw [List.cons_append, Numbered, Numbered, oldTexts_cons]
    by_cases hadded : l.added = true
    · rw [if_pos hadded, if_pos hadded, if_pos hadded, ih, List.length_cons, Nat.add_right_comm j,
        ← Nat.add_assoc j, and_assoc]
    · rw [if_neg hadded, if_neg hadded, if_neg hadded, ih, List.length_cons, List.length_cons]
      rw [show i + ((oldTexts ls).length + 1) = i + 1 + (oldTexts ls).length by omega,
        show j + (ls.length + 1) = j + 1 + ls.length by omega]
      simp only [and_assoc]

theorem le_new_of_numbered {i j : Nat} {ls : List Line} (h : Numbered i j ls) : ∀ l ∈ ls, j ≤ l.new := by
  induction ls generalizing i j with
  | nil => simp
  | cons l ls ih =>
    obtain ⟨hnew, hrest⟩ := h
    refine List.forall_mem_cons.2 ⟨hnew.ge, fun m hm => ?_⟩
    split at hrest
    · exact Nat.le_of_succ_le (ih hrest m hm)
    · exact Nat.le_of_succ_le (ih hrest.2 m hm)

/-- Lines are told apart by their numbers. -/
theorem disjoint_of_numbered {i j : Nat} {ls ls' : List Line} (h : Numbered i j (ls ++ ls')) : ∀ l ∈ ls, l ∉ ls' := by
  induction ls generalizing i j with
  | nil => simp
  | cons l ls ih =>
    obtain ⟨hnew, hrest⟩ := h
    have hnext : ∃ i', Numbered i' (j + 1) (ls ++ ls') := by
      split at hrest
      · exact ⟨_, hrest⟩
      · exact ⟨_, hrest.2⟩
    obtain ⟨i', hnext⟩ := hnext
    refine List.forall_mem_cons.2 ⟨fun hl => ?_, ih hnext⟩
    have := le_new_of_numbered hnext l (List.mem_append_right _ hl)
    omega

/-! ## Gathering -/

/-- The lines after those passed fall into gaps of kept lines and the bodies of hunks. A body without a kept
line has none before it that is added. -/
inductive Laid : (passed ls : List Line) → List (List Line) → Prop
  | done {passed ls : List Line} : (∀ l ∈ ls, l.added = false) → Laid passed ls []
  | hunk {passed gap body rest : List Line} {bodies : List (List Line)} : (∀ l ∈ gap, l.added = false) → body ≠ [] →
    ((∃ l ∈ body, l.added = false) ∨ ∀ l ∈ passed ++ gap, l.added = false) → Laid (passed ++ gap ++ body) rest bodies →
    Laid passed (gap ++ body ++ rest) (body :: bodies)

theorem reverse_split (n : Nat) (pending : List Line) :
    pending.reverse = (pending.drop n).reverse ++ (pending.take n).reverse := by
  rw [← List.reverse_append, List.take_append_drop]

/-- Lines that are too many to join two hunks: those that end the one, a gap, and those that begin the other. -/
theorem reverse_far {pending : List Line} (h : 2 * contextLines < pending.length) :
    pending.reverse = pending.reverse.take contextLines ++ (pending.drop contextLines).reverse.drop contextLines ++
      (pending.take contextLines).reverse := by
  have hlength : contextLines ≤ (pending.drop contextLines).reverse.length := by
    rw [List.length_reverse, List.length_drop]
    omega
  have htake : pending.reverse.take contextLines = (pending.drop contextLines).reverse.take contextLines := by
    rw [reverse_split contextLines pending, List.take_append_of_le_length hlength]
  rw [htake, List.take_append_drop, ← reverse_split]

/-- Three of them end the hunk before, the three before the next added line begin the next one. -/
theorem split_far {gap h pending : List Line} (hfar : ¬pending.length ≤ 2 * contextLines) (l : Line) (ls : List Line) :
    gap ++ h.reverse ++ (pending.reverse ++ l :: ls) = gap ++ (h.reverse ++ pending.reverse.take contextLines) ++
      ((pending.drop contextLines).reverse.drop contextLines ++ (l :: pending.take contextLines).reverse ++
        (([] : List Line).reverse ++ ls)) := by
  conv_lhs => rw [reverse_far (Nat.lt_of_not_le hfar)]
  simp only [List.append_assoc, List.reverse_cons, List.reverse_nil, List.nil_append, List.singleton_append]

theorem exists_mem_take_of_far {pending : List Line} (hfar : ¬pending.length ≤ 2 * contextLines) :
    ∃ m, m ∈ pending.take contextLines := by
  refine List.exists_mem_of_length_pos ?_
  rw [List.length_take]
  have hcontext : 0 < contextLines := by decide
  omega

/-- A body that grows keeps its context, if it had any. -/
theorem context_of_subset {h body before : List Line} (hsub : h ⊆ body)
    (hkept : (∃ l ∈ h, l.added = false) ∨ ∀ l ∈ before, l.added = false) :
    (∃ l ∈ body, l.added = false) ∨ ∀ l ∈ before, l.added = false :=
  hkept.imp_left fun ⟨l, hl, hadded⟩ => ⟨l, hsub hl, hadded⟩

/-- While a hunk grows, it and the kept lines since then stand after a gap. -/
theorem laid_gather_some {passed gap h pending ls : List Line} (hgap : ∀ l ∈ gap, l.added = false) (hne : h ≠ [])
    (hkept : (∃ l ∈ h, l.added = false) ∨ ∀ l ∈ passed ++ gap, l.added = false)
    (hpending : ∀ l ∈ pending, l.added = false) :
    Laid passed (gap ++ h.reverse ++ (pending.reverse ++ ls)) (gather (some h) pending ls) := by
  induction ls generalizing passed gap h pending with
  | nil =>
    have hsplit : gap ++ h.reverse ++ (pending.reverse ++ []) =
        gap ++ (h.reverse ++ pending.reverse.take contextLines) ++ pending.reverse.drop contextLines := by simp
    rw [hsplit, gather]
    refine .hunk hgap (by simp [hne]) (context_of_subset ?_ hkept) (.done fun l hl => ?_)
    · exact fun l hl => List.mem_append_left _ (List.mem_reverse.2 hl)
    · exact hpending l (List.mem_reverse.1 (List.mem_of_mem_drop hl))
  | cons l ls ih =>
    rw [gather]
    by_cases hadded : l.added = true
    · rw [if_neg (by simp [hadded])]
      split
      · -- close enough: the lines between become part of the hunk
        have hjoin : gap ++ h.reverse ++ (pending.reverse ++ l :: ls) =
            gap ++ (l :: (pending ++ h)).reverse ++ (([] : List Line).reverse ++ ls) := by simp
        rw [hjoin]
        refine ih hgap (by simp) (context_of_subset ?_ hkept) (by simp)
        exact fun m hm => List.mem_cons_of_mem _ (List.mem_append_right _ hm)
      · -- far apart: three lines end this hunk, the three before the added line begin the next
        rename_i hfar
        obtain ⟨m, hm⟩ := exists_mem_take_of_far hfar
        rw [split_far hfar]
        refine .hunk hgap (by simp [hne]) (context_of_subset ?_ hkept) (ih ?_ (by simp) (.inl ?_) (by simp))
        · exact fun m hm => List.mem_append_left _ (List.mem_reverse.2 hm)
        · exact fun m hm => hpending m (List.mem_of_mem_drop (List.mem_reverse.1 (List.mem_of_mem_drop hm)))
        · exact ⟨m, List.mem_cons_of_mem _ hm, hpending m (List.mem_of_mem_take hm)⟩
    · rw [if_pos (by simp [hadded])]
      have hmove : gap ++ h.reverse ++ (pending.reverse ++ l :: ls) =
          gap ++ h.reverse ++ ((l :: pending).reverse ++ ls) := by simp
      rw [hmove]
      exact ih hgap hne hkept (List.forall_mem_cons.2 ⟨by simpa using hadded, hpending⟩)

theorem laid_gather_none {pending ls : List Line} (hpending : ∀ l ∈ pending, l.added = false) :
    Laid [] (pending.reverse ++ ls) (gather none pending ls) := by
  induction ls generalizing pending with
  | nil =>
    rw [gather]
    exact .done (by simpa using hpending)
  | cons l ls ih =>
    rw [gather]
    split
    · have hsplit : pending.reverse ++ l :: ls =
          (pending.drop contextLines).reverse ++ (l :: pending.take contextLines).reverse ++
          (([] : List Line).reverse ++ ls) := by
        rw [reverse_split contextLines pending]
        simp
      have hgap : ∀ m ∈ (pending.drop contextLines).reverse, m.added = false :=
        fun m hm => hpending m (List.mem_of_mem_drop (List.mem_reverse.1 hm))
      rw [hsplit]
      exact laid_gather_some hgap (by simp) (.inr hgap) (by simp)
    · rename_i hadded
      have hmove : pending.reverse ++ l :: ls = (l :: pending).reverse ++ ls := by simp
      rw [hmove]
      exact ih (List.forall_mem_cons.2 ⟨by simpa using hadded, hpending⟩)

/-! ## Places -/

/-- The hunks have their places in both texts, of which `i` and `j` lines are gone: what is left before each
is carried over. -/
inductive Placed : (i j : Nat) → (old new : List Text) → List Hunk → Prop
  | done {i j : Nat} {rest : List Text} : Placed i j rest rest []
  | hunk {i j : Nat} {gap old new : List Text} {h : Hunk} {hs : List Hunk} :
    h.oldLines = h.context.length → h.shown ≠ [] →
    h.oldStart = (if h.context = [] then i + gap.length else i + gap.length + 1) → h.newStart = j + gap.length + 1 →
    Placed (i + gap.length + h.context.length) (j + gap.length + h.shown.length) old new hs →
    Placed i j (gap ++ h.context ++ old) (gap ++ h.shown ++ new) (h :: hs)

theorem Hunk.context_ofLines (body : List Line) : (ofLines body).context = oldTexts body := rfl

theorem Hunk.shown_ofLines (body : List Line) : (ofLines body).shown = newTexts body := rfl

theorem Hunk.newLines_eq (h : Hunk) : h.newLines = h.shown.length := (length_newTexts _).symm

/-- The first kept line carries the number of the next line before. -/
theorem old_of_numbered {i j : Nat} {ls : List Line} (h : Numbered i j ls) :
    ∀ l ∈ (ls.filter fun l => !l.added).head?, l.old = i := by
  induction ls generalizing j with
  | nil => simp
  | cons l ls ih =>
    obtain ⟨-, hrest⟩ := h
    by_cases hadded : l.added = true
    · rw [if_pos hadded] at hrest
      rw [List.filter_cons_of_neg (by simp [hadded])]
      exact ih hrest
    · rw [if_neg hadded] at hrest
      rw [List.filter_cons_of_pos (by simpa using hadded)]
      rintro m hm
      cases hm
      exact hrest.1

/-- The header of a hunk has the numbers of its lines. -/
theorem ofLines_of_numbered {i j : Nat} {body : List Line} (h : Numbered i j body) (hne : body ≠ []) :
    (Hunk.ofLines body).newStart = j ∧ (Hunk.ofLines body).oldStart = if oldTexts body = [] then j - 1 else i := by
  have hnew : (Hunk.ofLines body).newStart = j := by
    cases body with
    | nil => exact absurd rfl hne
    | cons l ls => exact h.1
  refine ⟨hnew, ?_⟩
  have hstart : (Hunk.ofLines body).oldStart =
      ((body.filter fun l => !l.added).head?.map Line.old).getD ((Hunk.ofLines body).newStart - 1) := rfl
  have hold := old_of_numbered h
  rw [hstart, hnew, oldTexts]
  cases hkept : body.filter fun l => !l.added with
  | nil => rfl
  | cons l ls =>
    rw [hkept] at hold
    simpa using hold l rfl

theorem Laid.placed {passed ls : List Line} {bodies : List (List Line)} (h : Laid passed ls bodies)
    (hnumbers : Numbered ((oldTexts passed).length + 1) (passed.length + 1) ls) :
    Placed (oldTexts passed).length passed.length (oldTexts ls) (newTexts ls) (bodies.map Hunk.ofLines) := by
  induction h with
  | done hkept =>
    rw [oldTexts_of_kept hkept]
    exact .done
  | @hunk passed gap body rest bodies hgap hne hkept _ ih =>
    obtain ⟨hfirst, hrest⟩ := numbered_append.1 hnumbers
    obtain ⟨-, hbody⟩ := numbered_append.1 hfirst
    obtain ⟨hnew, hold⟩ := ofLines_of_numbered hbody hne
    have hgapLength := length_oldTexts_of_kept hgap
    rw [oldTexts_append, List.length_append, List.length_append, hgapLength] at hrest
    rw [oldTexts_append, oldTexts_append, List.length_append, List.length_append, List.length_append,
      List.length_append, hgapLength] at ih
    rw [oldTexts_append, newTexts_append, oldTexts_append, newTexts_append, List.map_cons, oldTexts_of_kept hgap,
      ← Hunk.context_ofLines body, ← Hunk.shown_ofLines body]
    refine .hunk ?_ ?_ ?_ ?_ ?_
    · simp [Hunk.ofLines, Hunk.context, oldTexts]
    · simpa [Hunk.shown_ofLines, newTexts] using hne
    · rw [hold, Hunk.context_ofLines, length_newTexts, hgapLength]
      split
      · -- without context there is nothing added before, so the two texts have the same lines so far
        rename_i hnone
        have hpassed : ∀ l ∈ passed, l.added = false := by
          rcases hkept with ⟨l, hl, hadded⟩ | hkept
          · exact absurd hnone (oldTexts_ne_nil hl hadded)
          · exact fun l hl => hkept l (List.mem_append_left _ hl)
        have := length_oldTexts_of_kept hpassed
        omega
      · omega
    · rw [hnew, length_newTexts]
      omega
    · rw [Hunk.context_ofLines, Hunk.shown_ofLines, length_newTexts, length_newTexts]
      exact ih (by convert hrest using 1 <;> omega)

namespace Placed

variable {i j : Nat} {gap old new : List Text} {h : Hunk} {hs : List Hunk}

theorem oldFrom_eq (hcount : h.oldLines = h.context.length)
    (hstart : h.oldStart = if h.context = [] then i else i + 1) : h.oldFrom = i := by
  unfold Hunk.oldFrom
  rw [hcount, hstart]
  cases h.context <;> simp

theorem newFrom_eq (hstart : h.newStart = j + 1) : h.newFrom = j := by
  rw [Hunk.newFrom, hstart, Nat.add_sub_cancel]

/-- No hunk is placed among the lines that are gone. -/
theorem le_from (hp : Placed i j old new hs) : ∀ h ∈ hs, i ≤ h.oldFrom ∧ j ≤ h.newFrom := by
  induction hp with
  | done => simp
  | @hunk i j gap old new h hs hcount _ hold hnew _ ih =>
    refine List.forall_mem_cons.2 ⟨?_, fun k hk => ?_⟩
    · rw [oldFrom_eq hcount hold, newFrom_eq hnew]
      omega
    · have := ih k hk
      omega

theorem replays (hp : Placed i j old new hs) : replayFrom i old hs = some new := by
  induction hp with
  | done => rfl
  | @hunk i j gap old new h hs hcount _ hold _ _ ih =>
    have hfrom := oldFrom_eq hcount hold
    have hgap : h.oldFrom - i = gap.length := by omega
    rw [replayFrom]
    simp only [hgap]
    rw [if_pos, hcount, hfrom, List.append_assoc, List.take_left, ← List.drop_drop, List.drop_left, List.drop_left, ih]
    · simp
    · refine ⟨by omega, by simp, ?_, hcount⟩
      rw [List.append_assoc, List.drop_left, List.isPrefixOf_iff_prefix]
      exact List.prefix_append _ _

theorem apart (hp : Placed i j old new hs) :
    hs.Pairwise fun h k => h.oldFrom + h.oldLines ≤ k.oldFrom ∧ h.newFrom + h.newLines ≤ k.newFrom := by
  induction hp with
  | done => exact .nil
  | @hunk i j gap old new h hs hcount _ hold hnew hrest ih =>
    refine .cons (fun k hk => ?_) (ih)
    have hle := hrest.le_from k hk
    rw [oldFrom_eq hcount hold, newFrom_eq hnew, hcount, h.newLines_eq]
    exact hle

theorem oldRun (hp : Placed i j old new hs) :
    ∀ h ∈ hs, (0 < h.oldLines → 0 < h.oldStart) ∧ ∃ first last, old = first ++ h.context ++ last ∧
    i + first.length = h.oldFrom := by
  induction hp with
  | done => simp
  | @hunk i j gap old new h hs hcount _ hold _ _ ih =>
    refine List.forall_mem_cons.2 ⟨⟨fun hpos => ?_, gap, old, rfl, (oldFrom_eq hcount hold).symm⟩, fun k hk => ?_⟩
    · rw [hcount] at hpos
      rw [hold, if_neg (List.length_pos_iff.1 hpos)]
      omega
    · obtain ⟨hpos, first, last, rfl, hfrom⟩ := ih k hk
      refine ⟨hpos, gap ++ h.context ++ first, last, by simp, ?_⟩
      rw [List.length_append, List.length_append]
      omega

theorem newRun (hp : Placed i j old new hs) :
    ∀ h ∈ hs, 0 < h.newStart ∧ ∃ first last, new = first ++ h.shown ++ last ∧ j + first.length = h.newFrom := by
  induction hp with
  | done => simp
  | @hunk i j gap old new h hs _ _ _ hnew _ ih =>
    refine List.forall_mem_cons.2 ⟨⟨by omega, gap, new, rfl, (newFrom_eq hnew).symm⟩, fun k hk => ?_⟩
    obtain ⟨hpos, first, last, rfl, hfrom⟩ := ih k hk
    refine ⟨hpos, gap ++ h.shown ++ first, last, by simp, ?_⟩
    rw [List.length_append, List.length_append]
    omega

theorem fits (hp : Placed i j old new hs) : ∀ h ∈ hs,
    h.oldStart ≤ i + old.length ∧ h.oldLines ≤ old.length ∧ h.newStart ≤ j + new.length ∧ h.newLines ≤ new.length := by
  induction hp with
  | done => simp
  | @hunk i j gap old new h hs hcount hne hold hnew _ ih =>
    have hnewLines := h.newLines_eq
    have hshown := List.length_pos_iff.2 hne
    simp only [List.length_append]
    refine List.forall_mem_cons.2 ⟨⟨?_, by omega, by omega, by omega⟩, fun k hk => ?_⟩
    · rw [hold]
      split
      · omega
      · rename_i hcontext
        have := List.length_pos_iff.2 hcontext
        omega
    · obtain ⟨h1, h2, h3, h4⟩ := ih k hk
      exact ⟨by omega, by omega, by omega, by omega⟩

end Placed

/-! ## Outside the hunks -/

section Outside

variable {runs : List (Nat × Nat)} {n start count : Nat} {ls ls' : List Text}

theorem outside_append : outside runs n (ls ++ ls') = outside runs n ls ++ outside runs (n + ls.length) ls' := by
  unfold outside
  rw [List.zipIdx_append, List.filter_append, List.map_append]

/-- Lines before all runs are outside. -/
theorem outside_before (h : ∀ r ∈ runs, n + ls.length ≤ r.1) : outside runs n ls = ls := by
  have hall : ((ls.zipIdx n).filter fun (_, i) => !runs.any fun (start, count) => start ≤ i && i < start + count) =
    ls.zipIdx n := by
    refine List.filter_eq_self.2 fun (l, i) hi => ?_
    have hlt := List.snd_lt_add_of_mem_zipIdx hi
    simp only [Bool.not_eq_true', List.any_eq_false, Bool.and_eq_true, decide_eq_true_eq]
    rintro r hr ⟨hle, -⟩
    have := h r hr
    omega
  rw [outside, hall, List.zipIdx_map_fst]

/-- The lines of a run are not outside. -/
theorem outside_run : outside ((n, ls.length) :: runs) n ls = [] := by
  rw [outside, List.map_eq_nil_iff, List.filter_eq_nil_iff]
  rintro ⟨l, i⟩ hi
  have hle := List.le_snd_of_mem_zipIdx hi
  have hlt := List.snd_lt_add_of_mem_zipIdx hi
  simp [hle, hlt]

/-- A run that has ended makes no difference. -/
theorem outside_after (h : start + count ≤ n) : outside ((start, count) :: runs) n ls = outside runs n ls := by
  unfold outside
  congr 1
  refine List.filter_congr fun (l, i) hi => ?_
  have hle := List.le_snd_of_mem_zipIdx hi
  have hend : ¬ i < start + count := by omega
  simp [hend]

/-- What is left of a gap, a run and what follows, if the other runs come after it. -/
theorem outside_gap {gap run rest : List Text} (h : ∀ r ∈ runs, n + gap.length + run.length ≤ r.1) :
    outside ((n + gap.length, run.length) :: runs) n (gap ++ run ++ rest) =
      gap ++ outside runs (n + gap.length + run.length) rest := by
  rw [outside_append, outside_append, outside_before, outside_run, outside_after, List.append_nil, List.length_append,
    Nat.add_assoc]
  · rw [List.length_append]
    omega
  · refine List.forall_mem_cons.2 ⟨le_rfl, fun r hr => ?_⟩
    have := h r hr
    omega

/-- Outside the hunks the two texts have the same lines. -/
theorem Placed.carried {i j : Nat} {old new : List Text} {hs : List Hunk} (hp : Placed i j old new hs) :
    outside (hs.map fun h => (h.oldFrom, h.oldLines)) i old =
      outside (hs.map fun h => (h.newFrom, h.newLines)) j new := by
  induction hp with
  | done => rw [List.map_nil, outside_before (by simp), List.map_nil, outside_before (by simp)]
  | @hunk i j gap old new h hs hcount _ hold hnew hrest ih =>
    rw [List.map_cons, List.map_cons, oldFrom_eq hcount hold, newFrom_eq hnew, hcount, h.newLines_eq, outside_gap,
      outside_gap, ih]
    · intro r hr
      obtain ⟨k, hk, rfl⟩ := List.mem_map.1 hr
      exact (hrest.le_from k hk).2
    · intro r hr
      obtain ⟨k, hk, rfl⟩ := List.mem_map.1 hr
      exact (hrest.le_from k hk).1

end Outside

theorem Laid.subset {passed ls : List Line} {bodies : List (List Line)} (h : Laid passed ls bodies) :
    ∀ b ∈ bodies, ∀ l ∈ b, l ∈ ls := by
  induction h with
  | done => simp
  | hunk _ _ _ _ ih =>
    refine List.forall_mem_cons.2 ⟨fun l hl => ?_, fun b hb l hl => ?_⟩
    · exact List.mem_append_left _ (List.mem_append_right _ hl)
    · exact List.mem_append_right _ (ih b hb l hl)

/-- An added line is in the body of one hunk, and in no other since the lines have different numbers. -/
theorem Laid.gathered {passed ls : List Line} {bodies : List (List Line)} (h : Laid passed ls bodies) {i j : Nat}
    (hnumbers : Numbered i j ls) : ∀ l ∈ ls, l.added = true →
      ∃ first body last, bodies = first ++ body :: last ∧ l ∈ body ∧ ∀ b ∈ first ++ last, l ∉ b := by
  induction h generalizing i j with
  | done hkept =>
    intro l hl hadded
    rw [hkept l hl] at hadded
    cases hadded
  | @hunk passed gap body rest bodies hgap _ _ hrest ih =>
    intro l hl hadded
    have hapart := disjoint_of_numbered hnumbers
    rcases List.mem_append.1 hl with hl | hl
    · rcases List.mem_append.1 hl with hl | hl
      · rw [hgap l hl] at hadded
        cases hadded
      · refine ⟨[], body, bodies, rfl, hl, fun b hb hlb => ?_⟩
        exact hapart l (List.mem_append_right _ hl) (hrest.subset b hb l hlb)
    · obtain ⟨first, found, last, rfl, hfound, hnot⟩ := ih (numbered_append.1 hnumbers).2 l hl hadded
      refine ⟨body :: first, found, last, rfl, hfound, List.forall_mem_cons.2 ⟨fun hlb => ?_, hnot⟩⟩
      exact hapart l (List.mem_append_right _ hlb) hl

/-! ## The diff -/

theorem isPatch_of_hunks? {old new : List Text} {hs : List Hunk} (h : hunks? old new = some hs) :
    IsPatch old new hs := by
  obtain ⟨ls, halign, rfl⟩ := Option.map_eq_some_iff.1 h
  obtain ⟨hnumbers, hold, hnew⟩ := alignFrom_spec halign
  have hlaid : Laid [] ls (gather none [] ls) := @laid_gather_none [] ls (by simp)
  have hplaced := hlaid.placed hnumbers
  rw [hold, hnew] at hplaced
  have hcount : ∀ h ∈ (gather none [] ls).map Hunk.ofLines, h.oldLines = h.context.length := by
    intro h hh
    obtain ⟨body, -, rfl⟩ := List.mem_map.1 hh
    simp [Hunk.ofLines, Hunk.context, oldTexts]
  refine ⟨hplaced.replays, hplaced.apart, fun h hh => ?_, fun h hh => ?_, ?_, hplaced.carried,
    fun ls' hls l hl hadded => ?_⟩
  · obtain ⟨hpos, first, last, hrun, hfrom⟩ := hplaced.oldRun h hh
    exact ⟨hcount h hh, hpos, first, last, hrun, by simpa [oldTexts] using hfrom⟩
  · obtain ⟨hpos, first, last, hrun, hfrom⟩ := hplaced.newRun h hh
    exact ⟨h.newLines_eq, hpos, first, last, hrun, by simpa using hfrom⟩
  · simpa [oldTexts] using hplaced.fits
  · cases halign.symm.trans hls
    obtain ⟨first, body, last, hbodies, hbody, hnot⟩ := hlaid.gathered hnumbers l hl hadded
    refine ⟨first.map Hunk.ofLines, Hunk.ofLines body, last.map Hunk.ofLines, by rw [hbodies]; simp, hbody, ?_⟩
    rw [← List.map_append]
    exact List.forall_mem_map.2 hnot

theorem gather_of_kept {pending ls : List Line} (h : ∀ l ∈ ls, l.added = false) : gather none pending ls = [] := by
  induction ls generalizing pending with
  | nil => rfl
  | cons l ls ih =>
    obtain ⟨hl, hls⟩ := List.forall_mem_cons.1 h
    rw [gather, if_neg (by simp [hl]), ih hls]

/-- Between the same lines there are no hunks. -/
theorem hunks?_self (ls : List Text) : hunks? ls ls = some [] := by
  obtain ⟨aligned, halign⟩ := Option.isSome_iff_exists.1 ((alignFrom_isSome_iff 1 1).2 (List.Sublist.refl ls))
  obtain ⟨-, hold, hnew⟩ := alignFrom_spec halign
  have hlength : (aligned.filter fun l => !l.added).length = aligned.length := by
    rw [← length_newTexts aligned, hnew, ← congrArg List.length hold, oldTexts, List.length_map]
  -- with as many kept lines as there are lines none is added
  have hkept : ∀ l ∈ aligned, l.added = false := by
    simpa using List.length_filter_eq_length_iff.1 hlength
  rw [hunks?, align?, halign, Option.map_some, gather_of_kept hkept, List.map_nil]

/-- What a diff prints is a patch: replaying its hunks on the lines before gives the lines after. -/
theorem diff_isPatch {path before after out : Text} (h : diff path before after = .ok out) :
    ∃ hs, hunks? (linesOf before) (linesOf after) = some hs ∧ out = printed path hs ∧
      IsPatch (linesOf before) (linesOf after) hs := by
  have hhunks : ∃ hs, hunks? (linesOf before) (linesOf after) = some hs ∧ out = printed path hs := by
    unfold diff at h
    split at h
    · rename_i heq
      cases h
      exact ⟨[], heq ▸ hunks?_self _, rfl⟩
    · split at h
      · cases h
      · rename_i hhunks
        cases h
        exact ⟨[], hhunks, rfl⟩
      · rename_i hs hne hhunks
        cases h
        refine ⟨hs, hhunks, ?_⟩
        cases hs with
        | nil => exact absurd rfl hne
        | cons h hs => rfl
  obtain ⟨hs, hhunks, hout⟩ := hhunks
  exact ⟨hs, hhunks, hout, isPatch_of_hunks? hhunks⟩

/-- Lines at both ends of eight, too far apart to share a hunk. -/
def eightLines : Text := "a\nb\nc\nd\ne\nf\ng\nh\n"

theorem eightLines_isPatch :
    diff "f" eightLines (Text.ofString "x\n" ++ eightLines ++ "y\n") =
        .ok "--- a/f\n+++ b/f\n@@ -1,3 +1,4 @@\n+x\n a\n b\n c\n@@ -6,3 +7,4 @@\n f\n g\n h\n+y\n" ∧
      ∃ hs, hunks? (linesOf eightLines) (linesOf (Text.ofString "x\n" ++ eightLines ++ "y\n")) = some hs ∧
        Text.ofString "--- a/f\n+++ b/f\n@@ -1,3 +1,4 @@\n+x\n a\n b\n c\n@@ -6,3 +7,4 @@\n f\n g\n h\n+y\n" =
          printed "f" hs ∧
        IsPatch (linesOf eightLines) (linesOf (Text.ofString "x\n" ++ eightLines ++ "y\n")) hs := by
  have hdiff : diff "f" eightLines (Text.ofString "x\n" ++ eightLines ++ "y\n") =
      .ok "--- a/f\n+++ b/f\n@@ -1,3 +1,4 @@\n+x\n a\n b\n c\n@@ -6,3 +7,4 @@\n f\n g\n h\n+y\n" := by
    decide +kernel
  exact ⟨hdiff, diff_isPatch hdiff⟩

end DocAtlas.Patch

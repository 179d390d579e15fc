/-
What an alignment is. It exists exactly if the lines before are among the lines after in their order, however
often lines repeat: keeping a line as soon as it is found leaves the most lines to find the others among. Its
lines are the lines after, numbered from one, and those that are not marked as added are the lines before,
numbered from one as well.
-/
import DocAtlas.Proofs.Edit.Replaying

namespace DocAtlas.Patch

/-- Lines with their numbers have consecutive ones, in the text after and, where they are kept, in the text before. -/
theorem numbers_of_numbered {i j : Nat} {ls : List Line} (h : Numbered i j ls) :
    ls.map Line.new = List.range' j ls.length ∧
      (ls.filter fun l => !l.added).map Line.old = List.range' i (oldTexts ls).length := by
  induction ls generalizing i j with
  | nil => exact ⟨rfl, rfl⟩
  | cons l ls ih =>
    obtain ⟨hnew, hrest⟩ := h
    rw [List.map_cons, List.length_cons, List.range'_succ, oldTexts_cons, hnew]
    cases hadded : l.added with
    | true =>
      rw [hadded, if_pos rfl] at hrest
      obtain ⟨hnews, holds⟩ := ih hrest
      rw [hnews, if_pos rfl, List.filter_cons, if_neg (by simp [hadded]), holds]
      exact ⟨rfl, rfl⟩
    | false =>
      rw [hadded, if_neg Bool.false_ne_true] at hrest
      obtain ⟨hnews, holds⟩ := ih hrest.2
      rw [hnews, if_neg Bool.false_ne_true, List.filter_cons, if_pos (by simp [hadded]), List.map_cons, holds, hrest.1,
        List.length_cons, List.range'_succ]
      exact ⟨rfl, rfl⟩

/-- Lines are aligned exactly if those before are a subsequence of those after. The aligned lines are those after
with their numbers, and the kept ones among them are those before with theirs. -/
theorem align?_iff_sublist (old new : List Text) :
    ((∃ ls, align? old new = some ls) ↔ old.Sublist new) ∧
    ∀ ls, align? old new = some ls →
      (ls.map Line.text = new ∧ ls.map Line.new = List.range' 1 new.length) ∧
      ((ls.filter fun l => !l.added).map Line.text = old ∧
        (ls.filter fun l => !l.added).map Line.old = List.range' 1 old.length) := by
  refine ⟨?_, fun ls hls => ?_⟩
  · rw [← alignFrom_isSome_iff 1 1, Option.isSome_iff_exists]
    rfl
  · obtain ⟨hnumbered, hold, hnew⟩ := alignFrom_spec hls
    obtain ⟨hnews, holds⟩ := numbers_of_numbered hnumbered
    have hlength : ls.length = new.length := by rw [← hnew, length_newTexts]
    rw [hlength] at hnews
    rw [hold] at holds
    exact ⟨⟨hnew, hnews⟩, hold, holds⟩

/-- Of a line that stands three times after and twice before the first two are kept. -/
theorem repeatedLine_aligned : (["x", "x"] : List Text).Sublist ["x", "y", "x", "x"] ∧
    ∃ ls, align? ["x", "x"] ["x", "y", "x", "x"] = some ls ∧
      (ls.filter fun l => !l.added).map Line.old = [1, 2] ∧ (ls.filter fun l => !l.added).map Line.new = [1, 3] := by
  obtain ⟨haccepts, hspec⟩ := align?_iff_sublist ["x", "x"] ["x", "y", "x", "x"]
  have hsub : (["x", "x"] : List Text).Sublist ["x", "y", "x", "x"] := by decide
  obtain ⟨ls, hls⟩ := haccepts.2 hsub
  refine ⟨hsub, ls, hls, (hspec ls hls).2.2, ?_⟩
  cases hls
  decide

end DocAtlas.Patch

/-
Unified diffs of pure insertions: every line of the text before survives in the text after. The
lines after are aligned with the lines before, runs of added lines are gathered into hunks with up
to three lines of context around them, and runs closer than twice that share a hunk.
-/
import DocAtlas.Text.Basic

namespace DocAtlas.Patch

/-- The number of unchanged lines shown around a change. -/
def contextLines : Nat := 3

/-- The lines of a text; the empty text has none, and a final newline ends the last line. -/
def linesOf (t : Text) : List Text :=
  if t.isEmpty then [] else Text.lines (Text.trimSuffix [Text.newline] t)

/-- A line of the text after: kept from the text before, where it is line `old` (counting from
one), or added (`old = 0`). -/
structure Line where
  added : Bool
  text : Text
  old : Nat
  new : Nat
deriving DecidableEq, Repr

/-- Aligns lines numbered from `j` with those before numbered from `i`: a line is kept as soon as
it equals the next line before and enough lines remain. -/
def alignFrom (i j : Nat) : (old new : List Text) → Option (List Line)
  | [], [] => some []
  | _ :: _, [] => none
  | [], line :: rest => (alignFrom i (j + 1) [] rest).map (⟨true, line, 0, j⟩ :: ·)
  | o :: old, line :: rest =>
    if line = o ∧ old.length ≤ rest.length then
      (alignFrom (i + 1) (j + 1) old rest).map (⟨false, line, i, j⟩ :: ·)
    else (alignFrom i (j + 1) (o :: old) rest).map (⟨true, line, 0, j⟩ :: ·)

/-- The lines after, each marked as kept or added; `none` if a line before does not survive. -/
def align? (old new : List Text) : Option (List Line) := alignFrom 1 1 old new

/-- Gathers the hunks of a line list. `current` is the hunk begun, last line first, and `pending`
the kept lines since its last added line (or since the last hunk), nearest first. -/
def gather : (current : Option (List Line)) → (pending : List Line) → List Line → List (List Line)
  | none, _, [] => []
  | some h, pending, [] => [h.reverse ++ pending.reverse.take contextLines]
  | none, pending, l :: ls =>
    if l.added then gather (some (l :: pending.take contextLines)) [] ls
    else gather none (l :: pending) ls
  | some h, pending, l :: ls =>
    if !l.added then gather (some h) (l :: pending) ls
    else if pending.length ≤ 2 * contextLines then gather (some (l :: (pending ++ h))) [] ls
    else
      (h.reverse ++ pending.reverse.take contextLines) ::
        gather (some (l :: pending.take contextLines)) [] ls

/-- A run of lines with its position in both texts. -/
structure Hunk where
  oldStart : Nat
  oldLines : Nat
  newStart : Nat
  lines : List Line
deriving DecidableEq, Repr

namespace Hunk

/-- A hunk of the given lines. Without a kept line it lands after the line before its first. -/
def ofLines (ls : List Line) : Hunk :=
  let newStart := (ls.head?.map Line.new).getD 0
  let kept := ls.filter fun l => !l.added
  { oldStart := (kept.head?.map Line.old).getD (newStart - 1)
    oldLines := kept.length
    newStart
    lines := ls }

/-- The number of lines the hunk covers in the text after. -/
def newLines (h : Hunk) : Nat := h.lines.length

/-- The header line and the body. -/
def render (h : Hunk) : Text :=
  "@@ -" ++ Text.ofNat h.oldStart ++ "," ++ Text.ofNat h.oldLines ++ " +" ++ Text.ofNat h.newStart ++ "," ++
    Text.ofNat h.newLines ++ " @@\n" ++
    h.lines.flatMap fun l => (if l.added then 43 else 32) :: l.text ++ [Text.newline]

end Hunk

/-- The hunks that lead from the lines before to the lines after. -/
def hunks? (old new : List Text) : Option (List Hunk) :=
  (align? old new).map fun ls => (gather none [] ls).map Hunk.ofLines

/-- The only way a diff fails: the change to the file at `path` loses a line. -/
structure NotInsertion where
  path : Text
deriving DecidableEq, Repr

namespace NotInsertion

def message (e : NotInsertion) : Text := "diff " ++ e.path ++ ": change is not a pure insertion"

end NotInsertion

/-- The unified diff of a file; empty if nothing changed or only the final newline did. -/
def diff (path before after : Text) : Except NotInsertion Text :=
  if before = after then .ok []
  else match hunks? (linesOf before) (linesOf after) with
    | none => .error ⟨path⟩
    | some [] => .ok []
    | some hs => .ok ("--- a/" ++ path ++ "\n+++ b/" ++ path ++ "\n" ++ hs.flatMap Hunk.render)

end DocAtlas.Patch

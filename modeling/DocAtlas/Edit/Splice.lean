/-
Splicing insertions into a text. Offsets refer to the text before any insertion; applying from the
highest offset down means that an insertion never moves a position still to be used. Insertions at
one offset read in the order they were listed.
-/
import DocAtlas.Text.Basic

namespace DocAtlas

/-- A text to be placed immediately before the byte at `offset`. -/
structure Insertion where
  offset : Int
  text : Text
deriving DecidableEq, Repr

namespace Insertion

/-- Whether an insertion fits a text of `size` bytes. -/
def InRange (size : Nat) (i : Insertion) : Prop := 0 ≤ i.offset ∧ i.offset ≤ size

instance (size : Nat) (i : Insertion) : Decidable (i.InRange size) :=
  inferInstanceAs (Decidable (_ ∧ _))

/-- The order of application: descending by offset, and of those that share an offset the one
listed last comes first. -/
def order (ins : List Insertion) : List Insertion :=
  ins.reverse.mergeSort fun a b => decide (b.offset ≤ a.offset)

/-- One insertion made. -/
def splice (src : Text) (i : Insertion) : Text :=
  src.take i.offset.toNat ++ i.text ++ src.drop i.offset.toNat

/-- The only way splicing fails: an offset outside the text. -/
structure OutOfRange where
  offset : Int
  size : Nat
deriving DecidableEq, Repr

namespace OutOfRange

def message (e : OutOfRange) : Text :=
  "insertion offset " ++ Text.ofInt e.offset ++ " out of range [0, " ++ Text.ofNat e.size ++ "]"

end OutOfRange

/-- The text with every insertion made, or the first insertion that does not fit. -/
def apply (src : Text) (ins : List Insertion) : Except OutOfRange Text :=
  match ins.find? fun i => !decide (i.InRange src.length) with
  | some i => .error ⟨i.offset, src.length⟩
  | none => .ok ((order ins).foldl splice src)

end Insertion

end DocAtlas

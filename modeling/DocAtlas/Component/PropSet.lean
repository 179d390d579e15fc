/-
The props a component is known to take: a set that remembers the order of insertion. A captured
rest binding is one entry, marked as such.
-/
import DocAtlas.Doc.Block

namespace DocAtlas

/-- Prop keys in order of first insertion. -/
structure PropSet where
  keys : List Text
deriving DecidableEq, Repr

namespace PropSet

def empty : PropSet := ⟨[]⟩

/-- The keys are distinct and none is empty. -/
structure WF (s : PropSet) : Prop where
  nodup : s.keys.Nodup
  nonempty : [] ∉ s.keys

/-- Whether the entry is there. -/
def has (s : PropSet) (key : Text) : Bool := s.keys.contains key

/-- Adds a key unless it is empty or already there. -/
def add (s : PropSet) (key : Text) : PropSet :=
  if key.isEmpty || s.has key then s else ⟨s.keys ++ [key]⟩

/-- The name of the captured rest. -/
def rest? (s : PropSet) : Option Text := s.keys.findSome? (Text.dropPrefix? Doc.restMark)

/-- Records a captured rest; only the first one is kept. -/
def addRest (s : PropSet) (name : Text) : PropSet :=
  if s.rest?.isSome || name.isEmpty then s else s.add (Doc.restMark ++ name)

/-- The keys of the props themselves. -/
def plain (s : PropSet) : List Text := Doc.plainProps s.keys

def size (s : PropSet) : Nat := s.keys.length

end PropSet

end DocAtlas

/-
A node with its place in the tree: the nodes above it, and at each of them the siblings before the
way down. A cursor answers what a node alone cannot, its parent and its preceding siblings.
-/
import DocAtlas.Tree.Node

namespace DocAtlas

/-- One step of the way from a node to the root: the parent, and the siblings before the child
taken, nearest first. -/
structure Frame where
  parent : Node
  before : List Node

/-- A node and the way to the root, the parent first. -/
structure Cursor where
  node : Node
  above : List Frame

namespace Cursor

/-- The root of a tree. -/
def ofRoot (root : Node) : Cursor := ⟨root, []⟩

/-- The node above. -/
def parent? (c : Cursor) : Option Cursor :=
  match c.above with
  | [] => none
  | f :: above => some ⟨f.parent, above⟩

/-- The nodes above, the parent first. -/
def ancestors (c : Cursor) : List Node := c.above.map Frame.parent

/-- The siblings before the node, nearest first. -/
def before (c : Cursor) : List Node := (c.above.head?.map Frame.before).getD []

/-- Cursors for children of `parent` that follow the siblings `before`. -/
def childrenFrom (parent : Node) (above : List Frame) : (before : List Node) → List Node → List Cursor
  | _, [] => []
  | before, c :: cs => ⟨c, ⟨parent, before⟩ :: above⟩ :: childrenFrom parent above (c :: before) cs

/-- The children, the anonymous ones included. -/
def children (c : Cursor) : List Cursor := childrenFrom c.node c.above [] c.node.children

/-- The first child with a role. -/
def child? (c : Cursor) (f : String) : Option Cursor := c.children.find? fun d => d.node.hasField f

/-- The named children without comments. -/
def proper (c : Cursor) : List Cursor := c.children.filter fun d => d.node.isProper

def firstProper? (c : Cursor) : Option Cursor := c.children.find? fun d => d.node.isProper

mutual

/-- The node and everything below it in document order. -/
def preorderAt (above : List Frame) : Node → List Cursor
  | .mk i cs => ⟨.mk i cs, above⟩ :: preorderEachAt (.mk i cs) [] above cs

/-- The children `cs` of `parent` after the siblings `before`, and everything below them. -/
def preorderEachAt (parent : Node) (before : List Node) (above : List Frame) : List Node → List Cursor
  | [] => []
  | c :: cs => preorderAt (⟨parent, before⟩ :: above) c ++ preorderEachAt parent (c :: before) above cs

end

/-- The node and everything below it in document order. -/
def preorder (c : Cursor) : List Cursor := preorderAt c.above c.node

end Cursor

end DocAtlas

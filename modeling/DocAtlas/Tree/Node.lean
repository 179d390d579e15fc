/-
Syntax trees. The grammars themselves are outside this library: a tree arrives as its nodes in
document order with their depths, and everything the library asks of it follows from kinds, field
names, byte ranges and flags.
-/
import DocAtlas.Text.Basic

namespace DocAtlas

/-- What a node says of itself. -/
structure NodeInfo where
  kind : String
  /-- The node's role in its parent. -/
  field : Option String
  start : Nat
  stop : Nat
  named : Bool
  /-- The node covers text the grammar could not fit in. -/
  error : Bool
  /-- The grammar made the node up to go on. -/
  missing : Bool
  /-- The node may stand anywhere, as comments do. -/
  extra : Bool
deriving DecidableEq, Repr

/-- A node with its children in document order, the anonymous ones included. -/
inductive Node where
  | mk (info : NodeInfo) (children : List Node)
deriving Repr

namespace Node

def info : Node → NodeInfo
  | mk i _ => i

def children : Node → List Node
  | mk _ cs => cs

def kind (n : Node) : String := n.info.kind

def start (n : Node) : Nat := n.info.start

def stop (n : Node) : Nat := n.info.stop

def isNamed (n : Node) : Bool := n.info.named

def isComment (n : Node) : Bool := n.kind == "comment"

/-- Named and not a comment: what the grammar put there and a reader of the code means. -/
def isProper (n : Node) : Bool := n.isNamed && !n.isComment

/-- Whether the node has a role in its parent. -/
def hasField (f : String) (n : Node) : Bool := n.info.field == some f

/-- The first child with a role. -/
def child? (n : Node) (f : String) : Option Node := n.children.find? (hasField f)

/-- The named children without comments. -/
def proper (n : Node) : List Node := n.children.filter isProper

def firstProper? (n : Node) : Option Node := n.children.find? isProper

/-- The source text of the node, empty if the node reaches beyond the source. -/
def text (n : Node) (src : Text) : Text := if src.length < n.stop then [] else Text.slice src n.start n.stop

/-- Whether there is an anonymous child of a kind, such as a keyword. -/
def hasToken (n : Node) (token : String) : Bool := n.children.any fun c => !c.isNamed && c.kind == token

mutual

/-- The node and everything below it in document order. -/
def preorder : Node → List Node
  | mk i cs => mk i cs :: preorderEach cs

/-- The nodes of a list and everything below them in document order. -/
def preorderEach : List Node → List Node
  | [] => []
  | c :: cs => preorder c ++ preorderEach cs

end

mutual

/-- The node and what is reached from it through named nodes, in document order. -/
def namedPreorder : Node → List Node
  | mk i cs => mk i cs :: namedPreorderEach cs

/-- The named nodes of a list and what is reached from them through named nodes. -/
def namedPreorderEach : List Node → List Node
  | [] => []
  | c :: cs => (if c.isNamed then namedPreorder c else []) ++ namedPreorderEach cs

end

mutual

/-- Whether the node or a node below it is at fault. -/
def hasFault : Node → Bool
  | mk i cs => i.error || i.missing || anyHasFault cs

/-- Whether a node of the list or below it is at fault. -/
def anyHasFault : List Node → Bool
  | [] => false
  | c :: cs => hasFault c || anyHasFault cs

end

mutual

/-- The first node at fault in document order. Only nodes that hold one are entered. -/
def firstFault? : Node → Option Node
  | mk i cs =>
    if i.error || i.missing then some (mk i cs)
    else if anyHasFault cs then firstFaultOf? cs
    else none

/-- The first node at fault in a list or below it. -/
def firstFaultOf? : List Node → Option Node
  | [] => none
  | c :: cs => (firstFault? c).or (firstFaultOf? cs)

end

/-- Reads a tree from its nodes in document order with their depths. A node's children are the
nodes one deeper that follow it before the next node at its own depth or above. -/
def forest (records : List (Nat × NodeInfo)) : List (Nat × Node) :=
  records.foldr
    (fun (depth, info) pending =>
      let below := pending.takeWhile fun p => p.1 == depth + 1
      (depth, mk info (below.map Prod.snd)) :: pending.drop below.length)
    []

/-- The tree of a node list that starts with its root. -/
def ofPreorder? (records : List (Nat × NodeInfo)) : Option Node :=
  (forest records).head?.map Prod.snd

end Node

/-- A tree with the source it was read from. Rows and columns of its nodes are those of that
source. -/
structure SyntaxTree where
  source : Text
  root : Node

namespace SyntaxTree

/-- The line of an offset, counting from one. -/
def lineAt (t : SyntaxTree) (offset : Nat) : Nat := Text.rowAt t.source offset + 1

/-- The column of an offset in bytes, counting from one. -/
def columnAt (t : SyntaxTree) (offset : Nat) : Nat := Text.columnAt t.source offset + 1

end SyntaxTree

end DocAtlas

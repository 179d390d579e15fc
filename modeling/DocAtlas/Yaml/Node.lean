/-
The nodes of a YAML document: scalars, sequences, mappings, and aliases, which stand for an earlier
node. Only the first document of a text is read.
-/
import DocAtlas.Yaml.Resolve
import DocAtlas.Yaml.Tokens

namespace DocAtlas.Yaml

/-- A node, with the line it starts on, counted from one, and its tag. -/
inductive Node where
  | scalar (line : Nat) (tag text : Text)
  | seq (line : Nat) (tag : Text) (items : List Node)
  | map (line : Nat) (tag : Text) (entries : List (Node × Node))
  | alias_ (line : Nat) (name : Text) (target : Node)
deriving Repr

namespace Node

def line : Node → Nat
  | scalar l _ _ => l
  | seq l _ _ => l
  | map l _ _ => l
  | alias_ l _ _ => l

/-- The node an alias stands for. -/
def behind : Node → Node
  | alias_ _ _ target => target
  | n => n

/-- What tells one key from another: the kind of the node, and its text. -/
def keyText : Node → Nat × Text
  | scalar _ _ t => (0, t)
  | seq _ _ _ => (1, [])
  | map _ _ _ => (2, [])
  | alias_ _ name _ => (3, name)

/-- The text of the key that asks for the entries of other mappings. -/
def mergeKey : Text := "<<"

def mergeTag : Text := "!!merge"

/-- Whether a key asks for the entries of other mappings. -/
def isMerge : Node → Bool
  | scalar _ tag t => tag == mergeTag && t == mergeKey
  | _ => false

end Node

/-! ## Documents -/

/-- The state of reading nodes. -/
structure Parsing where
  tokens : List Token
  anchors : List (Text × Node)
  /-- What the handles of tags stand for. -/
  handles : List (Text × Text)

namespace Parsing

/-- The next token. Two more are read ahead. -/
def peek (s : Parsing) : Option Token :=
  if (s.tokens.take 3).any fun t => t.kind == .unreadable then none
  else some (s.tokens.head?.getD ⟨.streamEnd, 0⟩)

def skip (s : Parsing) : Parsing := { s with tokens := s.tokens.tail }

/-- A node of nothing. -/
def nothing (line : Nat) : Node := .scalar (line + 1) "!!null" []

def standardStart : Text := "tag:yaml.org,2002:"

/-- A tag in its short form. -/
def shortTag (t : Text) : Text :=
  match Text.dropPrefix? standardStart t with
  | some rest => "!!" ++ rest
  | none => t

/-- The tag that a handle and a suffix stand for. -/
def fullTag? (s : Parsing) (handle suffix : Text) : Option Text :=
  if handle.isEmpty then some suffix
  else
    ((s.handles.find? fun h => h.1 == handle).map fun h => h.2 ++ suffix) <|>
      (if handle = "!" then some (33 :: suffix) else if handle = "!!" then some (standardStart ++ suffix) else none)

/-- What stands before a node: a name for it and a tag, in either order. -/
structure Properties where
  anchor : Option Text
  tag : Text
  line : Option Nat

/-- Reads what stands before a node, at most one of each. -/
def properties : (fuel : Nat) → Properties → Parsing → Option (Properties × Parsing)
  | 0, ps, s => some (ps, s)
  | fuel + 1, ps, s => do
    let t ← s.peek
    let line := some (ps.line.getD t.line)
    match t.kind with
    | .anchor name =>
      if ps.anchor.isSome then return (ps, s)
      else properties fuel { ps with anchor := some name, line } s.skip
    | .tag handle suffix =>
      if !ps.tag.isEmpty then return (ps, s)
      let tag ← s.fullTag? handle suffix
      properties fuel { ps with tag := shortTag tag, line } s.skip
    | _ => return (ps, s)

/-- The tag of a collection. -/
def collectionTag (ps : Properties) (usual : Text) : Text :=
  if ps.tag.isEmpty || ps.tag == ("!" : Text) then usual else ps.tag

/-- A scalar with its tag. -/
def scalarNode (ps : Properties) (line : Nat) (text : Text) (plain : Bool) : Node :=
  let tag :=
    if !(ps.tag.isEmpty || ps.tag == ("!" : Text)) then ps.tag
    else if !plain then "!!str"
    else if text = Node.mergeKey then Node.mergeTag
    else (Meaning.ofPlain [] text).tag
  .scalar (line + 1) tag text

/-- Gives a node the name it has. -/
def register (ps : Properties) (r : Node × Parsing) : Node × Parsing :=
  match ps.anchor with
  | some name => (r.1, { r.2 with anchors := (name, r.1) :: r.2.anchors })
  | none => r

mutual

/-- Reads a node. `block` allows collections by indentation, `loose` also a sequence that is not
indented. -/
def node (block loose : Bool) : (fuel : Nat) → Parsing → Option (Node × Parsing)
  | 0, _ => none
  | fuel + 1, s => do
    let first ← s.peek
    match first.kind with
    | .alias_ name =>
      let (_, target) ← s.anchors.find? fun a => a.1 == name
      return (.alias_ (first.line + 1) name target, s.skip)
    | _ =>
      let (ps, s) ← properties 2 ⟨none, [], none⟩ s
      let t ← s.peek
      let line := ps.line.getD t.line
      let sequence (r : List Node × Parsing) : Node × Parsing :=
        register ps (.seq (line + 1) (collectionTag ps "!!seq") r.1, r.2)
      let mapping (r : List (Node × Node) × Parsing) : Node × Parsing :=
        register ps (.map (line + 1) (collectionTag ps "!!map") r.1, r.2)
      match t.kind with
      | .scalar text plain => return register ps (scalarNode ps line text plain, s.skip)
      | .flowSequence => return sequence (← flowItems true fuel s.skip)
      | .flowMapping => return mapping (← flowEntries true fuel s.skip)
      | .blockEntry =>
        if loose then return sequence (← looseItems fuel s)
        else if ps.line.isSome then return register ps (scalarNode ps line [] true, s) else none
      | .blockSequence =>
        if block then return sequence (← blockItems fuel s.skip)
        else if ps.line.isSome then return register ps (scalarNode ps line [] true, s) else none
      | .blockMapping =>
        if block then return mapping (← blockEntries fuel s.skip)
        else if ps.line.isSome then return register ps (scalarNode ps line [] true, s) else none
      | _ => if ps.line.isSome then return register ps (scalarNode ps line [] true, s) else none

/-- Reads a node unless a token follows that ends its place. -/
def nodeUnless (ends : List TokenKind) (block loose : Bool) : (fuel : Nat) → Parsing → Option (Node × Parsing)
  | 0, _ => none
  | fuel + 1, s => do
    let t ← s.peek
    if ends.contains t.kind then return (nothing t.line, s) else node block loose fuel s

/-- Reads the items of an indented sequence. -/
def blockItems : (fuel : Nat) → Parsing → Option (List Node × Parsing)
  | 0, _ => none
  | fuel + 1, s => do
    match (← s.peek).kind with
    | .blockEntry =>
      let (n, s) ← nodeUnless [.blockEntry, .blockEnd] true false fuel s.skip
      let (ns, s) ← blockItems fuel s
      return (n :: ns, s)
    | .blockEnd => return ([], s.skip)
    | _ => none

/-- Reads the items of a sequence that is not indented. -/
def looseItems : (fuel : Nat) → Parsing → Option (List Node × Parsing)
  | 0, _ => none
  | fuel + 1, s => do
    match (← s.peek).kind with
    | .blockEntry =>
      let (n, s) ← nodeUnless [.blockEntry, .key, .value, .blockEnd] true false fuel s.skip
      let (ns, s) ← looseItems fuel s
      return (n :: ns, s)
    | _ => return ([], s)

/-- Reads the entries of an indented mapping. -/
def blockEntries : (fuel : Nat) → Parsing → Option (List (Node × Node) × Parsing)
  | 0, _ => none
  | fuel + 1, s => do
    match (← s.peek).kind with
    | .key =>
      let ends : List TokenKind := [.key, .value, .blockEnd]
      let (k, s) ← nodeUnless ends true true fuel s.skip
      let t ← s.peek
      let (v, s) ← if t.kind == .value then nodeUnless ends true true fuel s.skip else some (nothing t.line, s)
      let (es, s) ← blockEntries fuel s
      return ((k, v) :: es, s)
    | .blockEnd => return ([], s.skip)
    | _ => none

/-- Reads the items of a sequence in brackets. -/
def flowItems (first : Bool) : (fuel : Nat) → Parsing → Option (List Node × Parsing)
  | 0, _ => none
  | fuel + 1, s => do
    if (← s.peek).kind == .flowSequenceEnd then return ([], s.skip)
    let s ← if first then some s else if (← s.peek).kind == .flowEntry then some s.skip else none
    let t ← s.peek
    match t.kind with
    | .flowSequenceEnd => return ([], s.skip)
    | .key =>
      let s := s.skip
      let u ← s.peek
      let bare := [TokenKind.value, .flowEntry, .flowSequenceEnd].contains u.kind
      let (k, s) ← if bare then some (nothing u.line, s.skip) else node false false fuel s
      let w ← s.peek
      let (v, s) ← if w.kind == .value then nodeUnless [.flowEntry, .flowSequenceEnd] false false fuel s.skip
        else some (nothing w.line, s)
      let (ns, s) ← flowItems false fuel s
      return (.map (t.line + 1) "!!map" [(k, v)] :: ns, s)
    | _ =>
      let (n, s) ← node false false fuel s
      let (ns, s) ← flowItems false fuel s
      return (n :: ns, s)

/-- Reads the entries of a mapping in braces. -/
def flowEntries (first : Bool) : (fuel : Nat) → Parsing → Option (List (Node × Node) × Parsing)
  | 0, _ => none
  | fuel + 1, s => do
    if (← s.peek).kind == .flowMappingEnd then return ([], s.skip)
    let s ← if first then some s else if (← s.peek).kind == .flowEntry then some s.skip else none
    let t ← s.peek
    match t.kind with
    | .flowMappingEnd => return ([], s.skip)
    | .key =>
      let (k, s) ← nodeUnless [.value, .flowEntry, .flowMappingEnd] false false fuel s.skip
      let w ← s.peek
      let (v, s) ← if w.kind == .value then nodeUnless [.flowEntry, .flowMappingEnd] false false fuel s.skip
        else some (nothing w.line, s)
      let (es, s) ← flowEntries false fuel s
      return ((k, v) :: es, s)
    | _ =>
      let (k, s) ← node false false fuel s
      let (es, s) ← flowEntries false fuel s
      return ((k, nothing t.line) :: es, s)

end

/-- Reads the directives before a document. -/
def directives : (fuel : Nat) → (versioned : Bool) → Parsing → Option Parsing
  | 0, _, _ => none
  | fuel + 1, versioned, s => do
    match (← s.peek).kind with
    | .versionDirective major minor =>
      if versioned || major ≠ "1" || minor ≠ "1" then none else directives fuel true s.skip
    | .tagDirective handle start =>
      if s.handles.any fun h => h.1 == handle then none
      else directives fuel versioned { s.skip with handles := (handle, start) :: s.handles }
    | _ => return s

/-- The kinds of tokens an explicit document starts with. -/
def startsDocument : TokenKind → Bool
  | .versionDirective _ _ | .tagDirective _ _ | .documentStart => true
  | _ => false

/-- The kinds of tokens that leave a document empty. -/
def endsDocument (k : TokenKind) : Bool := startsDocument k || k == .documentEnd || k == .streamEnd

/-- Reads the first document. -/
def document (fuel : Nat) (s : Parsing) : Option (Option Node) := do
  let t ← s.peek
  if t.kind == .streamEnd then return none
  let s ← if startsDocument t.kind then do
      let s ← directives fuel false s
      if (← s.peek).kind == .documentStart then some s.skip else none
    else some s
  let u ← s.peek
  if startsDocument t.kind && endsDocument u.kind then return some (nothing u.line)
  let (n, s) ← node true false fuel s
  let _ ← s.peek
  return some n

end Parsing

/-- The first document of a text; an empty text has none. Nothing at all if it is malformed. -/
def parse? (t : Text) : Option (Option Node) :=
  let ts := tokens t
  Parsing.document (4 * ts.length + 4) ⟨ts, [], []⟩

end DocAtlas.Yaml

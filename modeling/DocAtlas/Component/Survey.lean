/-
The survey of a file: every component in it with what is to be done about it. A component is
documented by a block inserted above its statement, or skipped for a stated reason. The interior
of a component is not surveyed for more; components in there are listed as nested.
-/
import DocAtlas.Component.Candidate
import DocAtlas.Component.Contract
import DocAtlas.Doc.Tags
import DocAtlas.Edit.Splice

namespace DocAtlas

/-- Choices for the documentation of a file. -/
structure DocOptions where
  wrappers : List Text
  /-- The time to stamp blocks with, in milliseconds since 1970. -/
  stamp : Option Int
  /-- Leave out components that are not known to take props. -/
  skipEmpty : Bool

/-- Why a component is left alone. -/
inductive SkipReason where
  | annotated | noProps | missingLocation | nested
deriving DecidableEq, Repr

namespace SkipReason

def name : SkipReason → Text
  | annotated => "annotated"
  | noProps => "no-props"
  | missingLocation => "missing-location"
  | nested => "nested"

end SkipReason

/-- A component with its contract. -/
structure ComponentInfo where
  name : Text
  kind : ComponentKind
  contract : Contract
  line : Nat
deriving DecidableEq, Repr

/-- A component left alone. -/
structure Skipped where
  name : Text
  line : Nat
  reason : SkipReason
deriving DecidableEq, Repr

/-- What the survey says about one component. -/
inductive Finding where
  | documented (info : ComponentInfo) (insertion : Insertion)
  | skipped (entry : Skipped)
deriving DecidableEq, Repr

namespace Finding

def component? : Finding → Option ComponentInfo
  | documented info _ => some info
  | skipped _ => none

def insertion? : Finding → Option Insertion
  | documented _ ins => some ins
  | skipped _ => none

def skipped? : Finding → Option Skipped
  | documented _ _ => none
  | skipped s => some s

end Finding

/-- What a survey works on: the tree, and the source the texts are read from, which may be shorter
than the one the tree was read from. -/
structure Survey where
  options : DocOptions
  tree : SyntaxTree
  src : Text

namespace Survey

variable (s : Survey)

def classifier : Classifier := ⟨s.options.wrappers, s.src⟩

/-- The blanks between the start of the line and an offset; nothing if anything else stands
there. -/
def lineIndent (src : Text) (offset : Nat) : Text :=
  let lead := ((src.take offset).reverse.takeWhile (· != Text.newline)).reverse
  if lead.all fun b => b == 32 || b == 9 then lead else []

/-- Where the documentation of an anchor goes; none if the anchor is empty or not in the
source. -/
def offset? (src : Text) (anchor : Node) : Option Nat :=
  if anchor.start < anchor.stop ∧ anchor.stop ≤ src.length then some anchor.start else none

/-- Whether a comment directly above the anchor is a documentation block of a component. -/
def isAnnotated (src : Text) (anchor : Cursor) : Bool :=
  (anchor.before.takeWhile Node.isComment).any fun c =>
    (Doc.Comment.parse? (c.text src)).any fun d => d.hasTag "component"

/-- What a block says about a component. -/
def factsOf (info : ComponentInfo) : Doc.Facts :=
  ⟨info.name, info.contract.param, info.contract.props.keys, info.contract.spread⟩

/-- The text inserted at an offset for a component. -/
def blockFor (info : ComponentInfo) (offset : Nat) : Text :=
  let pad := lineIndent s.src offset
  Doc.indent pad (Doc.render (factsOf info) s.options.stamp) ++ "\n" ++ pad

/-- The finding for a candidate with the function behind it. -/
def judge (cand : Candidate) (fn : Option Cursor) : Finding :=
  match offset? s.src cand.anchor.node with
  | none => .skipped ⟨cand.name, 0, .missingLocation⟩
  | some offset =>
    let line := s.tree.lineAt cand.anchor.node.start
    if isAnnotated s.src cand.anchor then .skipped ⟨cand.name, line, .annotated⟩
    else
      let contract := (fn.map fun f => Contract.ofFunction s.src f.node).getD .empty
      if s.options.skipEmpty && contract.props.size == 0 && !contract.spread then
        .skipped ⟨cand.name, line, .noProps⟩
      else
        let info : ComponentInfo := ⟨cand.name, cand.kind, contract, line⟩
        .documented info ⟨offset, s.blockFor info offset⟩

/-- Whether the candidate is a component inside a component. -/
def isNestedComponent (cand : Candidate) : Bool :=
  (cand.function? s.classifier).isSome && s.classifier.isNested cand.node

mutual

/-- The components at and below a node that lies inside a component, outermost ones only. -/
def nestedAt (above : List Frame) : Node → List Finding
  | .mk i cs =>
    match Candidate.at? s.classifier ⟨.mk i cs, above⟩ with
    | some cand =>
      if s.isNestedComponent cand then [.skipped ⟨cand.name, s.tree.lineAt i.start, .nested⟩]
      else nestedEach (.mk i cs) [] above cs
    | none => nestedEach (.mk i cs) [] above cs

/-- The same for the named children of `parent` after the siblings `before`. -/
def nestedEach (parent : Node) (before : List Node) (above : List Frame) : List Node → List Finding
  | [] => []
  | c :: cs =>
    (if c.isNamed then nestedAt (⟨parent, before⟩ :: above) c else []) ++ nestedEach parent (c :: before) above cs

end

/-- The components declared inside a component. -/
def nestedIn (fn : Option Cursor) : List Finding :=
  match fn with
  | none => []
  | some f => f.proper.flatMap fun c => s.nestedAt c.above c.node

mutual

/-- The findings at and below a node. -/
def findingsAt (above : List Frame) : Node → List Finding
  | .mk i cs =>
    match Candidate.at? s.classifier ⟨.mk i cs, above⟩ with
    | some cand =>
      match cand.function? s.classifier with
      | some fn => s.nestedIn fn ++ [s.judge cand fn]
      | none => findingsEach (.mk i cs) [] above cs
    | none =>
      if (Node.mk i cs).isFunction && s.classifier.isComponent (.mk i cs) then []
      else findingsEach (.mk i cs) [] above cs

/-- The findings below the named children of `parent` after the siblings `before`. -/
def findingsEach (parent : Node) (before : List Node) (above : List Frame) : List Node → List Finding
  | [] => []
  | c :: cs =>
    (if c.isNamed then findingsAt (⟨parent, before⟩ :: above) c else []) ++
      findingsEach parent (c :: before) above cs

end

/-- The findings of a file, in the order they were made. -/
def findings : List Finding := s.findingsAt [] s.tree.root

def components : List ComponentInfo := s.findings.filterMap Finding.component?

def skips : List Skipped := s.findings.filterMap Finding.skipped?

def insertions : List Insertion := s.findings.filterMap Finding.insertion?

end Survey

end DocAtlas

/-
Which functions are components. A function with an expression body is one if the body is markup or
a wrapped component; a function with a block is one if a return statement reached through if arms,
loop blocks and switch clauses returns such a value. A wrapped component is a call to a wrapper
from an allow-list whose first argument is a component or again wrapped.

The search goes down at most `maxDepth` steps; every rule of the classifier spends at least one.
-/
import DocAtlas.Component.Markup
import DocAtlas.Component.Function

namespace DocAtlas

/-- The bound on the steps of a classification. -/
def maxDepth : Nat := 256

/-- The wrappers whose first argument is taken for the wrapped component. -/
def defaultWrappers : List Text := ["memo", "forwardRef", "React.memo", "React.forwardRef"]

/-- The wrappers a classifier knows, and the source the node texts are read from. -/
structure Classifier where
  wrappers : List Text
  src : Text

namespace Classifier

variable (k : Classifier)

/-- Whether a call is to a wrapper. -/
def isWrapperCall (n : Node) : Bool := n.shape == .call && k.wrappers.contains (n.calleeName k.src)

/-- The first argument of a call, without parentheses. -/
def firstArgument? (call : Node) : Option Node :=
  ((call.child? "arguments").bind Node.firstProper?).bind Node.stripParens?

mutual

/-- Whether a function is a component, with `fuel` steps left. -/
def componentWithin : (fuel : Nat) → Node → Bool
  | 0, _ => false
  | fuel + 1, n =>
    match n.functionParts? with
    | none => false
    | some f =>
      if f.hasExprBody then f.body.isMarkup || wrappedWithin fuel f.body
      else f.body.proper.any fun s => returnsWithin fuel s

/-- Whether an expression is a wrapped component. -/
def wrappedWithin : (fuel : Nat) → Node → Bool
  | 0, _ => false
  | fuel + 1, e =>
    match e.stripParens? with
    | none => false
    | some call =>
      k.isWrapperCall call &&
        match firstArgument? call with
        | none => false
        | some arg =>
          if arg.isFunction then componentWithin fuel arg
          else arg.shape == .call && wrappedWithin fuel arg

/-- Whether a statement has a reachable return of markup or of a wrapped component. -/
def returnsWithin : (fuel : Nat) → Node → Bool
  | 0, _ => false
  | fuel + 1, s =>
    match s.shape with
    | .returnStmt =>
      match s.firstProper? with
      | none => false
      | some value => value.isMarkup || wrappedWithin fuel value
    | .ifStmt => (s.child? "consequence").any (armWithin fuel ·) || (s.child? "alternative").any (armWithin fuel ·)
    | .loop =>
      match s.child? "body" with
      | none => false
      | some body => body.shape == .block && body.proper.any fun t => returnsWithin fuel t
    | .switch =>
      match s.child? "body" with
      | none => false
      | some body => body.proper.any fun clause => clause.proper.any fun t => returnsWithin fuel t
    | _ => false

/-- Whether an arm of an if has such a return: a block, a lone return, a nested if, or an else
around one of those. -/
def armWithin : (fuel : Nat) → Node → Bool
  | 0, _ => false
  | fuel + 1, arm =>
    match arm.shape with
    | .block => arm.proper.any fun t => returnsWithin fuel t
    | .elseClause =>
      match arm.firstProper? with
      | none => false
      | some inner => armWithin fuel inner
    | .returnStmt | .ifStmt => returnsWithin fuel arm
    | _ => false

end

/-- Whether a function is a component. -/
def isComponent (n : Node) : Bool := k.componentWithin (maxDepth + 1) n

/-- Whether an expression is a wrapped component. -/
def isWrapped (e : Node) : Bool := k.wrappedWithin (maxDepth + 1) e

/-- The first argument of a call with its place, without parentheses. -/
def firstArgumentAt? (call : Cursor) : Option Cursor :=
  ((call.child? "arguments").bind Cursor.firstProper?).bind Cursor.stripParens?

/-- The function inside a chain of at most `fuel` wrapper calls. -/
def unwrapWithin : (fuel : Nat) → Cursor → Option Cursor
  | 0, _ => none
  | fuel + 1, e =>
    match e.stripParens? with
    | none => none
    | some call =>
      if k.isWrapperCall call.node then
        match firstArgumentAt? call with
        | none => none
        | some arg => if arg.node.isFunction then some arg else unwrapWithin fuel arg
      else none

/-- The function inside a chain of wrapper calls. -/
def wrappedFunction? (e : Cursor) : Option Cursor := k.unwrapWithin maxDepth e

/-- Whether a function around the node is itself a component. -/
def isNested (c : Cursor) : Bool := c.ancestors.any fun p => p.isFunction && k.isComponent p

end Classifier

end DocAtlas

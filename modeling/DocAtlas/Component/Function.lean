/-
The parts of a function: its parameters and its body, in whichever way it is written.
-/
import DocAtlas.Tree.Shape

namespace DocAtlas

/-- A function with a body. -/
structure FunctionParts where
  params : List Node
  body : Node

namespace FunctionParts

/-- Whether the body is an expression rather than a block. -/
def hasExprBody (f : FunctionParts) : Bool := f.body.shape != .block

end FunctionParts

namespace Node

/-- The parts of a function. An arrow may have a bare identifier instead of a parameter list. -/
def functionParts? (n : Node) : Option FunctionParts :=
  if n.isFunction then
    (n.child? "body").map fun body =>
      { body
        params :=
          match n.child? "parameter" with
          | some single => [single]
          | none => ((n.child? "parameters").map proper).getD [] }
  else none

mutual

/-- The pattern a parameter binds, without default values and type annotations. -/
def bindingPattern? : Node → Option Node
  | mk i cs =>
    if i.kind == "required_parameter" || i.kind == "optional_parameter" then bindingField? "pattern" cs
    else if i.kind == "assignment_pattern" then bindingField? "left" cs
    else some (mk i cs)

/-- The pattern bound by the first node with a role. -/
def bindingField? (f : String) : List Node → Option Node
  | [] => none
  | c :: cs => if c.hasField f then bindingPattern? c else bindingField? f cs

end

/-- The name a call goes by: `name` or `object.property`, and nothing for anything more complex. -/
def calleeName (call : Node) (src : Text) : Text :=
  match (call.child? "function").bind stripParens? with
  | none => []
  | some callee =>
    match callee.shape with
    | .identifier => callee.text src
    | .member =>
      match callee.child? "object", callee.child? "property" with
      | some obj, some prop =>
        if obj.shape == .identifier then obj.text src ++ "." ++ prop.text src else []
      | _, _ => []
    | _ => []

end Node

end DocAtlas

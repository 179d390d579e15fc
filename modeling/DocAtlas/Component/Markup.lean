/-
Markup-valued expressions: those that can evaluate to an element, a fragment or text, possibly
through the branches of a conditional, the operands of a logical operator, the operands of a comma
or parentheses.
-/
import DocAtlas.Tree.Shape

namespace DocAtlas.Node

mutual

/-- Whether the expression can evaluate to markup. -/
def isMarkup : Node → Bool
  | mk i cs =>
    match Shape.ofKind i.kind with
    | .jsx | .jsxText => true
    | .ternary => fieldIsMarkup "consequence" cs || fieldIsMarkup "alternative" cs
    | .binary => (mk i cs).isLogical && (fieldIsMarkup "left" cs || fieldIsMarkup "right" cs)
    | .sequence => anyIsMarkup cs
    | .parenthesized => firstIsMarkup cs
    | _ => false

/-- Whether the first node with a role can. -/
def fieldIsMarkup (f : String) : List Node → Bool
  | [] => false
  | c :: cs => if c.hasField f then isMarkup c else fieldIsMarkup f cs

/-- Whether some proper node of the list can. -/
def anyIsMarkup : List Node → Bool
  | [] => false
  | c :: cs => (c.isProper && isMarkup c) || anyIsMarkup cs

/-- Whether the first proper node of the list can. -/
def firstIsMarkup : List Node → Bool
  | [] => false
  | c :: cs => if c.isProper then isMarkup c else firstIsMarkup cs

end

end DocAtlas.Node

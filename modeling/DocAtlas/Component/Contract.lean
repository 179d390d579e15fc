/-
The prop contract of a component, inferred from its first parameter. A destructuring parameter
contributes its keys; a plain parameter contributes the keys of every pattern it is destructured
with in the body. In both cases reads of `param.key` and spreads of the parameter in the body
count too.
-/
import DocAtlas.Component.Function
import DocAtlas.Component.PropSet

namespace DocAtlas

/-- Something the code does with its props. -/
inductive PropUse where
  /-- A key is read. -/
  | key (name : Text)
  /-- The props not listed are captured, under a name unless the binding is a pattern. -/
  | rest (name : Option Text)
  /-- All props are spread. -/
  | spread
deriving DecidableEq, Repr

/-- What is known of the props of a component. -/
structure Contract where
  param : Text
  props : PropSet
  /-- Whether props beyond the listed ones are accepted. -/
  spread : Bool
deriving DecidableEq, Repr

namespace PropUse

/-- The key a property of a pattern reads, if it is known. -/
def keyOf? (key : Node) (src : Text) : Option Text :=
  match key.kind with
  | "property_identifier" | "identifier" | "number" => some (key.text src)
  | "string" => key.stringContent? src
  | "computed_property_name" => key.firstProper?.bind fun e => e.stringContent? src
  | _ => none

/-- What one property of a destructuring pattern does. -/
def ofProperty? (src : Text) (prop : Node) : Option PropUse :=
  match prop.kind with
  | "shorthand_property_identifier_pattern" => some (key (prop.text src))
  | "pair_pattern" => ((prop.child? "key").bind fun k => keyOf? k src).map key
  | "object_assignment_pattern" =>
    match prop.child? "left" with
    | some left =>
      if left.kind == "shorthand_property_identifier_pattern" then some (key (left.text src)) else none
    | none => none
  | "rest_pattern" =>
    match prop.firstProper? with
    | some target => some (rest (if target.shape == .identifier then some (target.text src) else none))
    | none => some (rest none)
  | _ => none

/-- What a destructuring pattern does. -/
def ofPattern (src : Text) (pattern : Node) : List PropUse := pattern.proper.filterMap (ofProperty? src)

/-- Whether a node is an identifier spelled `param`. -/
def isParam (src param : Text) (n : Node) : Bool := n.shape == .identifier && n.text src == param

/-- The pattern of a declarator that destructures `param`. -/
def destructured? (src param : Text) (n : Node) : Option Node :=
  if n.shape == .declarator then
    match (n.child? "value").bind Node.stripParens?, n.child? "name" with
    | some value, some pattern =>
      if isParam src param value && pattern.shape == .objectPattern then some pattern else none
    | _, _ => none
  else none

/-- What a node does with `param` directly: a member read, a subscript read or a spread. -/
def ofAccess? (src param : Text) (n : Node) : Option PropUse :=
  match n.shape with
  | .member =>
    match n.child? "object", n.child? "property" with
    | some obj, some prop =>
      if isParam src param obj && prop.kind == "property_identifier" then some (key (prop.text src)) else none
    | _, _ => none
  | .subscript =>
    match n.child? "object", n.child? "index" with
    | some obj, some index =>
      if isParam src param obj then (index.stringContent? src).map key else none
    | _, _ => none
  | .spread =>
    match n.firstProper? with
    | some target => if isParam src param target then some spread else none
    | none => none
  | _ => none

/-- What the patterns in a body do that destructure `param`. -/
def ofDestructuring (src param : Text) (body : Node) : List PropUse :=
  (body.namedPreorder.filterMap (destructured? src param)).flatMap (ofPattern src)

/-- What the reads and spreads of `param` in a body do. -/
def ofBody (src param : Text) (body : Node) : List PropUse := body.namedPreorder.filterMap (ofAccess? src param)

end PropUse

namespace Contract

/-- The contract of a component nothing is known of. -/
def empty : Contract := ⟨Doc.unnamedParam, .empty, false⟩

/-- The contract after one more use. -/
def use (c : Contract) : PropUse → Contract
  | .key name => { c with props := c.props.add name }
  | .rest none => { c with spread := true }
  | .rest (some name) => { c with props := c.props.addRest name, spread := true }
  | .spread => { c with spread := true }

/-- The parameter name and the uses of a function whose first parameter binds `pattern`. -/
def usesOf (src : Text) (pattern body : Node) : Text × List PropUse :=
  match pattern.shape with
  | .identifier =>
    let param := pattern.text src
    (param, PropUse.ofDestructuring src param body ++ PropUse.ofBody src param body)
  | .objectPattern =>
    (Doc.unnamedParam, PropUse.ofPattern src pattern ++ PropUse.ofBody src Doc.unnamedParam body)
  | _ => (Doc.unnamedParam, PropUse.ofBody src Doc.unnamedParam body)

/-- The contract of a function. Only the first parameter counts. -/
def ofFunction (src : Text) (n : Node) : Contract :=
  match n.functionParts? with
  | none => empty
  | some f =>
    match f.params.head?.bind Node.bindingPattern? with
    | none => empty
    | some pattern =>
      let (param, uses) := usesOf src pattern f.body
      uses.foldl use { empty with param }

end Contract

end DocAtlas

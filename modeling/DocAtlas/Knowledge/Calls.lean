/-
The calls of a file, with what they are given and where they stand.
-/
import DocAtlas.Knowledge.Symbols
import DocAtlas.Tree.Shape

namespace DocAtlas

namespace Node

mutual

/-- The node inside any number of parentheses, comments not skipped. -/
def innermost : Node → Node
  | mk i cs =>
    if i.kind == "parenthesized_expression" then (innermostOf? cs).getD (mk i cs) else mk i cs

/-- The first named node of a list, innermost. -/
def innermostOf? : List Node → Option Node
  | [] => none
  | c :: cs => if c.isNamed then some (innermost c) else innermostOf? cs

end

end Node

namespace CallFact

/-- The context of calls outside any named function. -/
def globalContext : Text := "global"

/-- The type of an expression, by its kind of node. -/
def expressionType? : String → Option Text
  | "string" => some "StringLiteral"
  | "template_string" => some "TemplateLiteral"
  | "number" => some "NumericLiteral"
  | "true" | "false" => some "BooleanLiteral"
  | "null" => some "NullLiteral"
  | "regex" => some "RegExpLiteral"
  | "arrow_function" => some "ArrowFunctionExpression"
  | "function_expression" | "function" | "generator_function" => some "FunctionExpression"
  | "object" => some "ObjectExpression"
  | "array" => some "ArrayExpression"
  | "call_expression" => some "CallExpression"
  | "new_expression" => some "NewExpression"
  | "member_expression" | "subscript_expression" => some "MemberExpression"
  | "unary_expression" => some "UnaryExpression"
  | "update_expression" => some "UpdateExpression"
  | "ternary_expression" => some "ConditionalExpression"
  | "assignment_expression" => some "AssignmentExpression"
  | "spread_element" => some "SpreadElement"
  | "jsx_element" | "jsx_self_closing_element" => some "JSXElement"
  | "await_expression" => some "AwaitExpression"
  | "yield_expression" => some "YieldExpression"
  | "this" => some "ThisExpression"
  | "super" => some "Super"
  | "class" => some "ClassExpression"
  | "sequence_expression" => some "SequenceExpression"
  | "as_expression" => some "TSAsExpression"
  | "satisfies_expression" => some "TSSatisfiesExpression"
  | "non_null_expression" => some "TSNonNullExpression"
  | _ => none

/-- A kind of node in words without underscores: each word begins with a capital. -/
def camelKind (kind : String) : Text :=
  (Text.splitOn 95 (Text.ofString kind)).flatMap fun
    | [] => []
    | b :: rest => (if 97 ≤ b && b ≤ 122 then b - 32 else b) :: rest

/-- Whether an element has an opening tag without a name. -/
def isFragment (n : Node) : Bool := (n.child? "open_tag").any fun t => (t.child? "name").isNone

/-- The name of an argument, or the type of its expression. -/
def argumentName (src : Text) (argument : Node) : Text :=
  let n := argument.innermost
  match n.kind with
  | "identifier" | "undefined" => n.text src
  | "augmented_assignment_expression" => "AssignmentExpression"
  | "binary_expression" => if n.isLogical then "LogicalExpression" else "BinaryExpression"
  | kind =>
    if kind == "jsx_element" && isFragment n then "JSXFragment"
    else (expressionType? kind).getD (camelKind kind)

/-- The name a function without one is bound to, given the node around it; empty if to none. -/
def bindingName (src : Text) (parent : Option Node) : Text :=
  match parent with
  | none => []
  | some p =>
    let name :=
      match p.kind with
      | "variable_declarator" =>
        (p.child? "name").bind fun n => if n.kind == "identifier" then some n else none
      | "field_definition" => p.child? "property"
      | "public_field_definition" => p.child? "name"
      | _ => none
    (name.map fun n => n.text src).getD []

/-- The name of the nearest named function among the nodes around a call. A function without a
name counts as named if it is bound to a variable or a class field. -/
def contextOf (src : Text) : List Node → Text
  | [] => globalContext
  | p :: above =>
    match p.kind with
    | "function_declaration" | "generator_function_declaration" | "method_definition" =>
      match p.child? "name" with
      | some name => name.text src
      | none => contextOf src above
    | "function_expression" | "function" | "generator_function" | "arrow_function" =>
      match p.child? "name" with
      | some name => name.text src
      | none =>
        let bound := bindingName src above.head?
        if bound.isEmpty then contextOf src above else bound
    | _ => contextOf src above

/-- The record of a match, with the byte it starts at. -/
def ofMatch? (tree : SyntaxTree) (m : Match) : Option (Nat × CallFact) :=
  match m.get? "call.name", m.get? "call.expression" with
  | some name, some call =>
    some (call.node.start,
      { name := name.node.text tree.source
        arguments :=
          some (((m.get? "call.arguments").map fun a => a.node.proper.map (argumentName tree.source)).getD [])
        context := contextOf tree.source call.ancestors
        line := tree.lineAt call.node.start
        endLine := tree.lineAt call.node.stop })
  | _, _ => none

/-- The calls of a tree. -/
def extract (g : Grammar) (tree : SyntaxTree) : List CallFact :=
  inDocumentOrder ((QueryKind.calls.run g tree.root).filterMap (ofMatch? tree))

end CallFact

end DocAtlas

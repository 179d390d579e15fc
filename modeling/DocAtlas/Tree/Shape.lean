/-
The shapes of code the component rules reason about. The grammars have many more kinds of node;
all others are one shape.
-/
import DocAtlas.Tree.Cursor

namespace DocAtlas

inductive Shape where
  | other | jsx | jsxText | ternary | binary | sequence | parenthesized | call
  | arrow | functionExpr | functionDecl | method
  | block | returnStmt | ifStmt | elseClause | loop | switch
  | declarator | declaration | exportStmt | comment
  | identifier | member | subscript | spread | objectPattern | string
deriving DecidableEq, Repr

namespace Shape

/-- The shape of a kind of node. -/
def ofKind : String → Shape
  | "jsx_element" | "jsx_self_closing_element" | "jsx_fragment" => jsx
  | "jsx_text" => jsxText
  | "ternary_expression" => ternary
  | "binary_expression" => binary
  | "sequence_expression" => sequence
  | "parenthesized_expression" => parenthesized
  | "call_expression" => call
  | "arrow_function" => arrow
  | "function_expression" | "function" | "generator_function" => functionExpr
  | "function_declaration" | "generator_function_declaration" => functionDecl
  | "method_definition" => method
  | "statement_block" => block
  | "return_statement" => returnStmt
  | "if_statement" => ifStmt
  | "else_clause" => elseClause
  | "for_statement" | "for_in_statement" | "while_statement" | "do_statement" => loop
  | "switch_statement" => switch
  | "variable_declarator" => declarator
  | "lexical_declaration" | "variable_declaration" => declaration
  | "export_statement" => exportStmt
  | "comment" => comment
  | "identifier" => identifier
  | "member_expression" => member
  | "subscript_expression" => subscript
  | "spread_element" => spread
  | "object_pattern" => objectPattern
  | "string" => string
  | _ => other

/-- Shapes with a parameter list and a body. -/
def isFunction : Shape → Bool
  | arrow | functionExpr | functionDecl | method => true
  | _ => false

end Shape

namespace Node

def shape (n : Node) : Shape := Shape.ofKind n.kind

/-- Whether the node has a parameter list and a body by its kind. -/
def isFunction (n : Node) : Bool := n.shape.isFunction

/-- The operators whose value is one of their operands. -/
def isLogical (n : Node) : Bool :=
  match n.child? "operator" with
  | some op => op.kind == "&&" || op.kind == "||" || op.kind == "??"
  | none => false

mutual

/-- The node inside any number of parentheses. -/
def stripParens? : Node → Option Node
  | mk i cs => if Shape.ofKind i.kind == .parenthesized then stripFirst? cs else some (mk i cs)

/-- The first proper node of a list without its parentheses. -/
def stripFirst? : List Node → Option Node
  | [] => none
  | c :: cs => if c.isProper then stripParens? c else stripFirst? cs

end

/-- The value of a string literal, as written between its quotes. -/
def stringContent? (n : Node) (src : Text) : Option Text :=
  if n.shape == .string then
    let raw := n.text src
    if raw.length < 2 then none else some (raw.tail.dropLast)
  else none

end Node

namespace Cursor

mutual

/-- The node inside any number of parentheses, with its place. -/
def stripParensAt (above : List Frame) : Node → Option Cursor
  | .mk i cs =>
    if Shape.ofKind i.kind == .parenthesized then stripFirstAt (.mk i cs) [] above cs
    else some ⟨.mk i cs, above⟩

/-- The first proper child without its parentheses, with its place. -/
def stripFirstAt (parent : Node) (before : List Node) (above : List Frame) : List Node → Option Cursor
  | [] => none
  | c :: cs =>
    if c.isProper then stripParensAt (⟨parent, before⟩ :: above) c
    else stripFirstAt parent (c :: before) above cs

end

/-- The node inside any number of parentheses. -/
def stripParens? (c : Cursor) : Option Cursor := stripParensAt c.above c.node

end Cursor

end DocAtlas

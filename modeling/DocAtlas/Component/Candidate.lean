/-
Where a component may be declared: a function declaration, a variable bound to a function or to a
wrapper call, and a default export of either.
-/
import DocAtlas.Component.Classifier

namespace DocAtlas

/-- The form of declaration a component was found in. -/
inductive ComponentKind where
  | function | arrow | wrapped | defaultExport
deriving DecidableEq, Repr

namespace ComponentKind

def name : ComponentKind → Text
  | function => "function"
  | arrow => "arrow"
  | wrapped => "wrapped"
  | defaultExport => "default-export"

end ComponentKind

/-- The name of a default export that has none. -/
def unnamedDefault : Text := "DefaultExportComponent"

/-- A declaration that may hold a component. -/
structure Candidate where
  name : Text
  kind : ComponentKind
  /-- The function, or the wrapper call around it. -/
  node : Cursor
  /-- The outermost statement, above which the documentation goes. -/
  anchor : Cursor

namespace Candidate

/-- The export statement directly around a declaration, or the declaration. -/
def exportAnchor (c : Cursor) : Cursor :=
  match c.parent? with
  | some p => if p.node.shape == .exportStmt then p else c
  | none => c

/-- The statement a variable declarator belongs to. -/
def declaratorAnchor (c : Cursor) : Cursor :=
  match c.parent? with
  | some p => if p.node.shape == .declaration then exportAnchor p else c
  | none => c

/-- The text of a function's own name. -/
def ownName? (src : Text) (n : Node) : Option Text := (n.child? "name").map fun m => m.text src

/-- A candidate at a function declaration. -/
def ofFunction? (k : Classifier) (c : Cursor) : Option Candidate :=
  (ownName? k.src c.node).map fun name => ⟨name, .function, c, exportAnchor c⟩

/-- The kind of a variable bound to a value of some shape. -/
def boundKind? : Shape → Option ComponentKind
  | .arrow => some .arrow
  | .functionExpr => some .function
  | .call => some .wrapped
  | _ => none

/-- A candidate at a variable declarator. -/
def ofDeclarator? (k : Classifier) (c : Cursor) : Option Candidate :=
  match c.node.child? "name", (c.child? "value").bind Cursor.stripParens? with
  | some name, some value =>
    if name.shape == .identifier then
      (boundKind? value.node.shape).map fun kind => ⟨name.text k.src, kind, value, declaratorAnchor c⟩
    else none
  | _, _ => none

/-- A candidate at an export statement with a value. -/
def ofExport? (k : Classifier) (c : Cursor) : Option Candidate :=
  match (c.child? "value").bind Cursor.stripParens? with
  | none => none
  | some value =>
    if value.node.isFunction then
      some ⟨(ownName? k.src value.node).getD unnamedDefault, .defaultExport, value, c⟩
    else if value.node.shape == .call then
      let name := (k.wrappedFunction? value).bind fun f => ownName? k.src f.node
      some ⟨name.getD unnamedDefault, .wrapped, value, c⟩
    else none

/-- The candidate at a node. -/
def at? (k : Classifier) (c : Cursor) : Option Candidate :=
  match c.node.shape with
  | .functionDecl => ofFunction? k c
  | .declarator => ofDeclarator? k c
  | .exportStmt => ofExport? k c
  | _ => none

/-- The function behind a candidate that is a component. The inner `none` is a wrapper chain too
long to be followed to its function. -/
def function? (k : Classifier) (cand : Candidate) : Option (Option Cursor) :=
  if cand.kind == .wrapped then
    if k.isWrapped cand.node.node then some (k.wrappedFunction? cand.node) else none
  else if k.isComponent cand.node.node then some (some cand.node) else none

end Candidate

end DocAtlas

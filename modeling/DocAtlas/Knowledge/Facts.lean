/-
What is recorded of a source file: its declarations, imports, exports and calls. Lines count from
one and are inclusive.
-/
import DocAtlas.Text.Table

namespace DocAtlas

/-- A declaration. -/
structure SymbolFact where
  kind : Text
  name : Text
  startLine : Int
  endLine : Int
  exported : Bool
  /-- The keyword of a variable. -/
  declaration : Text
  params : List Text
  async : Bool
  generator : Bool
  superClass : Text
  methods : List Text
  properties : List Text
deriving DecidableEq, Repr

/-- One binding of an import: the name here and the name there. -/
structure Specifier where
  type : Text
  localName : Text
  imported : Text
deriving DecidableEq, Repr

/-- An import statement. -/
structure ImportFact where
  source : Text
  specifiers : Listing Specifier
  startLine : Int
  endLine : Int
deriving DecidableEq, Repr

/-- An exported name. -/
structure ExportFact where
  name : Text
  /-- What it is called in the file; empty if it has no name there. -/
  localName : Text
  isDefault : Bool
  /-- The module it is passed on from; empty if it is the file's own. -/
  source : Text
  line : Int
deriving DecidableEq, Repr

/-- A call. -/
structure CallFact where
  /-- The callee, or the property of a member callee. -/
  name : Text
  /-- For each argument its name, or the type of its expression. -/
  arguments : Listing Text
  /-- The nearest function around the call that has a name. -/
  context : Text
  line : Int
  endLine : Int
deriving DecidableEq, Repr

/-- All facts of a file. -/
structure FileFacts where
  /-- Relative to the root of the scan, with slashes. -/
  path : Text
  language : Text
  symbols : List SymbolFact
  imports : List ImportFact
  exports : List ExportFact
  calls : List CallFact
deriving DecidableEq, Repr

end DocAtlas

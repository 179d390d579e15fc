/-
The tools a client can call, and what it is told of them.
-/
import DocAtlas.Json.Value

namespace DocAtlas

inductive Tool where
  | queryFile | traceSymbol | listComponents | previewDocs
deriving DecidableEq, Repr

/-- A parameter of a tool. -/
structure ToolParameter where
  name : Text
  type : Text
  description : Text
  required : Bool

namespace Tool

def name : Tool → Text
  | queryFile => "query_file"
  | traceSymbol => "trace_symbol"
  | listComponents => "list_components"
  | previewDocs => "preview_docs"

def description : Tool → Text
  | queryFile => "Symbols, imports, exports, references and calls recorded for one file of the knowledge base."
  | traceSymbol => "Where a symbol is defined, which files call it and which files import it."
  | listComponents =>
    "React components found in a file with their inferred props, plus the ones left undocumented and why " ++
      "(annotated, no-props, nested, missing-location). Does not modify the file."
  | previewDocs =>
    "Unified diff of the JSDoc blocks the documentation pass would insert into a file. Does not modify the file."

/-- The parameters in byte order of their names. -/
def parameters : Tool → List ToolParameter
  | queryFile => [⟨"file", "string", "Path relative to the project root, e.g. src/App.jsx", true⟩]
  | traceSymbol =>
    [⟨"detailed", "boolean", "Include the source text of each definition", false⟩,
     ⟨"symbol", "string", "Symbol name, e.g. formatDate", true⟩]
  | listComponents => [⟨"file", "string", "Path relative to the project root", true⟩]
  | previewDocs => [⟨"file", "string", "Path relative to the project root", true⟩]

/-- All tools, in byte order of their names. -/
def all : List Tool := [listComponents, previewDocs, queryFile, traceSymbol]

/-- The tool of a name. -/
def ofName? (n : Text) : Option Tool := all.find? fun t => t.name == n

/-- What a client may assume of every tool: nothing. -/
def hints : Json :=
  .obj [("readOnlyHint", .bool false), ("destructiveHint", .bool true), ("idempotentHint", .bool false),
    ("openWorldHint", .bool true)]

/-- The shape of a tool's arguments. -/
def schema (t : Tool) : Json :=
  .obj [("type", .str "object"),
    ("properties", .obj (t.parameters.map fun p =>
      (p.name, .obj [("description", .str p.description), ("type", .str p.type)]))),
    ("required", .strs ((t.parameters.filter ToolParameter.required).map ToolParameter.name))]

def toJson (t : Tool) : Json :=
  .obj [("annotations", hints), ("description", .str t.description), ("inputSchema", t.schema), ("name", .str t.name)]

end Tool

end DocAtlas

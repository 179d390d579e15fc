/-
A knowledge base on disk: one document for each table, and the manifest of the run. Each document
is replaced as a whole, in a fixed order, so a failing save leaves every document either as it was
or complete. Reading needs the first three documents; the others may be missing.
-/
import DocAtlas.Fault
import DocAtlas.Files.Disk
import DocAtlas.Json.Reader
import DocAtlas.Json.Writer
import DocAtlas.Knowledge.BaseJson
import DocAtlas.Time.Instant

namespace DocAtlas.Archive

/-! ## Saving -/

/-- The documents with their names, in the order they are written. -/
def documents (k : KnowledgeBase) (m : Manifest) : List (Text × Json) :=
  [("fileSymbols.json", k.symbolsJson), ("fileImports.json", k.importsJson),
   ("symbolReferences.json", k.referencesJson), ("functionCalls.json", k.callsJson),
   ("fileExports.json", k.exportsJson), ("symbolIndex.json", k.indexJson), ("manifest.json", m.toJson)]

/-- The text of a document. -/
def documentText (v : Json) : Text := v.pretty ++ "\n"

/-- The name a document is written under before it takes its place. -/
def besides (name : Text) : Text := "." ++ name ++ ".0"

/-- Replaces one document. -/
def write (d : Disk) (dir name : Text) (v : Json) : Except Fault Disk :=
  match d.replaceFile (Path.join [dir, name]) (Path.join [dir, besides name]) (documentText v) 0o644 with
  | .ok d => .ok d
  | .error e => .error (.during ("write " ++ name) (.os e))

/-- Replaces documents until one fails; the disk afterwards, and the fault if there was one. -/
def writeAll (d : Disk) (dir : Text) : List (Text × Json) → Disk × Option Fault
  | [] => (d, none)
  | (name, v) :: docs =>
    match write d dir name v with
    | .ok d => writeAll d dir docs
    | .error f => (d, some f)

/-- Saves a base in a directory, which is made if needed. -/
def save (d : Disk) (dir : Text) (k : KnowledgeBase) (m : Manifest) : Disk × Option Fault :=
  match d.mkdirAll dir with
  | .error e => (d, some (.during "create knowledge dir" (.os e)))
  | .ok d => writeAll d dir (documents k m)

/-! ## Loading -/

/-- A document; none if it is missing. -/
def read? {α : Type} (d : Disk) (dir name : Text) (decode : Json → Except Fault α) : Except Fault (Option α) :=
  match d.readFile (Path.join [dir, name]) with
  | .error e => if e.errno = .notFound then .ok none else .error (.os e)
  | .ok content =>
    match Json.parse? content with
    | none => .error (.during ("decode " ++ name) .jsonSyntax)
    | some v =>
      match decode v with
      | .ok x => .ok (some x)
      | .error f => .error (.during ("decode " ++ name) f)

/-- A table of lists. -/
def lists {α : Type} (item : Json → Option α) (v : Json) : Except Fault (Table (Listing α)) :=
  match Json.table? (Json.list? item) v with
  | some t => .ok t
  | none => .error .jsonShape

/-- A document that must be there. -/
def required {α : Type} (d : Disk) (dir name : Text) (decode : Json → Except Fault α) : Except Fault α := do
  match ← read? d dir name decode with
  | some x => return x
  | none => throw (.notGenerated name dir)

/-- The members of a manifest that give its instant. -/
def instantsIn : Json → List Json
  | .obj members => (members.filter fun m => Json.foldedName m.1 == Json.foldedName "generatedAt").map Prod.snd
  | _ => []

/-- Refuses what is not an instant. -/
def checkInstant : Json → Except Fault Unit
  | .null => .ok ()
  | .str t =>
    match Instant.check t with
    | .ok _ => .ok ()
    | .error c => .error (.plain (c.message t))
  | _ => .error (.plain "Time.UnmarshalJSON: input is not a JSON string")

/-- A manifest. A malformed instant counts before anything else that is wrong. -/
def manifest (v : Json) : Except Fault Manifest := do
  (instantsIn v).forM checkInstant
  match Json.record? ⟨[], [], [], none⟩
      [Json.RecordField.plain "runId" Json.text? fun x (m : Manifest) => { m with runId := x },
       .plain "generatedAt" Json.text? fun x m => { m with generatedAt := x },
       .plain "root" Json.text? fun x m => { m with root := x },
       .whole "files" Json.texts? fun x m => { m with files := x }] v with
  | some m => return m
  | none => throw .jsonShape

/-- The index. -/
def index (v : Json) : Except Fault (Table IndexedSymbol) :=
  match Json.table? IndexedSymbol.ofJson? v with
  | some t => .ok t
  | none => .error .jsonShape

/-- Loads the base saved in a directory, and its manifest if there is one. -/
def load (d : Disk) (dir : Text) : Except Fault (KnowledgeBase × Option Manifest) := do
  let symbols ← required d dir "fileSymbols.json" (lists SymbolFact.ofJson?)
  let imports ← required d dir "fileImports.json" (lists ImportFact.ofJson?)
  let references ← required d dir "symbolReferences.json" (lists Reference.ofJson?)
  let calls ← read? d dir "functionCalls.json" (lists CallFact.ofJson?)
  let exports ← read? d dir "fileExports.json" (lists ExportFact.ofJson?)
  let entries ← read? d dir "symbolIndex.json" index
  let m ← read? d dir "manifest.json" manifest
  return (⟨entries.getD [], symbols, imports, exports.getD [], references, calls.getD []⟩, m)

end DocAtlas.Archive

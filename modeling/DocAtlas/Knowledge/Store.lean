/-
A store answers questions about a saved knowledge base. It holds what the last successful load
read, the most recent traces and the files snippets were taken from; loading again drops both. A
failing load changes nothing.
-/
import DocAtlas.Files.FileCache
import DocAtlas.Knowledge.Archive
import DocAtlas.Knowledge.View

namespace DocAtlas

/-- What a trace is asked for. -/
structure TraceQuery where
  symbol : Text
  /-- Whether each definition carries its source lines. -/
  detailed : Bool
deriving DecidableEq, Repr

/-- The most recent traces, the latest first. -/
structure TraceCache where
  capacity : Nat
  traces : List (TraceQuery × Trace)
deriving Repr

namespace TraceCache

/-- A trace, which thereby becomes the latest. -/
def get? (c : TraceCache) (q : TraceQuery) : Option (Trace × TraceCache) :=
  (c.traces.find? fun e => e.1 == q).map fun e =>
    (e.2, { c with traces := e :: c.traces.filter fun f => f.1 != q })

/-- Adds a trace, in place of the oldest if the cache is full. -/
def add (c : TraceCache) (q : TraceQuery) (t : Trace) : TraceCache :=
  { c with traces := ((q, t) :: c.traces.filter fun f => f.1 != q).take c.capacity }

end TraceCache

/-- The limits of a store, and the root of the sources if it is not the recorded one. -/
structure StoreSettings where
  root : Text
  maxTraces : Int
  maxFiles : Int

namespace StoreSettings

def default : StoreSettings := ⟨[], 0, 0⟩

/-- The most traces kept: 256 unless another number is given. -/
def traceCapacity (s : StoreSettings) : Nat := if 0 < s.maxTraces then s.maxTraces.toNat else 256

/-- The most files kept: 128 unless another number is given. -/
def fileLimit (s : StoreSettings) : Int := if 0 < s.maxFiles then s.maxFiles else 128

end StoreSettings

/-- An open store. -/
structure Store where
  dir : Text
  settings : StoreSettings
  base : KnowledgeBase
  manifest : Option Manifest
  /-- Where the sources are. -/
  root : Text
  traces : TraceCache
  files : FileCache

namespace Store

/-- Where the sources of a base are: where the settings or else the manifest say, or above its
directory. -/
def rootOf (dir : Text) (s : StoreSettings) (m : Option Manifest) : Text :=
  let recorded := if s.root.isEmpty then (m.map Manifest.root).getD [] else s.root
  if recorded.isEmpty then Path.parent (Path.clean dir) else recorded

/-- Opens the base saved in a directory. -/
def open_ (d : Disk) (dir : Text) (s : StoreSettings) : Except Fault (Store × List LogRecord) := do
  let (base, manifest) ← Archive.load d dir
  let store : Store :=
    { dir
      settings := s
      base
      manifest
      root := rootOf dir s manifest
      traces := ⟨s.traceCapacity, []⟩
      files := FileCache.empty s.fileLimit }
  return (store, [⟨.debug, "knowledge loaded", [("dir", .text dir), ("files", .int base.symbols.length)]⟩])

/-- Loads the base again. -/
def reload (d : Disk) (s : Store) : Except Fault (Store × List LogRecord) := open_ d s.dir s.settings

/-- The files of the base. -/
def fileNames (s : Store) : List Text := s.base.files

/-- What is recorded of a file. -/
def view? (s : Store) (path : Text) : Option FileView := s.base.view? path

/-- A definition with its source lines, as far as they can be had. -/
def detail (d : Disk) (root symbol : Text) (c : FileCache) (decl : Text × SymbolFact) :
    Definition × List LogRecord × FileCache :=
  let r := c.fetchLines d (Path.join [root, decl.1]) decl.2.startLine decl.2.endLine
  match r.result with
  | .ok snippet => (⟨decl.1, decl.2, snippet⟩, r.log, r.cache)
  | .error f =>
    let complaint : LogRecord :=
      ⟨.warn, "snippet unavailable",
        [("file", .text decl.1), ("symbol", .text symbol), ("error", .text f.message)]⟩
    (⟨decl.1, decl.2, []⟩, r.log ++ [complaint], r.cache)

/-- Definitions with their source lines. -/
def detailAll (d : Disk) (root symbol : Text) :
    FileCache → List (Text × SymbolFact) → List Definition × List LogRecord × FileCache
  | c, [] => ([], [], c)
  | c, decl :: decls =>
    let (definition, log, c) := detail d root symbol c decl
    let (definitions, more, c) := detailAll d root symbol c decls
    (definition :: definitions, log ++ more, c)

/-- The trace of a symbol. A name nothing declares is a fault. -/
def trace (d : Disk) (s : Store) (q : TraceQuery) : Except Fault Trace × List LogRecord × Store :=
  match s.traces.get? q with
  | some (t, traces) => (.ok t, [], { s with traces })
  | none =>
    match s.base.declarations q.symbol with
    | [] => (.error (.symbolNotFound q.symbol), [], s)
    | decls =>
      let (definitions, log, files) :=
        if q.detailed then detailAll d s.root q.symbol s.files decls
        else (decls.map fun (file, symbol) => ⟨file, symbol, []⟩, [], s.files)
      let t := s.base.traceWith q.symbol definitions
      (.ok t, log, { s with traces := s.traces.add q t, files })

end Store

end DocAtlas

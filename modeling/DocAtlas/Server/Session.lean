/-
A server answers calls of tools about one project. The knowledge base is opened when a call first
needs it, so the server may start before there is one; files are read anew for every call and none
outside the project root is read. Every call of a tool is logged.
-/
import DocAtlas.Component.Documenter
import DocAtlas.Component.ReportJson
import DocAtlas.Edit.Patch
import DocAtlas.Knowledge.Store
import DocAtlas.Server.CallLog
import DocAtlas.Server.Tool

namespace DocAtlas

/-- The project of a server. -/
structure ServerSettings where
  /-- An absolute path. -/
  root : Text
  /-- Where the knowledge base is saved. -/
  knowledgeDir : Text
  options : DocOptions

/-- The state of a server. -/
structure Server where
  settings : ServerSettings
  parsers : Parsers
  calls : Option CallLog
  store : Option Store

/-- What a server did: an outcome, what it logged, and the files and the state afterwards. -/
structure Served (α : Type) where
  outcome : α
  log : List LogRecord
  disk : Disk
  server : Server

/-! ## Arguments -/

namespace Arguments

/-- A text that must be given; otherwise what is wrong. -/
def text (args : Arguments) (key : Text) : Except Text Text :=
  match Json.lookup? key args with
  | some (.str s) => .ok s
  | some _ => .error ("argument " ++ Text.quoted key ++ " is not a string")
  | none => .error ("required argument " ++ Text.quoted key ++ " not found")

/-- Whether a number is zero. -/
def isZero (literal : Text) : Bool :=
  match Json.float? literal with
  | some x => x.mant == 0
  | none => false

/-- A flag, given as such, in words or as a number; false without one. -/
def flag (args : Arguments) (key : Text) : Bool :=
  match Json.lookup? key args with
  | some (.bool b) => b
  | some (.str s) => (Text.toBool? s).getD false
  | some (.num n) => !isZero n
  | _ => false

end Arguments

namespace Server

def start (settings : ServerSettings) (parsers : Parsers) (calls : Option CallLog) : Server :=
  ⟨settings, parsers, calls, none⟩

def wrong (t : Text) : ToolAnswer := ⟨t, true⟩

def right (t : Text) : ToolAnswer := ⟨t, false⟩

/-! ## Questions about the knowledge base -/

/-- The knowledge base, opened if it is not. -/
def knowledge (d : Disk) (s : Server) : Except Fault Store × List LogRecord :=
  match s.store with
  | some store => (.ok store, [])
  | none =>
    match Store.open_ d s.settings.knowledgeDir { StoreSettings.default with root := s.settings.root } with
    | .ok (store, log) => (.ok store, log)
    | .error f => (.error f, [])

/-- The answer if there is no knowledge base to ask. -/
def noKnowledge (f : Fault) : ToolAnswer :=
  if f.isNotGenerated then wrong "knowledge base not generated; run `quickgen knowledge generate` first"
  else wrong ("open knowledge base: " ++ f.message)

def queryFile (d : Disk) (s : Server) (args : Arguments) : ToolAnswer × List LogRecord × Server :=
  match args.text "file" with
  | .error e => (wrong e, [], s)
  | .ok file =>
    match s.knowledge d with
    | (.error f, log) => (noKnowledge f, log, s)
    | (.ok store, log) =>
      let answer := match store.view? file with
        | some view => right view.toJson.pretty
        | none => wrong (file ++ " is not in the knowledge base")
      (answer, log, { s with store := some store })

def traceSymbol (d : Disk) (s : Server) (args : Arguments) : Except Fault ToolAnswer × List LogRecord × Server :=
  match args.text "symbol" with
  | .error e => (.ok (wrong e), [], s)
  | .ok symbol =>
    match s.knowledge d with
    | (.error f, log) => (.ok (noKnowledge f), log, s)
    | (.ok store, log) =>
      let (found, more, store) := store.trace d ⟨symbol, args.flag "detailed"⟩
      let answer : Except Fault ToolAnswer := match found with
        | .ok trace => .ok (right trace.toJson.pretty)
        | .error f =>
          if f.isSymbolNotFound then
            .ok (wrong ("no definition of " ++ Text.quoted symbol ++ " in the knowledge base"))
          else .error f
      (answer, log ++ more, { s with store := some store })

/-! ## Questions about sources -/

/-- The path of a file below a root, absolute and as seen from there; none for one outside. -/
def placeOf? (root file : Text) : Option (Text × Text) :=
  let path := if Path.isAbsolute file then file else Path.join [root, file]
  ((Path.relative? root path).filter fun rel =>
    !(rel == (".." : Text) || (Text.dropPrefix? "../" rel).isSome)).map fun rel => (path, rel)

/-- The source a call is about, with its path below the root; otherwise what is wrong. -/
def source (d : Disk) (root : Text) (args : Arguments) : Except Text (Text × Text) := do
  let file ← args.text "file"
  if !Grammar.supports file then
    throw (file ++ ": unsupported file type (want one of " ++ Text.joinWith ", " Grammar.extensions ++ ")")
  match placeOf? root file with
  | none => throw (file ++ " is outside the project root")
  | some (path, rel) =>
    match d.readFile path with
    | .ok src => return (src, rel)
    | .error e => throw ("read " ++ file ++ ": " ++ e.message)

/-- The answer if a source cannot be documented. -/
def notDocumented (rel : Text) (f : Fault) : ToolAnswer :=
  match f.parseFault? with
  | some p => wrong (rel ++ ": syntax error at line " ++ Text.ofNat p.line ++ ": " ++ p.what)
  | none => wrong (rel ++ ": " ++ f.message)

/-- The components of a source as an answer. -/
def componentList (rel : Text) (d : Documented) : Json :=
  .obj [("file", .str rel), ("components", .arr (d.components.map ComponentInfo.toJson)),
    ("skipped", .arr (d.skips.map Skipped.toJson))]

/-- The changes documenting makes to a source as an answer. -/
def preview (rel src : Text) (d : Documented) : Except Fault ToolAnswer :=
  match Patch.diff rel src d.output with
  | .error e => .error (.notInsertion e)
  | .ok [] => .ok (right ("no documentation changes for " ++ rel))
  | .ok diff => .ok (right diff)

/-- Documents the source a call is about, and answers from the outcome. -/
def aboutSource (gs : Grammars) (d : Disk) (s : Server) (args : Arguments)
    (tell : (rel src : Text) → Documented → Except Fault ToolAnswer) :
    Except Fault ToolAnswer × List LogRecord × Server :=
  match source d s.settings.root args with
  | .error e => (.ok (wrong e), [], s)
  | .ok (src, rel) =>
    let (outcome, log, parsers) := annotate gs s.parsers s.settings.options rel src
    let answer := match outcome with
      | .ok documented => tell rel src documented
      | .error f => .ok (notDocumented rel f)
    (answer, log, { s with parsers })

/-! ## Calls -/

/-- Answers a call. A fault is one of the server, not of the call. -/
def answer (gs : Grammars) (d : Disk) (s : Server) (tool : Tool) (args : Arguments) :
    Except Fault ToolAnswer × List LogRecord × Server :=
  match tool with
  | .queryFile => let (a, r) := s.queryFile d args; (.ok a, r)
  | .traceSymbol => s.traceSymbol d args
  | .listComponents => s.aboutSource gs d args fun rel _ found => .ok (right (componentList rel found).pretty)
  | .previewDocs => s.aboutSource gs d args preview

/-- Answers a call and logs it; `now` is the clock before and after. -/
def call (gs : Grammars) (now : Int × Int) (d : Disk) (s : Server) (tool : Tool) (args : Arguments) :
    Served (Except Fault ToolAnswer) :=
  let (outcome, log, s) := s.answer gs d tool args
  let d := match s.calls with
    | none => d
    | some calls =>
      calls.record d
        { tool := tool.name
          arguments := args
          started := now.1
          ended := now.2
          answer := outcome.toOption
          complaint := match outcome with
            | .ok _ => none
            | .error f => some f.message }
  ⟨outcome, log, d, s⟩

/-- Loads the knowledge base again if it is open. A failing load leaves it as it was. -/
def reload (d : Disk) (s : Server) : Except Fault (Server × List LogRecord) :=
  match s.store with
  | none => .ok (s, [])
  | some store => (store.reload d).map fun (store, log) => ({ s with store := some store }, log)

/-- Closes the knowledge base; a later call opens it again. -/
def close (s : Server) : Server := { s with store := none }

end Server

end DocAtlas

/-
Setting up clients: those in use are found by their program, their directory in the project or
their settings directory, and the server is registered with each that does not have it, by running
its program or by editing its settings file. Unless told otherwise a person is asked first.
-/
import DocAtlas.Agents.Prompt
import DocAtlas.Agents.Registration
import DocAtlas.Files.Disk

namespace DocAtlas

/-- How a client is set up. -/
inductive AgentMeans where
  /-- By running a program. -/
  | program (name : Text)
  /-- By editing a file. The client is in use if the directory `marker` is there. -/
  | settings (marker file serversKey : Text) (extra : List (Text × Json))

/-- A client. -/
structure Agent where
  id : Text
  label : Text
  means : AgentMeans

/-- A client in use. -/
structure FoundAgent where
  agent : Agent
  registered : Bool

namespace Agent

/-- The clients known, for a person whose home directory is `home`. -/
def known (home : Text) : List Agent :=
  let desktop := Path.join [home, ".config", "Claude"]
  [⟨"claude_cli", "claude CLI", .program "claude"⟩,
   ⟨"codex_cli", "codex CLI", .program "codex"⟩,
   ⟨"vscode", "VS Code", .settings ".vscode" ".vscode/mcp.json" "servers" [("type", .str "stdio")]⟩,
   ⟨"cursor", "Cursor", .settings ".cursor" ".cursor/mcp.json" "mcpServers" []⟩,
   ⟨"claude_desktop", "Claude Desktop",
    .settings desktop (Path.join [desktop, "claude_desktop_config.json"]) "mcpServers" []⟩]

/-- The settings file of a client; none for one that is set up by its program. -/
def file (a : Agent) : Text :=
  match a.means with
  | .program _ => []
  | .settings _ file _ _ => file

end Agent

/-- What running a program did: the files afterwards, what it printed, and a complaint if it
failed. -/
structure ProgramRun where
  disk : Disk
  out : Text
  err : Text
  complaint : Option Text

/-- What setting up needs of the machine. -/
structure Machine where
  home : Text
  hasProgram : Disk → Text → Bool
  run : Disk → Text → List Text → ProgramRun

/-- The state of setting up. -/
structure SetupState where
  disk : Disk
  answers : Answers
  out : Text
  err : Text
  /-- The commands run. -/
  ran : List (List Text)

namespace Setup

/-- Whether a settings file names the server. -/
def hasServer (d : Disk) (path key : Text) : Bool :=
  match d.readFile path with
  | .ok text => Registration.isRegistered text key
  | .error _ => false

/-- A client, if it is in use. -/
def find? (m : Machine) (d : Disk) (a : Agent) : Option FoundAgent :=
  match a.means with
  | .program name => if m.hasProgram d name then some ⟨a, hasServer d ".mcp.json" "mcpServers"⟩ else none
  | .settings marker file key _ =>
    match d.stat marker with
    | .ok _ => some ⟨a, hasServer d file key⟩
    | .error _ => none

/-- The clients in use. -/
def detect (m : Machine) (d : Disk) : List FoundAgent := (Agent.known m.home).filterMap (find? m d)

/-- The text of a settings file, which is empty if there is no such file. -/
def settingsText (d : Disk) (file : Text) : Except Fault Text :=
  match d.readFile file with
  | .ok text => .ok text
  | .error e => if e.errno = .notFound then .ok [] else .error (.os e)

/-- Enters the server in a settings file. What failed, if anything did, and the disk afterwards: directories that were
made for the file stay. -/
def registerInFile (d : Disk) (file key : Text) (extra : List (Text × Json)) : Option Fault × Disk :=
  match d.mkdirAll (Path.parent file) with
  | .error e => (some (.during "create directory" (.os e)), d)
  | .ok d =>
    match settingsText d file with
    | .error f => (some f, d)
    | .ok text =>
      match Registration.add text key extra with
      | .error f => (some f, d)
      | .ok none => (none, d)
      | .ok (some new) =>
        match d.writeFile file new 0o644 with
        | .ok d => (none, d)
        | .error e => (some (.os e), d)

/-- The arguments that register the server with a program. -/
def arguments (scope : Text) : List Text :=
  ["mcp", "add", "--scope", scope, Registration.serverName, "--", Product.name, "serve", "--watch"]

def say (s : SetupState) (t : Text) : SetupState := { s with out := s.out ++ t }

/-- The line of a client that could not be set up. -/
def failure (label complaint : Text) : Text := "  ! " ++ label ++ ": " ++ complaint ++ "\n"

/-- The line of a client that was set up. -/
def success (label place : Text) : Text := "  + " ++ label ++ " registered (" ++ place ++ ")\n"

/-- Registers by running a program. -/
def runProgram (m : Machine) (label name scope : Text) (s : SetupState) : SetupState :=
  let r := m.run s.disk name (arguments scope)
  let line := match r.complaint with
    | some c => failure label c
    | none => success label (scope ++ " scope")
  { s with disk := r.disk, out := s.out ++ r.out ++ line, err := s.err ++ r.err,
           ran := s.ran ++ [name :: arguments scope] }

/-- Registers by editing a file. -/
def editFile (label file key : Text) (extra : List (Text × Json)) (s : SetupState) : SetupState :=
  let (fault, disk) := registerInFile s.disk file key extra
  match fault with
  | none => say { s with disk } (success label file)
  | some f => say { s with disk } (failure label f.message)

def skipped : Text := "  skipped\n"

/-- Sets up one client, asking first unless `auto`. -/
def setUp (m : Machine) (auto : Bool) (s : SetupState) (a : Agent) : SetupState :=
  match a.means with
  | .program name =>
    if auto then runProgram m a.label name "project" s
    else
      let (scope, answers) := s.answers.scope
      let s := say { s with answers } (Answers.scopeQuestion a.label)
      match scope with
      | none => say s skipped
      | some scope => runProgram m a.label name scope s
  | .settings _ file key extra =>
    if auto then editFile a.label file key extra s
    else
      let (yes, answers) := s.answers.confirm
      let s := say { s with answers } (Answers.question ("\n" ++ a.label ++ ": add to " ++ file ++ "?"))
      if yes then editFile a.label file key extra s else say s skipped

/-- The line of a client in use. -/
def foundLine (f : FoundAgent) : Text :=
  let note : Text := if f.registered then " (already registered)" else []
  "  * " ++ f.agent.label ++ note ++ "\n"

/-- The list of the clients in use. -/
def listing (found : List FoundAgent) : Text := "Detected MCP clients:\n" ++ found.flatMap foundLine

/-- Finds the clients in use and sets up those that do not have the server. -/
def run (m : Machine) (auto : Bool) (d : Disk) (stdin : Text) : SetupState :=
  let found := detect m d
  let start : SetupState := ⟨d, stdin, [], [], []⟩
  if found.isEmpty then say start "No supported MCP clients detected.\n"
  else
    let s := say start (listing found)
    let todo := (found.filter fun f => !f.registered).map FoundAgent.agent
    if auto then todo.foldl (setUp m auto) s
    else
      let (yes, answers) := s.answers.confirm
      let s := say { s with answers } (Answers.question "\nRegister quickgen?")
      if yes then todo.foldl (setUp m auto) s else s

end Setup

end DocAtlas

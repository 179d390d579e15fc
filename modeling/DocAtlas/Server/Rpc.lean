/-
Remote calls: a client sends messages, each a JSON object, and every request among them is answered
by one reply with its identifier. A message without an identifier, or one that carries a result, is
not answered.
-/
import DocAtlas.Json.Decode
import DocAtlas.Json.Reader
import DocAtlas.Json.Sorted
import DocAtlas.Product
import DocAtlas.Server.Session

namespace DocAtlas

/-- Why a request was refused. -/
structure Refusal where
  code : Int
  message : Text
deriving DecidableEq, Repr

/-- A reply to the message with an identifier, which is `null` if the message has none. -/
structure Reply where
  id : Json
  body : Except Refusal Json

namespace Refusal

/-- The message is not one. -/
def unparsed (message : Text) : Refusal := ⟨-32700, message⟩

def invalid (message : Text) : Refusal := ⟨-32600, message⟩

def noMethod (message : Text) : Refusal := ⟨-32601, message⟩

def badParams (message : Text) : Refusal := ⟨-32602, message⟩

/-- The server failed. -/
def failed (f : Fault) : Refusal := ⟨-32603, f.message⟩

def toJson (r : Refusal) : Json := .obj [("code", .int r.code), ("message", .str r.message)]

end Refusal

namespace Reply

def toJson (r : Reply) : Json :=
  match r.body with
  | .ok v => .obj [("jsonrpc", .str "2.0"), ("id", r.id), ("result", v)]
  | .error e => .obj [("jsonrpc", .str "2.0"), ("id", r.id), ("error", e.toJson)]

end Reply

namespace Rpc

/-- The outer parts of a message. -/
structure Envelope where
  version : Text
  method : Text
  id : Json
  result : Json
  params : Json

def blank : Envelope := ⟨[], [], .null, .null, .null⟩

def envelopeFields : List (Json.RecordField Envelope) :=
  [.plain "jsonrpc" Json.text? fun x e => { e with version := x },
   .plain "method" Json.text? fun x e => { e with method := x },
   .whole "id" some fun x e => { e with id := x },
   .whole "result" some fun x e => { e with result := x },
   .whole "params" some fun x e => { e with params := x }]

/-- The outer parts of a message; none for what is no object or has parts of another shape. -/
def envelope? (message : Json) : Option Envelope := Json.record? blank envelopeFields message

def isNull : Json → Bool
  | .null => true
  | _ => false

/-- A member of an object, `null` if there is none. -/
def member (key : Text) : Json → Json
  | .obj ms => (Json.lookup? key ms).getD .null
  | _ => .null

/-! ## Beginning -/

/-- The versions of the protocol, the latest first. -/
def versions : List Text := ["2025-11-25", "2025-06-18", "2025-03-26", "2024-11-05"]

/-- The version to speak with a client that offers one: that one if it is known, else the latest. A
client that offers none is taken to mean a certain earlier one. -/
def agreed (offered : Text) : Text :=
  if offered.isEmpty then "2025-03-26" else if versions.contains offered then offered else "2025-11-25"

/-- What a client is told at the beginning. -/
def greeting (params : Json) : Json :=
  let offered := match member "protocolVersion" params with
    | .str s => s
    | _ => []
  .obj [("protocolVersion", .str (agreed offered)), ("capabilities", .obj [("tools", .obj [])]),
    ("serverInfo", .obj [("name", .str Product.name), ("version", .str Product.version)])]

/-! ## Calls of tools -/

/-- An answer as a result. -/
def answerJson (a : ToolAnswer) : Json := .obj (("content", a.content) :: Json.ifTrue "isError" a.isError)

/-- The arguments of a call. -/
def argumentsIn (params : Json) : Arguments :=
  match (member "arguments" params).sorted with
  | .obj ms => ms
  | _ => []

/-- Calls the tool of a name. -/
def callTool (gs : Grammars) (now : Int × Int) (d : Disk) (s : Server) (name : Text) (args : Arguments) :
    Served (Except Refusal ToolAnswer) :=
  match Tool.ofName? name with
  | none => ⟨.error (.badParams ("tool '" ++ name ++ "' not found: tool not found")), [], d, s⟩
  | some tool =>
    let r := s.call gs now d tool args
    { r with outcome := r.outcome.mapError Refusal.failed }

/-! ## Requests -/

/-- The name of a family of methods the server does not have. -/
def missingFamily? (method : Text) : Option Text :=
  let families : List (Text × List Text) :=
    [("logging", ["logging/setLevel"]),
     ("resources", ["resources/list", "resources/templates/list", "resources/read", "resources/subscribe",
       "resources/unsubscribe"]),
     ("prompts", ["prompts/list", "prompts/get"]),
     ("tasks", ["tasks/get", "tasks/list", "tasks/result", "tasks/cancel"]),
     ("completions", ["completion/complete"])]
  (families.find? fun f => f.2.contains method).map Prod.fst

/-- Why a method is refused that the server does not have. -/
def missing (method : Text) : Refusal :=
  match missingFamily? method with
  | some family => .noMethod (family ++ " not supported")
  | none => .noMethod ("Method " ++ method ++ " not found")

/-- Carries out a request. -/
def request (gs : Grammars) (now : Int × Int) (d : Disk) (s : Server) (method : Text) (params : Json) :
    Served (Except Refusal Json) :=
  if method = "initialize" then ⟨.ok (greeting params), [], d, s⟩
  else if method = "ping" then ⟨.ok (.obj []), [], d, s⟩
  else if method = "tools/list" then ⟨.ok (.obj [("tools", .arr (Tool.all.map Tool.toJson))]), [], d, s⟩
  else if method = "tools/call" then
    let name := match member "name" params with
      | .str n => n
      | _ => []
    let r := callTool gs now d s name (argumentsIn params)
    { r with outcome := r.outcome.map answerJson }
  else ⟨.error (missing method), [], d, s⟩

/-- Takes a message and replies to it if it is a request. -/
def handle (gs : Grammars) (now : Int × Int) (d : Disk) (s : Server) (message : Json) : Served (Option Reply) :=
  let silent : Served (Option Reply) := ⟨none, [], d, s⟩
  let refuse (id : Json) (why : Refusal) : Served (Option Reply) := { silent with outcome := some ⟨id, .error why⟩ }
  match (message.floats?).bind envelope? with
  | none => refuse .null (.unparsed "Failed to parse message")
  | some e =>
    if e.version ≠ "2.0" then refuse e.id (.invalid "Invalid JSON-RPC version")
    else if isNull e.id || !isNull e.result then silent
    else
      let r := request gs now d s e.method e.params
      { r with outcome := some ⟨e.id, r.outcome⟩ }

/-- Takes a line of text. -/
def handleLine (gs : Grammars) (now : Int × Int) (d : Disk) (s : Server) (line : Text) : Served (Option Reply) :=
  match Json.parse? line with
  | none => ⟨some ⟨.null, .error (.unparsed "Parse error")⟩, [], d, s⟩
  | some message => handle gs now d s message

/-- Takes lines one after the other. -/
def serve (gs : Grammars) (now : Int × Int) (d : Disk) (s : Server) : List Text → Served (List Reply)
  | [] => ⟨[], [], d, s⟩
  | line :: lines =>
    let first := handleLine gs now d s line
    let rest := serve gs now first.disk first.server lines
    { rest with outcome := first.outcome.toList ++ rest.outcome, log := first.log ++ rest.log }

end Rpc

end DocAtlas

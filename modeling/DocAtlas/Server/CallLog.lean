/-
The call log: one line of JSON for each call of a tool, appended to a file. Long arguments are not
logged; their length is.
-/
import DocAtlas.Fault
import DocAtlas.Files.Disk
import DocAtlas.Json.Float
import DocAtlas.Json.Writer
import DocAtlas.Time.Calendar

namespace DocAtlas

/-- The arguments of a call, in the order they are visited. -/
abbrev Arguments := List (Text × Json)

/-- What a tool answers. -/
structure ToolAnswer where
  text : Text
  /-- Whether the text says what is wrong with the call. -/
  isError : Bool
deriving DecidableEq, Repr

namespace ToolAnswer

/-- The parts of an answer, of which there is one. -/
def content (a : ToolAnswer) : Json := .arr [.obj [("type", .str "text"), ("text", .str a.text)]]

end ToolAnswer

/-- A finished call. -/
structure CallRecord where
  tool : Text
  arguments : Arguments
  /-- When it began and ended, in milliseconds since 1970. -/
  started : Int
  ended : Int
  answer : Option ToolAnswer
  /-- Why it could not be answered. -/
  complaint : Option Text

namespace CallRecord

/-- The longest text logged as it is. -/
def maxText : Nat := 64

/-- An argument as it is logged. -/
def reduce (key : Text) (v : Json) : Text × Json :=
  match v with
  | .str s => if maxText < s.length then (key ++ "_len", .nat s.length) else (key, v)
  | v => (key, v)

/-- The arguments as they are logged. -/
def reduced (arguments : Arguments) : Table Json :=
  arguments.foldl (fun t a => let e := reduce a.1 a.2; Table.put e.1 e.2 t) []

/-- The size of an answer as it is sent. -/
def answerBytes : Option ToolAnswer → Nat
  | none => 0
  | some a => (a.content.compact true).length

/-- A span of time, in nanoseconds, as 64 bits hold it. -/
def clampSpan (ns : Int) : Int := max (-(Nat.pow 2 63)) (min (Nat.pow 2 63 - 1) ns)

/-- How long a call took, in whole milliseconds. -/
def milliseconds (r : CallRecord) : Int := (clampSpan ((r.ended - r.started) * 1000000)).tdiv 1000000

def toJson (r : CallRecord) : Json :=
  .obj [("ts", .str (Calendar.secondText r.started)), ("tool", .str r.tool), ("params", .obj (reduced r.arguments)),
    ("duration_ms", .int r.milliseconds), ("response_bytes", .nat (answerBytes r.answer)),
    ("is_error", .bool (r.answer.any ToolAnswer.isError)),
    ("error", (r.complaint.map Json.str).getD .null)]

/-- The line of a call. -/
def line (r : CallRecord) : Text := r.toJson.compact true ++ [Text.newline]

end CallRecord

/-- An open log. -/
structure CallLog where
  path : Text
deriving DecidableEq, Repr

namespace CallLog

/-- Opens the log at a path, making the file and the directories above it as needed. Without a path
there is no log. -/
def open_ (d : Disk) (path : Text) : Except Fault (Disk × Option CallLog) :=
  if path.isEmpty then .ok (d, none)
  else
    match d.mkdirAll (Path.parent path) with
    | .error e => .error (.during "mcplog: create log directory" (.os e))
    | .ok d =>
      match d.appendFile path [] 0o644 with
      | .error e => .error (.during "mcplog: open log file" (.os e))
      | .ok d => .ok (d, some ⟨path⟩)

/-- Appends a call. -/
def record (d : Disk) (l : CallLog) (r : CallRecord) : Disk := (d.appendFile l.path r.line 0o644).toOption.getD d

end CallLog

end DocAtlas

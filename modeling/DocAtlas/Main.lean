/-
The command line on a real machine. Before a command runs, the files it may look at are read: the
settings, and those that a list in the project names, one a line. Afterwards the files it changed
are written. Syntax trees come from a parser outside this program, which leaves them in the project
as JSON. What happens in between is `Program.run`.
-/
import DocAtlas.Command.Run
import DocAtlas.Source.Recorded
import Std.Time.DateTime.Timestamp

namespace DocAtlas.Host

/-- The list of the files of the project. -/
def listPath : String := ".quickgen/files"

/-- The syntax trees of the project. -/
def treesPath : String := ".quickgen/trees.json"

/-- The most parsers of a grammar. -/
def poolSize : Nat := 8

/-- What a file holds; nothing if it cannot be read. -/
def content? (path : Text) : IO (Option Text) := do
  try
    return some (← IO.FS.readBinFile path.toString).data.toList
  catch _ =>
    return none

/-- A variable of the environment. -/
def environment (name : String) : IO Text := do
  return Text.ofString ((← IO.getEnv name).getD "/")

/-- The settings file and the listed files, on a disk of their own. -/
def load (cwd : Text) : IO Disk := do
  let listed := (← content? (.ofString listPath)).getD []
  let mut disk := ((Disk.mk Entry.emptyDir cwd).mkdirAll cwd).toOption.getD ⟨Entry.emptyDir, cwd⟩
  for path in Program.settingsPath :: Text.lines listed do
    if let some t ← content? path then
      disk := disk.place (Path.absolute cwd path) (.file t 0o644)
  return disk

/-- Writes the files that differ between two disks, and takes away those that are gone. -/
def save (before after : Disk) : IO Unit := do
  let old := before.filesBelow "/"
  let new := after.filesBelow "/"
  for (path, t, mode) in new do
    unless old.contains (path, t, mode) do
      let file := Path.join ["/", path]
      IO.FS.createDirAll (Path.parent file).toString
      IO.FS.writeBinFile file.toString ⟨t.toArray⟩
  for (path, _, _) in old do
    unless new.any (fun f => f.1 == path) do
      IO.FS.removeFile (Path.join ["/", path]).toString

/-- The recorded syntax trees. -/
def trees : IO Grammars := do
  match (← content? (.ofString treesPath)).bind Json.parse? with
  | some (.arr records) => return Recorded.grammars records
  | _ => return Recorded.grammars []

/-- The machine as a command sees it. No other program is run on it. -/
def world : IO World := do
  let now := (← Std.Time.Timestamp.now).toMillisecondsSinceUnixEpoch.val
  let random := (← IO.getRandomBytes 16).data.toList
  let machine : Machine :=
    { home := ← environment "HOME"
      hasProgram := fun _ _ => false
      run := fun d _ _ => ⟨d, [], [], none⟩ }
  return ⟨← trees, machine, now, .ofClock random now, poolSize⟩

/-- Writes a text as it is. -/
def put (stream : IO.FS.Stream) (t : Text) : IO Unit := stream.write ⟨t.toArray⟩

end DocAtlas.Host

open DocAtlas

def main (words : List String) : IO UInt32 := do
  let args := words.map Text.ofString
  let disk ← Host.load (← Host.environment "PWD")
  let input ← if Program.readsInput args then (← IO.getStdin).readToEnd else pure ""
  let stdin := Text.ofString input
  let messages := (Text.lines stdin).filter fun line => !line.isEmpty
  let ended := Program.run (← Host.world) disk ⟨args, stdin, messages, .never⟩
  Host.save disk ended.disk
  Host.put (← IO.getStdout) (ended.out ++ ended.replies.flatMap fun r => Json.compact true r.toJson ++ [10])
  Host.put (← IO.getStderr) (ended.err ++ match ended.fault with
    | none => []
    | some f => "error: " ++ f.message ++ "\n")
  return if ended.fault.isSome then 1 else 0

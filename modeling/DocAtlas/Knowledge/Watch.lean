/-
A watcher keeps a knowledge base up to date: it watches the directories of the root that are not
ignored and schedules a run when a source changes. The output directory and what the rules of
discovery exclude are ignored.
-/
import DocAtlas.Knowledge.Generate

namespace DocAtlas

/-- What happened to a path. -/
inductive FileEvent where
  | create | write | remove | rename | chmod
deriving DecidableEq, Repr

namespace FileEvent

/-- The name in logs. -/
def label : FileEvent → Text
  | create => "CREATE"
  | write => "WRITE"
  | remove => "REMOVE"
  | rename => "RENAME"
  | chmod => "CHMOD"

end FileEvent

/-- A watcher of a root. -/
structure Watcher where
  settings : KnowledgeSettings
  root : Text
  outputDir : Text
  /-- The directories watched, in byte order. -/
  watched : Table Unit
  started : Bool
  stopped : Bool
  /-- Whether a run is scheduled. -/
  armed : Bool
  /-- How many runs there were. -/
  runs : Nat

namespace Watcher

def new (cwd : Text) (s : KnowledgeSettings) : Watcher :=
  let root := Path.absolute cwd s.dir
  ⟨s, root, s.outputDir root, [], false, false, false, 0⟩

/-- Whether a path is passed over. A directory is also passed over if what is in it would be. -/
def ignores (w : Watcher) (path : Text) (isDir : Bool) : Bool :=
  path == w.outputDir || (KnowledgeRun.inside? w.outputDir path).isSome ||
    match KnowledgeRun.inside? w.root path with
    | none => false
    | some rel =>
      w.settings.discovery.excludes.any fun p =>
        Glob.isMatch p rel || (isDir && Glob.isMatch p (rel ++ "/x"))

mutual

/-- The directories at an entry and below it that are to be watched. -/
def directoriesAt (w : Watcher) (path : Text) : Entry → List Text
  | .dir es => if path != w.root && w.ignores path true then [] else path :: directoriesIn w path es
  | .file _ _ | .link _ => []

/-- The directories below the entries of a directory that are to be watched. -/
def directoriesIn (w : Watcher) (path : Text) : List (Text × Entry) → List Text
  | [] => []
  | (n, e) :: es => directoriesAt w (Path.join [path, n]) e ++ directoriesIn w path es

end

/-- The log of a directory that cannot be watched any more. -/
def closedLog (path : Text) : LogRecord :=
  ⟨.warn, "failed to watch directory", [("path", .text path), ("error", .text "fsnotify: watcher already closed")]⟩

/-- Watches a directory and those below it. -/
def addTree (w : Watcher) (d : Disk) (dir : Text) : Except Fault (Watcher × List LogRecord) :=
  match d.lstat dir with
  | .error e => .error (.during ("watch " ++ dir) (.os e))
  | .ok e =>
    let dirs := w.directoriesAt dir e
    if w.stopped then .ok (w, dirs.map closedLog)
    else .ok ({ w with watched := dirs.foldl (fun t p => Table.put p () t) w.watched }, [])

/-- Schedules a run. -/
def schedule (w : Watcher) : Watcher := { w with armed := true }

/-- What an event of a path that is no new directory does. -/
def handleFile (w : Watcher) (event : FileEvent) (path : Text) : Watcher × List LogRecord :=
  if w.ignores path false || !Grammar.supports path || event == .chmod then (w, [])
  else (w.schedule, [⟨.debug, "source changed", [("op", .text event.label), ("file", .text path)]⟩])

/-- What an event does: a new directory is watched, and it or a changed source schedules a run. -/
def handle (w : Watcher) (d : Disk) (event : FileEvent) (path : Text) : Watcher × List LogRecord :=
  if event == .create && d.isDir path then
    if w.ignores path true then (w, [])
    else
      match w.addTree d path with
      | .ok (w, log) => (w.schedule, log)
      | .error f =>
        (w.schedule, [⟨.warn, "failed to watch new directory", [("path", .text path), ("error", .text f.message)]⟩])
  else w.handleFile event path

/-- Starts watching. -/
def start (w : Watcher) (d : Disk) (debounceMs : Nat) : Except Fault (List LogRecord) × Watcher :=
  if w.stopped then (.error (.plain "watcher already stopped"), w)
  else if w.started then (.error (.plain "watcher already started"), w)
  else
    let w := { w with started := true }
    match w.addTree d w.root with
    | .error f => (.error f, w)
    | .ok (w, log) =>
      (.ok (log ++ [⟨.info, "knowledge watcher started",
        [("root", .text w.root), ("debounce_ms", .int debounceMs)]⟩]), w)

/-- Stops watching, for good. -/
def stop (w : Watcher) : Watcher × List LogRecord :=
  if w.stopped then (w, [])
  else ({ w with stopped := true, watched := [] }, [⟨.info, "knowledge watcher stopped", []⟩])

/-- The scheduled run, unless the watcher was stopped. -/
def regenerate (gs : Grammars) (w : Watcher) (stamp : RunStamp) (d : Disk) (x : Extractor) (metrics : Metrics) :
    Option KnowledgeRun.Outcome × Watcher :=
  if w.stopped then (none, w)
  else
    let r := KnowledgeRun.run gs w.settings stamp none d x metrics
    let complaint : List LogRecord :=
      match r.fault with
      | some f => [⟨.error, "knowledge regeneration failed", [("error", .text f.message)]⟩]
      | none => []
    (some { r with log := r.log ++ complaint }, { w with runs := w.runs + 1 })

end Watcher

end DocAtlas

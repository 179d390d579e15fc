/-
The knowledge run: the facts of every discovered file are extracted in turn and saved as one base.
A file that cannot be read, parsed or extracted is recorded as a fault and the run goes on. A run
that is cancelled between files saves nothing. The directory the base is saved in is not searched.
-/
import DocAtlas.Files.Access
import DocAtlas.Files.Discovery
import DocAtlas.Files.FileFault
import DocAtlas.Knowledge.Archive
import DocAtlas.Knowledge.Extract
import DocAtlas.Knowledge.RunStamp
import DocAtlas.Report.Metrics

namespace DocAtlas

/-- The settings of a knowledge run. -/
structure KnowledgeSettings where
  dir : Text
  /-- Where the base is saved, relative to the root of the run unless absolute. -/
  output : Text
  discovery : DiscoveryRules

/-- The numbers of a run. -/
structure KnowledgeStats where
  scanned : Nat
  extracted : Nat
  skipped : Nat
  errored : Nat
  symbols : Nat
  imports : Nat
  calls : Nat
deriving DecidableEq, Repr

/-- The outcome of a run. -/
structure KnowledgeReport where
  root : Text
  outputDir : Text
  /-- Missing if nothing was saved. -/
  manifest : Option Manifest
  stats : KnowledgeStats
  faults : List FileFault

/-- What a run works with and changes. -/
structure KnowledgeState where
  extractor : Extractor
  metrics : Metrics
  log : List LogRecord
  stats : KnowledgeStats
  faults : List FileFault
  gathered : Gathered

namespace KnowledgeSettings

/-- The directory a base is saved in by default. -/
def defaultOutput : Text := ".knowledge"

/-- The directory the base of a root is saved in. -/
def outputDir (s : KnowledgeSettings) (root : Text) : Text :=
  let out := if s.output.isEmpty then defaultOutput else s.output
  if Path.isAbsolute out then out else Path.join [root, out]

end KnowledgeSettings

namespace KnowledgeRun

/-- The way from a directory to a path strictly below it. -/
def inside? (dir path : Text) : Option Text :=
  (Path.relative? dir path).filter fun rel =>
    !(rel == ("." : Text) || rel == (".." : Text) || (Text.dropPrefix? "../" rel).isSome)

/-- The rules of discovery, with the output directory left out. -/
def rulesFor (r : DiscoveryRules) (root out : Text) : DiscoveryRules :=
  match inside? root out with
  | some rel => { r with excludes := r.excludes ++ [rel ++ "/**"] }
  | none => r

/-- The fault of a source whose facts were not extracted. -/
def extractFault (rel : Text) (f : Fault) : FileFault :=
  ⟨rel, if f.parseFault?.isSome then "parse" else "extract", f⟩

/-- Extracts the facts of the file at an absolute path that is `rel` below the root. -/
def extractFile (gs : Grammars) (access : Access) (d : Disk) (x : Extractor) (path rel : Text) :
    Except FileFault FileFacts × List LogRecord × Extractor :=
  match d.readBy access path with
  | .error f => (.error ⟨rel, "read", f⟩, [], x)
  | .ok src =>
    match x.extract gs path rel src with
    | (.ok facts, log, x) => (.ok facts, log, x)
    | (.error f, log, x) => (.error (extractFault rel f), log, x)

/-- The numbers with one more file scanned. -/
def scanned (s : KnowledgeStats) : KnowledgeStats := { s with scanned := s.scanned + 1 }

/-- A file of no known language is passed over. -/
def skip (st : KnowledgeState) (rel : Text) : KnowledgeState :=
  { st with
    metrics := st.metrics.fileProcessed "knowledge" "skipped" 0
    log := st.log ++ [⟨.debug, "unsupported file skipped", [("file", .text rel)]⟩]
    stats := { scanned st.stats with skipped := st.stats.skipped + 1 } }

/-- Adds the outcome of a file. -/
def record (st : KnowledgeState) : Except FileFault FileFacts → KnowledgeState
  | .error f =>
    { st with
      metrics := st.metrics.fileProcessed "knowledge" "errored" 0
      log := st.log ++ [f.log]
      stats := { scanned st.stats with errored := st.stats.errored + 1 }
      faults := st.faults ++ [f] }
  | .ok facts =>
    { st with
      metrics := (st.metrics.fileProcessed "knowledge" "extracted" 0).knowledgeRecorded
        facts.symbols.length facts.calls.length
      stats :=
        { scanned st.stats with
          extracted := st.stats.extracted + 1
          symbols := st.stats.symbols + facts.symbols.length
          imports := st.stats.imports + facts.imports.length
          calls := st.stats.calls + facts.calls.length }
      gathered := st.gathered.add facts }

/-- Processes one file. -/
def step (gs : Grammars) (access : Access) (d : Disk) (root : Text) (st : KnowledgeState) (path : Text) :
    KnowledgeState :=
  let rel := Path.relativeTo root path
  if (Grammar.ofPath? path).isNone then skip st rel
  else
    let (outcome, log, extractor) := extractFile gs access d st.extractor path rel
    record { st with extractor, log := st.log ++ log } outcome

/-- The log after discovery. -/
def discoveredLog (root : Text) (count : Nat) : LogRecord :=
  ⟨.info, "discovery complete", [("root", .text root), ("files", .int count), ("ms", .int 0)]⟩

/-- The log at the end of a run. -/
def doneLog (stamp : RunStamp) (out : Text) (s : KnowledgeStats) : LogRecord :=
  ⟨.info, "knowledge generated",
    [("run_id", .text stamp.runId), ("output", .text out), ("files", .int s.extracted),
     ("symbols", .int s.symbols), ("imports", .int s.imports), ("calls", .int s.calls),
     ("errored", .int s.errored), ("ms", .int 0)]⟩

/-- The outcome of a run: a report unless discovery or saving failed, a fault if the run did not
come to its end, and what it left behind. -/
structure Outcome where
  report : Option KnowledgeReport
  fault : Option Fault
  log : List LogRecord
  extractor : Extractor
  metrics : Metrics
  disk : Disk

/-- Saves what was gathered. -/
def finish (stamp : RunStamp) (root out : Text) (d : Disk) (st : KnowledgeState) : Outcome :=
  let manifest : Manifest := ⟨stamp.runId, stamp.generatedAt, root, some (Table.keys st.gathered)⟩
  match Archive.save d out (KnowledgeBase.ofGathered st.gathered) manifest with
  | (d, some f) => ⟨none, some (.batch root f), st.log, st.extractor, st.metrics, d⟩
  | (d, none) =>
    { report := some ⟨root, out, some manifest, st.stats, st.faults⟩
      fault := none
      log := st.log ++ [doneLog stamp out st.stats]
      extractor := st.extractor
      metrics := st.metrics
      disk := d }

/-- Runs over a directory, as far as the system lets its files be read. With `cancelAfter` the run is cancelled once
that many files are done. -/
def runBy (gs : Grammars) (access : Access) (s : KnowledgeSettings) (stamp : RunStamp)
    (cancelAfter : Option Nat) (d : Disk) (x : Extractor) (metrics : Metrics) : Outcome :=
  let root := Path.absolute d.cwd s.dir
  let out := s.outputDir root
  match Discovery.discover d root (rulesFor s.discovery root out) with
  | .error f => ⟨none, some (.batch root f), [], x, metrics, d⟩
  | .ok paths =>
    let start : KnowledgeState :=
      ⟨x, metrics, [discoveredLog root paths.length], ⟨0, 0, 0, 0, 0, 0, 0⟩, [], []⟩
    let todo := match cancelAfter with
      | some n => paths.take n
      | none => paths
    let st := todo.foldl (step gs access d root) start
    if cancelAfter.any fun n => n < paths.length then
      { report := some ⟨root, out, none, st.stats, st.faults⟩
        fault := some (.interrupted "knowledge run")
        log := st.log
        extractor := st.extractor
        metrics := st.metrics
        disk := d }
    else finish stamp root out d st

/-- Runs over a directory of which every file may be read. -/
def run (gs : Grammars) (s : KnowledgeSettings) (stamp : RunStamp) (cancelAfter : Option Nat) (d : Disk)
    (x : Extractor) (metrics : Metrics) : Outcome :=
  runBy gs .full s stamp cancelAfter d x metrics

end KnowledgeRun

namespace KnowledgeStats

def toJson (s : KnowledgeStats) : Json :=
  .obj [("scanned", .nat s.scanned), ("extracted", .nat s.extracted), ("skipped", .nat s.skipped),
    ("errored", .nat s.errored), ("symbols", .nat s.symbols), ("imports", .nat s.imports), ("calls", .nat s.calls),
    ("durationMs", .nat 0)]

end KnowledgeStats

namespace KnowledgeReport

def toJson (r : KnowledgeReport) : Json :=
  .obj (List.flatten
    [[("root", .str r.root), ("outputDir", .str r.outputDir),
      ("manifest", (r.manifest.map Manifest.toJson).getD .null), ("stats", r.stats.toJson)],
     if r.faults.isEmpty then [] else [("errors", .arr (r.faults.map FileFault.toJson))]])

end KnowledgeReport

end DocAtlas

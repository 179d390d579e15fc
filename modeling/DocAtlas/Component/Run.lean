/-
The documentation run: every discovered file is documented in turn. A file that cannot be read,
parsed, edited or written is recorded as a fault and the run goes on; only a root that cannot be
searched and a cancellation between files end it early. A dry run shows diffs and writes nothing.
A file is written in its place, so what is left of one whose write breaks off is a part of it.
-/
import DocAtlas.Component.Documenter
import DocAtlas.Edit.Patch
import DocAtlas.Files.Access
import DocAtlas.Files.Discovery
import DocAtlas.Files.FileFault
import DocAtlas.Report.Metrics

namespace DocAtlas

/-- The settings of a documentation run. -/
structure DocSettings where
  dir : Text
  discovery : DiscoveryRules
  options : DocOptions
  dryRun : Bool

/-- The numbers of a run. -/
structure DocStats where
  scanned : Nat
  updated : Nat
  skipped : Nat
  errored : Nat
  components : Nat
deriving DecidableEq, Repr

/-- A file processed without a fault. -/
structure FileReport where
  path : Text
  components : List ComponentInfo
  skips : List Skipped
  updated : Bool
  /-- What a dry run would change. -/
  diff : Text

/-- The outcome of a run. -/
structure DocReport where
  root : Text
  stats : DocStats
  files : List FileReport
  faults : List FileFault

/-- What a run works with and changes. -/
structure DocState where
  disk : Disk
  parsers : Parsers
  metrics : Metrics
  log : List LogRecord
  report : DocReport

namespace DocRun

/-- The fault of a source that was not documented. -/
def annotateFault (rel : Text) (f : Fault) : FileFault :=
  ⟨rel, if f.parseFault?.isSome then "parse" else "edit", f⟩

/-- Documents the file at an absolute path that is `rel` below the root. -/
def processFile (gs : Grammars) (access : Access) (options : DocOptions) (dryRun : Bool) (disk : Disk)
    (parsers : Parsers) (path rel : Text) : Except FileFault FileReport × List LogRecord × Parsers × Disk :=
  match disk.readBy access path with
  | .error f => (.error ⟨rel, "read", f⟩, [], parsers, disk)
  | .ok src =>
    match annotate gs parsers options path src with
    | (.error f, log, parsers) => (.error (annotateFault rel f), log, parsers, disk)
    | (.ok d, log, parsers) =>
      let report : FileReport := ⟨rel, d.components, d.skips, !d.insertions.isEmpty, []⟩
      if d.insertions.isEmpty then (.ok report, log, parsers, disk)
      else if dryRun then
        match Patch.diff rel src d.output with
        | .ok diff => (.ok { report with diff }, log, parsers, disk)
        | .error e => (.error ⟨rel, "edit", .notInsertion e⟩, log, parsers, disk)
      else
        match disk.writeBy access path d.output 0o644 with
        | (none, disk) => (.ok report, log, parsers, disk)
        | (some f, disk) => (.error ⟨rel, "write", f⟩, log, parsers, disk)

/-- Adds the outcome of a file to the report. -/
def addOutcome (r : DocReport) : Except FileFault FileReport → DocReport
  | .error f =>
    { r with
      stats := { r.stats with scanned := r.stats.scanned + 1, errored := r.stats.errored + 1 }
      faults := r.faults ++ [f] }
  | .ok file =>
    { r with
      stats :=
        if file.updated then
          { r.stats with
            scanned := r.stats.scanned + 1
            updated := r.stats.updated + 1
            components := r.stats.components + file.components.length }
        else { r.stats with scanned := r.stats.scanned + 1, skipped := r.stats.skipped + 1 }
      files := r.files ++ [file] }

/-- Counts the outcome of a file. -/
def countOutcome (m : Metrics) : Except FileFault FileReport → Metrics
  | .error _ => m.fileProcessed "docs" "errored" 0
  | .ok file =>
    (m.fileProcessed "docs" (if file.updated then "updated" else "skipped") 0).componentsDocumented
      file.components.length

/-- Processes one file and adds its outcome. -/
def step (gs : Grammars) (access : Access) (s : DocSettings) (st : DocState) (path : Text) : DocState :=
  let rel := Path.relativeTo st.report.root path
  let (outcome, log, parsers, disk) := processFile gs access s.options s.dryRun st.disk st.parsers path rel
  let skippedLog := match outcome with
    | .error f => [f.log]
    | .ok _ => []
  { disk
    parsers
    metrics := countOutcome st.metrics outcome
    log := st.log ++ log ++ skippedLog
    report := addOutcome st.report outcome }

/-- The log at the end of a run. -/
def doneLog (r : DocReport) : LogRecord :=
  ⟨.info, "documentation pass complete",
    [("scanned", .int r.stats.scanned), ("updated", .int r.stats.updated), ("skipped", .int r.stats.skipped),
     ("errored", .int r.stats.errored), ("ms", .int 0)]⟩

/-- The log after discovery. -/
def discoveredLog (root : Text) (count : Nat) : LogRecord :=
  ⟨.info, "discovery complete", [("root", .text root), ("files", .int count), ("ms", .int 0)]⟩

/-- The outcome of a run: a report unless the root could not be searched, a fault if the run did
not come to its end, and what it left behind. -/
structure Outcome where
  report : Option DocReport
  fault : Option Fault
  log : List LogRecord
  parsers : Parsers
  metrics : Metrics
  disk : Disk

/-- Runs over a directory, as far as the system gives access to its files. With `cancelAfter` the run is
cancelled once that many files are done. -/
def runBy (gs : Grammars) (access : Access) (s : DocSettings) (cancelAfter : Option Nat) (disk : Disk)
    (parsers : Parsers) (metrics : Metrics) : Outcome :=
  let root := Path.absolute disk.cwd s.dir
  match Discovery.discover disk root s.discovery with
  | .error f => ⟨none, some (.batch root f), [], parsers, metrics, disk⟩
  | .ok paths =>
    let start : DocState :=
      ⟨disk, parsers, metrics, [discoveredLog root paths.length], ⟨root, ⟨0, 0, 0, 0, 0⟩, [], []⟩⟩
    let cancelled := cancelAfter.any fun n => n < paths.length
    let todo := match cancelAfter with
      | some n => paths.take n
      | none => paths
    let st := todo.foldl (step gs access s) start
    { report := some st.report
      fault := if cancelled then some (.interrupted "scan") else none
      log := if cancelled then st.log else st.log ++ [doneLog st.report]
      parsers := st.parsers
      metrics := st.metrics
      disk := st.disk }

/-- Runs over a directory whose files can all be read and written. -/
def run (gs : Grammars) (s : DocSettings) (cancelAfter : Option Nat) (disk : Disk) (parsers : Parsers)
    (metrics : Metrics) : Outcome :=
  runBy gs .full s cancelAfter disk parsers metrics

end DocRun

end DocAtlas

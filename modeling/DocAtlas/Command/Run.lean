/-
Running a command line: the command is found, its flags are read, the settings of the project are
loaded, and its action is carried out. Everything the program needs of the world is given, and what
it did to the world is returned: what it printed, the replies of the server, the files afterwards,
and a fault if it failed.
-/
import DocAtlas.Agents.Setup
import DocAtlas.Command.Help
import DocAtlas.Command.Program
import DocAtlas.Knowledge.Watch
import DocAtlas.Log.Line
import DocAtlas.Project.Load
import DocAtlas.Project.Template
import DocAtlas.Report.Summary
import DocAtlas.Server.Rpc

namespace DocAtlas

/-- What a program is run in. -/
structure World where
  grammars : Grammars
  machine : Machine
  /-- The clock, in milliseconds since 1970. -/
  now : Int
  stamp : RunStamp
  /-- The most parsers of a grammar. -/
  poolSize : Nat

/-- When the program is told to stop. -/
inductive Interrupt where
  | never
  /-- Before it begins. -/
  | before
  /-- Once it watches for changes. -/
  | watching
deriving DecidableEq, Repr

/-- A command line with its input. -/
structure Invocation where
  args : List Text
  stdin : Text
  /-- The lines a server is sent. -/
  messages : List Text
  interrupt : Interrupt

/-- What a program did. -/
structure Ended where
  out : Text
  err : Text
  replies : List Reply
  disk : Disk
  fault : Option Fault

namespace Ended

/-- Nothing was done. -/
def nothing (d : Disk) : Ended := ⟨[], [], [], d, none⟩

def failed (d : Disk) (f : Fault) : Ended := { nothing d with fault := some f }

def printed (d : Disk) (t : Text) : Ended := { nothing d with out := t }

end Ended

/-- A program whose settings are known. -/
structure Ready where
  world : World
  settings : ProjectSettings
  log : LogSettings
  flags : FlagValues
  interrupt : Interrupt

namespace Ready

/-- The number of files after which a run is cancelled. -/
def cancelAfter (r : Ready) : Option Nat := if r.interrupt == .before then some 0 else none

/-- A value as JSON on its own lines. -/
def jsonText (v : Json) : Text := v.pretty ++ "\n"

/-! ## Metrics -/

/-- The name metrics are written under before they take their place. -/
def besides (path : Text) : Text := Path.parent path ++ "/" ++ Path.base path ++ "0"

/-- Writes metrics if there is a file for them. A failure is only logged. -/
def flush (r : Ready) (d : Disk) (m : Metrics) : Disk × List LogRecord :=
  let path := r.settings.metricsFile
  if path.isEmpty then (d, [])
  else
    match d.replaceFile path (besides path) m.render 0o644 with
    | .ok d => (d, [])
    | .error e =>
      (d, [⟨.warn, "Failed to write metrics",
        [("file", .text path), ("error", .text ("write metrics: " ++ e.message))]⟩])

/-! ## Documentation -/

/-- The settings of a documentation run. -/
def docSettings (r : Ready) : DocSettings :=
  let docs := r.settings.docs
  let options := docs.options r.world.now
  { dir := (r.flags.text? "dir").getD docs.dir
    discovery := docs.discovery
    options :=
      { options with
        stamp := if r.flags.isOn "no-timestamp" then none else options.stamp
        skipEmpty := options.skipEmpty || r.flags.isOn "skip-empty" }
    dryRun := r.flags.isOn "dry-run" }

def document (r : Ready) (d : Disk) : Ended :=
  let o := DocRun.run r.world.grammars r.docSettings r.cancelAfter d (Parsers.fresh r.world.poolSize) Metrics.empty
  let (disk, flushed) := r.flush o.disk o.metrics
  let out : Text := match o.fault, o.report with
    | none, some report =>
      if r.flags.isOn "json" then jsonText report.toJson else Summary.docs report (r.flags.isOn "dry-run") 0
    | _, _ => []
  { Ended.nothing disk with
    out
    err := r.log.render (o.log ++ flushed ++ o.parsers.closingLog)
    fault := o.fault }

/-! ## Knowledge -/

/-- The settings of a knowledge run. -/
def knowledgeSettings (r : Ready) : KnowledgeSettings :=
  let s := r.settings.knowledge.run
  { s with dir := (r.flags.text? "dir").getD s.dir, output := (r.flags.text? "output").getD s.output }

/-- Runs over the project. -/
def runKnowledge (r : Ready) (d : Disk) : KnowledgeRun.Outcome :=
  KnowledgeRun.run r.world.grammars r.knowledgeSettings r.world.stamp r.cancelAfter d
    (Extractor.fresh r.world.poolSize) Metrics.empty

/-- The log of an extractor being put away. -/
def closingLog (x : Extractor) : List LogRecord := x.closingLog ++ x.parsers.closingLog

/-- The report of a run that came to its end. -/
def finished? (o : KnowledgeRun.Outcome) : Except Fault KnowledgeReport :=
  match o.fault, o.report with
  | some f, _ => .error f
  | none, some report => .ok report
  | none, none => .error (.plain "no report")

def generate (r : Ready) (d : Disk) : Ended :=
  let o := r.runKnowledge d
  let (disk, flushed) := r.flush o.disk o.metrics
  let err := r.log.render (o.log ++ flushed ++ closingLog o.extractor)
  match finished? o with
  | .error f => { Ended.failed disk f with err }
  | .ok report =>
    let out := if r.flags.isOn "json" then jsonText report.toJson else Summary.knowledge report 0
    { Ended.printed disk out with err }

/-- Opens the knowledge base of the project. -/
def openStore (r : Ready) (d : Disk) : Except Fault (Store × List LogRecord) :=
  let s := r.knowledgeSettings
  let root := Path.absolute d.cwd s.dir
  match Store.open_ d (s.outputDir root) { StoreSettings.default with root } with
  | .ok opened => .ok opened
  | .error f => .error (if f.isNotGenerated then .advised f "run `quickgen knowledge generate` first" else f)

def query (r : Ready) (d : Disk) (file : Text) : Ended :=
  match r.openStore d with
  | .error f => .failed d f
  | .ok (store, log) =>
    let ended := match store.view? file with
      | none => Ended.failed d (.plain ("no knowledge recorded for " ++ file))
      | some view => .printed d (if r.flags.isOn "json" then jsonText view.toJson else Summary.view view)
    { ended with err := r.log.render log }

def trace (r : Ready) (d : Disk) (symbol : Text) : Ended :=
  match r.openStore d with
  | .error f => .failed d f
  | .ok (store, log) =>
    let (found, more, _) := store.trace d ⟨symbol, r.flags.isOn "detailed"⟩
    let ended := match found with
      | .error f => Ended.failed d f
      | .ok t => .printed d (if r.flags.isOn "json" then jsonText t.toJson else Summary.trace t)
    { ended with err := r.log.render (log ++ more) }

/-- How long changes are gathered before a run, in milliseconds. -/
def debounceMs : Nat := 200

/-- Starts to watch the project and stops again; what was logged, and between the two `during`. -/
def watchWhile (r : Ready) (d : Disk) (during : List LogRecord) : Except Fault (List LogRecord) :=
  let (started, w) := (Watcher.new d.cwd r.knowledgeSettings).start d debounceMs
  started.map fun log => log ++ during ++ w.stop.2

def watch (r : Ready) (d : Disk) : Ended :=
  let o := r.runKnowledge d
  match finished? o with
  | .error f => { Ended.failed o.disk f with err := r.log.render (o.log ++ closingLog o.extractor) }
  | .ok report =>
    let (disk, flushed) := r.flush o.disk o.metrics
    let seen := r.watchWhile disk [⟨.info, "Watching for changes", [("root", .text report.root)]⟩]
    { Ended.printed disk (Summary.knowledge report 0) with
      err := r.log.render (o.log ++ flushed ++ seen.toOption.getD [] ++ closingLog o.extractor)
      fault := match seen with
        | .error f => some f
        | .ok _ => none }

/-! ## The server -/

/-- Answers the messages of a client. -/
def answerAll (r : Ready) (d : Disk) (calls : Option CallLog) (messages : List Text) : Served (List Reply) :=
  let s := r.knowledgeSettings
  let root := Path.absolute d.cwd s.dir
  let settings : ServerSettings := ⟨root, s.outputDir root, r.settings.docs.options r.world.now⟩
  Rpc.serve r.world.grammars (r.world.now, r.world.now) d
    (Server.start settings (Parsers.fresh r.world.poolSize) calls) messages

def serve (r : Ready) (d : Disk) (messages : List Text) : Ended :=
  match CallLog.open_ d r.settings.callLogFile with
  | .error f => .failed d f
  | .ok (d, calls) =>
    if !r.flags.isOn "watch" then
      let served := r.answerAll d calls messages
      { Ended.nothing served.disk with
        replies := served.outcome
        err := r.log.render (served.log ++ served.server.parsers.closingLog) }
    else
      let idle := (Parsers.fresh r.world.poolSize).closingLog
      let o := r.runKnowledge d
      match finished? o with
      | .error f => { Ended.failed o.disk f with err := r.log.render (o.log ++ closingLog o.extractor ++ idle) }
      | .ok _ =>
        let served := r.answerAll o.disk calls messages
        match r.watchWhile o.disk served.log with
        | .error f => { Ended.failed o.disk f with err := r.log.render (o.log ++ closingLog o.extractor ++ idle) }
        | .ok seen =>
          { Ended.nothing served.disk with
            replies := served.outcome
            err := r.log.render
              (o.log ++ seen ++ closingLog o.extractor ++ served.server.parsers.closingLog) }

/-! ## Settings up -/

def setup (r : Ready) (d : Disk) (stdin : Text) : Ended :=
  let s := Setup.run r.world.machine (r.flags.isOn "auto") d stdin
  ⟨s.out, s.err, [], s.disk, none⟩

end Ready

namespace Program

/-- A text between grave accents if it can stand there, else quoted. -/
def topic (t : Text) : Text :=
  let isPlain (r : Rune) : Bool := r.code.any fun n => n != 96 && n != 127 && n != 0xFEFF && (32 ≤ n || n == 9)
  if t.runes.all isPlain then 96 :: t ++ [96] else Text.quoted t

/-- The help on a command that is named by operands. -/
def helpOn (words : List Text) : Text :=
  match root.locate words with
  | .ok (path, _) => path.help
  | .error _ => "Unknown help topic [" ++ Text.joinWith " " (words.map topic) ++ "]\n" ++
    (CommandPath.mk root []).usage false

/-- The settings file of a command line. -/
def settingsFile (flags : FlagValues) : Text :=
  ((flags.reverse.find? fun e => e.1 == ("config" : Text)).map Prod.snd).getD settingsPath

/-- The settings a command works with, and how its log looks. -/
def ready (w : World) (d : Disk) (flags : FlagValues) (interrupt : Interrupt) : Except Fault Ready := do
  let settings ← ProjectSettings.load d (settingsFile flags) (flags.isGiven "config")
  let level := (flags.text? "log-level").getD settings.log.level
  let format := (flags.text? "log-format").getD settings.log.format
  return ⟨w, settings, ⟨LogLevel.ofInput level, format == ("json" : Text)⟩, flags, interrupt⟩

/-- Carries out an action. -/
def act (w : World) (d : Disk) (i : Invocation) (flags : FlagValues) (operands : List Text) (a : Action) : Ended :=
  let operand := operands.head?.getD []
  let withSettings (f : Ready → Ended) : Ended :=
    match ready w d flags i.interrupt with
    | .error e => .failed d e
    | .ok r => f r
  match a with
  | .version => .printed d (Product.name ++ " " ++ Product.version ++ "\n")
  | .init =>
    let path := settingsFile flags
    match ProjectSettings.writeTemplate d path (flags.isOn "force") with
    | .ok d => .printed d ("Wrote " ++ path ++ "\n")
    | .error f => .failed d f
  | .help => withSettings fun _ => .printed d (helpOn operands)
  | .completion shell => withSettings fun _ => .failed d (.plain ("no completion script for " ++ shell))
  | .document => withSettings fun r => r.document d
  | .generate => withSettings fun r => r.generate d
  | .query => withSettings fun r => r.query d operand
  | .trace => withSettings fun r => r.trace d operand
  | .watch => withSettings fun r => r.watch d
  | .serve => withSettings fun r => r.serve d i.messages
  | .setup => withSettings fun r => r.setup d i.stdin

/-- What is wrong with the number of operands. -/
def operandFault? (p : CommandPath) (operands : List Text) : Option UsageFault :=
  match p.command.info.arity, operands with
  | .any, _ => none
  | .exactly 0, [] => none
  | .exactly 0, word :: _ => some (.unknownCommand word p.words [])
  | .exactly n, _ => if operands.length = n then none else some (.operandCount n operands.length)

/-- Whether a command line is one of those that read their standard input. -/
def readsInput (args : List Text) : Bool :=
  match root.locate args with
  | .ok (path, _) => path.command.info.action == some .serve || path.command.info.action == some .setup
  | .error _ => false

/-- Runs a command line. -/
def run (w : World) (d : Disk) (i : Invocation) : Ended :=
  let misused (u : UsageFault) : Ended := .failed d (.plain u.message)
  match root.locate i.args with
  | .error u => misused u
  | .ok (path, args) =>
    match Flag.parse (Command.helpFlag path.command.name :: path.flags) args with
    | .error u => misused u
    | .ok (flags, operands) =>
      match if flags.isOn "help" then none else path.command.info.action with
      | none => .printed d path.help
      | some a =>
        match operandFault? path operands with
        | some u => misused u
        | none => act w d i flags operands a

end Program

end DocAtlas

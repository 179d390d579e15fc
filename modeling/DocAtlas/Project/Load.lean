/-
Loading the settings of a project from a file: it is read over the default settings, keys that are
no settings are refused, and what was read is checked. All that is wrong is told at once.
-/
import DocAtlas.Project.Settings
import DocAtlas.Yaml.Record

namespace DocAtlas

open Yaml

namespace DocsSection

def fields : List (RecordField DocsSection) :=
  [.plain "dir" Reading.text fun x s => { s with dir := x },
   .plain "include" Reading.texts fun x s => { s with includes := x },
   .plain "exclude" Reading.texts fun x s => { s with excludes := x },
   .plain "timestamp" Reading.bool fun x s => { s with timestamp := x },
   .plain "skip_empty_props" Reading.bool fun x s => { s with skipEmpty := x },
   .plain "wrappers" Reading.texts fun x s => { s with wrappers := x },
   .plain "respect_gitignore" Reading.bool fun x s => { s with respectIgnores := x }]

def read : Yaml.Node → DocsSection → Reading DocsSection := readRecord "main.DocsConfig" fields

end DocsSection

namespace KnowledgeSection

def fields : List (RecordField KnowledgeSection) :=
  [.plain "dir" Reading.text fun x s => { s with dir := x },
   .plain "output" Reading.text fun x s => { s with output := x },
   .plain "include" Reading.texts fun x s => { s with includes := x },
   .plain "exclude" Reading.texts fun x s => { s with excludes := x }]

def read : Yaml.Node → KnowledgeSection → Reading KnowledgeSection := readRecord "main.KnowledgeConfig" fields

end KnowledgeSection

namespace LogSection

def fields : List (RecordField LogSection) :=
  [.plain "level" Reading.text fun x s => { s with level := x },
   .plain "format" Reading.text fun x s => { s with format := x }]

def read : Yaml.Node → LogSection → Reading LogSection := readRecord "main.LogConfig" fields

end LogSection

namespace ProjectSettings

/-- A section that is one text. -/
def readSingle (type key : Text) : Yaml.Node → Text → Reading Text :=
  readRecord type [RecordField.plain key Reading.text fun x _ => x]

def fields : List (RecordField ProjectSettings) :=
  [.part "docs" docs DocsSection.read fun x s => { s with docs := x },
   .part "knowledge" knowledge KnowledgeSection.read fun x s => { s with knowledge := x },
   .part "log" log LogSection.read fun x s => { s with log := x },
   .part "mcp" callLogFile (readSingle "main.MCPConfig" "log_file") fun x s => { s with callLogFile := x },
   .part "metrics" metricsFile (readSingle "main.MetricsConfig" "file") fun x s => { s with metricsFile := x }]

def read : Yaml.Node → ProjectSettings → Reading ProjectSettings := readRecord "main.ProjectConfig" fields

/-! ## Checks -/

/-- The complaint about a text that has to be given. -/
def required (key t : Text) : List Text := if t.isEmpty then [key ++ " must be set"] else []

/-- The key of an item of a list. -/
def itemKey (key : Text) (i : Nat) : Text := key ++ "[" ++ Text.ofNat i ++ "]"

/-- The complaint about a glob that is malformed. -/
def globChecked (key g : Text) : List Text :=
  if Glob.isValid g then [] else [key ++ ": invalid glob " ++ Text.quoted g]

/-- The complaints about the items of a list. -/
def each (check : (key item : Text) → List Text) (key : Text) (items : Listing Text) : List Text :=
  (items.getD []).zipIdx.flatMap fun (item, i) => check (itemKey key i) item

/-- The complaints about globs of which there must be one. -/
def someGlobs (key : Text) (globs : Listing Text) : List Text :=
  if (globs.getD []).isEmpty then [key ++ " must be set"] else each globChecked key globs

/-- The complaint about a text that is none of the allowed ones. -/
def oneOf (allowed : List Text) (key t : Text) : List Text :=
  if allowed.contains t then []
  else [key ++ ": " ++ Text.quoted t ++ " is not one of [" ++ Text.joinWith " " allowed ++ "]"]

/-- All that is wrong with settings. -/
def complaints (s : ProjectSettings) : List Text :=
  List.flatten
    [required "docs.dir" s.docs.dir,
     someGlobs "docs.include" s.docs.includes,
     each globChecked "docs.exclude" s.docs.excludes,
     each required "docs.wrappers" s.docs.wrappers,
     required "knowledge.dir" s.knowledge.dir,
     required "knowledge.output" s.knowledge.output,
     someGlobs "knowledge.include" s.knowledge.includes,
     each globChecked "knowledge.exclude" s.knowledge.excludes,
     oneOf ["debug", "info", "warn", "warning", "error"] "log.level" s.log.level,
     oneOf ["text", "json"] "log.format" s.log.format]

/-! ## Files -/

/-- The settings a text gives, over the default ones. -/
def ofYaml (text : Text) : Except Fault ProjectSettings :=
  match Yaml.parse? text with
  | none => .error .yamlSyntax
  | some none => .ok default
  | some (some n) =>
    match (read n default).run [] with
    | none => .error .yamlSyntax
    | some (s, []) => .ok s
    | some (_, cs) => .error (.yamlShape cs)

/-- The settings in a file. Without the file they are the default ones, unless it is required. -/
def load (d : Disk) (path : Text) (fileRequired : Bool) : Except Fault ProjectSettings :=
  match d.readFile path with
  | .error e => if e.errno = .notFound ∧ !fileRequired then .ok default else .error (.during "read config" (.os e))
  | .ok text =>
    match ofYaml text with
    | .error f => .error (.during ("parse " ++ path) f)
    | .ok s =>
      match s.complaints with
      | [] => .ok s
      | cs => .error (.during ("invalid " ++ path) (.plain (Text.joinWith "; " cs)))

end ProjectSettings

end DocAtlas

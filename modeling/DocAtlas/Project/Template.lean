/-
The settings file a new project starts with: the default settings, with a comment on what is not
plain from its name.
-/
import DocAtlas.Project.Settings
import DocAtlas.Yaml.Resolve
import DocAtlas.Yaml.Tokens

namespace DocAtlas

namespace Yaml

/-- A line of text as a scalar: plain if that would be read as the same text, else in quotes. -/
def written (t : Text) : Text :=
  if Meaning.ofPlain [] t != .text then "\"" ++ t ++ "\""
  else if t.head?.any Lexing.notPlain.contains then "'" ++ t ++ "'"
  else t

/-- The blanks before a line, `depth` levels in. -/
def indentation (depth : Nat) : Text := List.replicate (2 * depth) 32

/-- A key with what follows it, `depth` levels in. -/
def keyLine (depth : Nat) (key rest : Text) : Text := indentation depth ++ key ++ ":" ++ rest ++ "\n"

/-- A key with a text. -/
def textLine (depth : Nat) (key t : Text) : Text := keyLine depth key (" " ++ written t)

/-- A key with a truth value. -/
def boolLine (depth : Nat) (key : Text) (b : Bool) : Text := keyLine depth key (" " ++ Text.ofBool b)

/-- An item of a list. -/
def itemLine (depth : Nat) (t : Text) : Text := indentation depth ++ "- " ++ written t ++ "\n"

/-- A key with a list. -/
def listLines (depth : Nat) (key : Text) (ts : Listing Text) : Text :=
  keyLine depth key [] ++ (ts.getD []).flatMap (itemLine (depth + 1))

/-- A comment. -/
def remark (depth : Nat) (t : Text) : Text := indentation depth ++ "# " ++ t ++ "\n"

end Yaml

open Yaml

namespace DocsSection

def template (s : DocsSection) : Text :=
  List.flatten
    [remark 0 "Documentation pass (quickgen react).", keyLine 0 "docs" [],
     remark 1 "Directory scanned for components.", textLine 1 "dir" s.dir,
     listLines 1 "include" s.includes, listLines 1 "exclude" s.excludes,
     remark 1 "Add an @generated <unix-ms> line to each block.", boolLine 1 "timestamp" s.timestamp,
     remark 1 "Do not document components without inferred props.", boolLine 1 "skip_empty_props" s.skipEmpty,
     remark 1 "Higher-order functions whose first argument is a component.", listLines 1 "wrappers" s.wrappers,
     remark 1 "Skip paths matched by the root .gitignore.", boolLine 1 "respect_gitignore" s.respectIgnores]

end DocsSection

namespace KnowledgeSection

def template (s : KnowledgeSection) : Text :=
  List.flatten
    [remark 0 "Knowledge base (quickgen knowledge).", keyLine 0 "knowledge" [],
     textLine 1 "dir" s.dir,
     remark 1 "Output directory, relative to knowledge.dir.", textLine 1 "output" s.output,
     listLines 1 "include" s.includes, listLines 1 "exclude" s.excludes]

end KnowledgeSection

namespace LogSection

def template (s : LogSection) : Text :=
  List.flatten
    [keyLine 0 "log" [],
     remark 1 "debug, info, warn or error.", textLine 1 "level" s.level,
     remark 1 "text or json.", textLine 1 "format" s.format]

end LogSection

namespace ProjectSettings

/-- Settings as a file. -/
def template (s : ProjectSettings) : Text :=
  List.flatten
    [remark 0 "quickgen project configuration",
     s.docs.template, s.knowledge.template, s.log.template,
     keyLine 0 "mcp" [],
     remark 1 "Append one JSON line per MCP tool call to this file.", textLine 1 "log_file" s.callLogFile,
     keyLine 0 "metrics" [],
     remark 1 "Write Prometheus metrics here after each run.", textLine 1 "file" s.metricsFile]

/-- Writes the settings file of a new project. A file that is there stays unless `force`. -/
def writeTemplate (d : Disk) (path : Text) (force : Bool) : Except Fault Disk :=
  if (d.stat path).isOk && !force then
    .error (.plain (path ++ " already exists (use --force to overwrite)"))
  else
    match d.mkdirAll (Path.parent path) with
    | .error e => .error (.during "create config directory" (.os e))
    | .ok d =>
      match d.writeFile path default.template 0o644 with
      | .error e => .error (.os e)
      | .ok d => .ok d

end ProjectSettings

end DocAtlas

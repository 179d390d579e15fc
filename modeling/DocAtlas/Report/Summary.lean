/-
Reports for people: the summary of a run, what is recorded of a file and the trace of a symbol, as
plain text.
-/
import DocAtlas.Component.Run
import DocAtlas.Knowledge.Generate
import DocAtlas.Knowledge.View

namespace DocAtlas.Summary

/-- A text filled up with blanks to at least `width` characters. -/
def padded (width : Nat) (t : Text) : Text := t ++ List.replicate (width - t.runes.length) 32

/-- One line for each file that was passed over. -/
def faults (fs : List FileFault) : Text :=
  fs.flatMap fun f => "! " ++ f.path ++ ": " ++ f.cause.message ++ "\n"

/-- The mark of a run: all went well or not. -/
def mark (errored : Nat) : Text := if errored = 0 then "✓" else "⚠"

def errored (n : Nat) : Text := Text.ofNat n ++ " errored"

/-- The end of a documentation run that took `ms` milliseconds. A dry run shows its diffs first. -/
def docs (r : DocReport) (dryRun : Bool) (ms : Int) : Text :=
  let diffs : Text := if dryRun then r.files.flatMap FileReport.diff else []
  let verb : Text := if dryRun then "would update" else "updated"
  let s := r.stats
  diffs ++ faults r.faults ++ mark s.errored ++ " Scanned " ++ Text.ofNat s.scanned ++ " files: " ++
    Text.ofNat s.updated ++ " " ++ verb ++ ", " ++ Text.ofNat s.skipped ++ " skipped, " ++ errored s.errored ++
    " (" ++ Text.ofNat s.components ++ " components) in " ++ Text.ofInt ms ++ "ms\n"

/-- The end of a knowledge run that took `ms` milliseconds. -/
def knowledge (r : KnowledgeReport) (ms : Int) : Text :=
  let s := r.stats
  faults r.faults ++ mark s.errored ++ " Knowledge base written to " ++ r.outputDir ++ "\n  files " ++
    Text.ofNat s.extracted ++ " (" ++ Text.ofNat s.skipped ++ " skipped, " ++ errored s.errored ++ "), symbols " ++
    Text.ofNat s.symbols ++ ", imports " ++ Text.ofNat s.imports ++ ", calls " ++ Text.ofNat s.calls ++ " in " ++
    Text.ofInt ms ++ "ms\n"

/-! ## Files and symbols -/

/-- The head of a section with `n` lines. -/
def heading (name : Text) (n : Nat) : Text := "\n" ++ name ++ " (" ++ Text.ofNat n ++ ")\n"

/-- A section with one entry for each item. -/
def listed {α : Type} (name : Text) (entry : α → Text) (items : Listing α) : Text :=
  heading name (items.getD []).length ++ (items.getD []).flatMap entry

/-- A line or a range of lines. -/
def lines (first last : Int) : Text :=
  if first = last then "L" ++ Text.ofInt first else "L" ++ Text.ofInt first ++ "-" ++ Text.ofInt last

/-- A binding of an import. -/
def specifier (s : Specifier) : Text :=
  if s.type = "ImportNamespaceSpecifier" then "* as " ++ s.localName
  else if !s.imported.isEmpty && s.imported != s.localName then s.imported ++ " as " ++ s.localName
  else s.localName

/-- The bindings of an import. -/
def specifiers (ss : List Specifier) : Text :=
  if ss.isEmpty then "(side effect)" else Text.joinWith ", " (ss.map specifier)

def symbolLine (s : SymbolFact) : Text :=
  "  " ++ padded 9 s.kind ++ " " ++ s.name ++ " " ++ lines s.startLine s.endLine ++ "\n"

def importLine (i : ImportFact) : Text :=
  "  " ++ Text.quoted i.source ++ " " ++ specifiers (i.specifiers.getD []) ++ "\n"

def exportLine (e : ExportFact) : Text :=
  let inner : Text :=
    if !e.localName.isEmpty && e.localName != e.name then " (" ++ e.localName ++ ")" else []
  let origin : Text := if e.source.isEmpty then [] else " from " ++ Text.quoted e.source
  "  " ++ e.name ++ inner ++ origin ++ "\n"

def referenceLine (r : Reference) : Text :=
  if r.type = "extends" then "  extends " ++ r.name ++ " " ++ lines r.line r.line ++ "\n"
  else "  " ++ r.localName ++ " from " ++ Text.quoted r.source ++ "\n"

def callLine (c : CallFact) : Text :=
  "  " ++ c.name ++ "(" ++ Text.joinWith ", " (c.arguments.getD []) ++ ") in " ++ c.context ++ " " ++
    lines c.line c.line ++ "\n"

/-- All that is recorded of a file. -/
def view (v : FileView) : Text :=
  v.file ++ "\n" ++ listed "Symbols" symbolLine v.symbols ++ listed "Imports" importLine v.imports ++
    listed "Exports" exportLine v.exports ++ listed "References" referenceLine v.references ++
    listed "Calls" callLine v.calls

/-- A definition, with its source lines if they are known. -/
def definition (d : Definition) : Text :=
  let snippet : Text :=
    if d.snippet.isEmpty then [] else (Text.lines d.snippet).flatMap fun l => "    " ++ l ++ "\n"
  "  " ++ d.file ++ ":" ++ Text.ofInt d.symbol.startLine ++ " " ++ d.symbol.kind ++ "\n" ++ snippet

/-- The calls in one file. -/
def fileCalls (c : InFile CallFact) : Text :=
  (c.items.getD []).flatMap fun call =>
    "  " ++ c.file ++ ":" ++ Text.ofInt call.line ++ " in " ++ call.context ++ "\n"

/-- Where a symbol is declared, called and imported. -/
def trace (t : Trace) : Text :=
  let calls := t.calls.getD []
  t.symbol ++ "\n" ++ listed "Defined in" definition t.definitions ++
    heading "Called from" (calls.foldl (fun n c => n + (c.items.getD []).length) 0) ++ calls.flatMap fileCalls ++
    listed "Imported by" (fun i => "  " ++ i.file ++ "\n") t.imports

end DocAtlas.Summary

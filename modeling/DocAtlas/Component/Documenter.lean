/-
Documenting one source: parse it, survey it, and insert a block above every component that has
none.
-/
import DocAtlas.Component.Survey
import DocAtlas.Source.Parsers

namespace DocAtlas

/-- What documenting a source gave. -/
structure Documented where
  findings : List Finding
  output : Text

namespace Documented

def components (d : Documented) : List ComponentInfo := d.findings.filterMap Finding.component?

def skips (d : Documented) : List Skipped := d.findings.filterMap Finding.skipped?

def insertions (d : Documented) : List Insertion := d.findings.filterMap Finding.insertion?

/-- The log of a finding. -/
def findingLog : Finding → List LogRecord
  | .documented info _ =>
    [⟨.debug, "component documented",
      [("component", .text info.name), ("kind", .text info.kind.name),
       ("props", .int info.contract.props.size), ("line", .int info.line)]⟩]
  | .skipped ⟨name, _, .missingLocation⟩ =>
    [⟨.debug, "component skipped",
      [("component", .text name), ("error", .text "candidate has no usable source location")]⟩]
  | .skipped ⟨name, line, .annotated⟩ =>
    [⟨.debug, "component already documented", [("component", .text name), ("line", .int line)]⟩]
  | .skipped _ => []

end Documented

/-- Surveys a tree and makes its insertions in a source. -/
def document (options : DocOptions) (tree : SyntaxTree) (src : Text) : Except Fault Documented :=
  let findings := (Survey.mk options tree src).findings
  match Insertion.apply src (findings.filterMap Finding.insertion?) with
  | .ok output => .ok ⟨findings, output⟩
  | .error e => .error (.outOfRange e)

/-- Documents a source; the path only selects the grammar. -/
def annotate (gs : Grammars) (p : Parsers) (options : DocOptions) (path src : Text) :
    Except Fault Documented × List LogRecord × Parsers :=
  let r := p.parseFile gs path src
  match r.fault, r.tree with
  | some f, _ => (.error f, r.log, r.parsers)
  | none, none => (.error .unknownLanguage, r.log, r.parsers)
  | none, some tree =>
    match document options tree src with
    | .error f => (.error f, r.log, r.parsers)
    | .ok d => (.ok d, r.log ++ d.findings.flatMap Documented.findingLog, r.parsers)

end DocAtlas

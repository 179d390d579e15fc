/-
Facts read back from JSON.
-/
import DocAtlas.Json.Decode
import DocAtlas.Knowledge.Facts

namespace DocAtlas

open Json (RecordField)

namespace Json

/-- A list of texts. -/
def texts? : Json → Option (Option (List Text)) := list? (orBlank [] text?)

end Json

namespace SymbolFact

def blank : SymbolFact := ⟨[], [], 0, 0, false, [], [], false, false, [], [], []⟩

/-- The fields of a declaration. -/
def fields : List (RecordField SymbolFact) :=
  [.plain "kind" Json.text? fun x s => { s with kind := x },
   .plain "name" Json.text? fun x s => { s with name := x },
   .plain "startLine" Json.int? fun x s => { s with startLine := x },
   .plain "endLine" Json.int? fun x s => { s with endLine := x },
   .plain "exported" Json.bool? fun x s => { s with exported := x },
   .plain "declaration" Json.text? fun x s => { s with declaration := x },
   .whole "params" Json.texts? fun x s => { s with params := x.getD [] },
   .plain "async" Json.bool? fun x s => { s with async := x },
   .plain "generator" Json.bool? fun x s => { s with generator := x },
   .plain "superClass" Json.text? fun x s => { s with superClass := x },
   .whole "methods" Json.texts? fun x s => { s with methods := x.getD [] },
   .whole "properties" Json.texts? fun x s => { s with properties := x.getD [] }]

def ofJson? : Json → Option SymbolFact := Json.record? blank fields

end SymbolFact

namespace Specifier

def ofJson? : Json → Option Specifier :=
  Json.record? ⟨[], [], []⟩
    [.plain "type" Json.text? fun x s => { s with type := x },
     .plain "local" Json.text? fun x s => { s with localName := x },
     .plain "imported" Json.text? fun x s => { s with imported := x }]

end Specifier

namespace ImportFact

def ofJson? : Json → Option ImportFact :=
  Json.record? ⟨[], none, 0, 0⟩
    [.plain "source" Json.text? fun x i => { i with source := x },
     .whole "specifiers" (Json.list? Specifier.ofJson?) fun x i => { i with specifiers := x },
     .plain "startLine" Json.int? fun x i => { i with startLine := x },
     .plain "endLine" Json.int? fun x i => { i with endLine := x }]

end ImportFact

namespace ExportFact

def ofJson? : Json → Option ExportFact :=
  Json.record? ⟨[], [], false, [], 0⟩
    [.plain "name" Json.text? fun x e => { e with name := x },
     .plain "local" Json.text? fun x e => { e with localName := x },
     .plain "default" Json.bool? fun x e => { e with isDefault := x },
     .plain "source" Json.text? fun x e => { e with source := x },
     .plain "line" Json.int? fun x e => { e with line := x }]

end ExportFact

namespace CallFact

def ofJson? : Json → Option CallFact :=
  Json.record? ⟨[], none, [], 0, 0⟩
    [.plain "name" Json.text? fun x c => { c with name := x },
     .whole "arguments" Json.texts? fun x c => { c with arguments := x },
     .plain "context" Json.text? fun x c => { c with context := x },
     .plain "line" Json.int? fun x c => { c with line := x },
     .plain "endLine" Json.int? fun x c => { c with endLine := x }]

end CallFact

namespace FileFacts

def ofJson? : Json → Option FileFacts :=
  Json.record? ⟨[], [], [], [], [], []⟩
    [.plain "path" Json.text? fun x f => { f with path := x },
     .plain "language" Json.text? fun x f => { f with language := x },
     .whole "symbols" (Json.list? SymbolFact.ofJson?) fun x f => { f with symbols := x.getD [] },
     .whole "imports" (Json.list? ImportFact.ofJson?) fun x f => { f with imports := x.getD [] },
     .whole "exports" (Json.list? ExportFact.ofJson?) fun x f => { f with exports := x.getD [] },
     .whole "calls" (Json.list? CallFact.ofJson?) fun x f => { f with calls := x.getD [] }]

end FileFacts

end DocAtlas

/-
Reports of documentation runs as JSON. The duration of a run is not part of a report's value and is
written as zero.
-/
import DocAtlas.Component.Run

namespace DocAtlas

namespace ComponentInfo

def toJson (c : ComponentInfo) : Json :=
  .obj [("name", .str c.name), ("kind", .str c.kind.name), ("paramName", .str c.contract.param),
    ("props", .strs c.contract.props.keys), ("hasSpreadProps", .bool c.contract.spread), ("line", .nat c.line)]

end ComponentInfo

namespace Skipped

def toJson (s : Skipped) : Json :=
  .obj [("name", .str s.name), ("line", .nat s.line), ("reason", .str s.reason.name)]

end Skipped

namespace Json

/-- A list that is left out if empty. -/
def unlessNil (key : Text) (items : List Json) : List (Text × Json) :=
  if items.isEmpty then [] else [(key, arr items)]

/-- A list that is null if there is nothing in it. -/
def arrOrNull (items : List Json) : Json := if items.isEmpty then null else arr items

end Json

namespace FileReport

def toJson (f : FileReport) : Json :=
  .obj (List.flatten
    [[("path", .str f.path)], Json.unlessNil "components" (f.components.map ComponentInfo.toJson),
     Json.unlessNil "skipped" (f.skips.map Skipped.toJson), [("updated", .bool f.updated)]])

end FileReport

namespace DocStats

def toJson (s : DocStats) : Json :=
  .obj [("scanned", .nat s.scanned), ("updated", .nat s.updated), ("skipped", .nat s.skipped),
    ("errored", .nat s.errored), ("components", .nat s.components), ("durationMs", .nat 0)]

end DocStats

namespace DocReport

def toJson (r : DocReport) : Json :=
  .obj (List.flatten
    [[("root", .str r.root), ("stats", r.stats.toJson), ("files", Json.arrOrNull (r.files.map FileReport.toJson))],
     Json.unlessNil "errors" (r.faults.map FileFault.toJson)])

end DocReport

end DocAtlas

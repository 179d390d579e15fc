/-
Faults of single files, which a run records and goes on from.
-/
import DocAtlas.Fault
import DocAtlas.Log.Record

namespace DocAtlas

/-- A fault of the file at a relative path, and at what it occurred. -/
structure FileFault where
  path : Text
  kind : Text
  cause : Fault
deriving Repr

namespace FileFault

def message (f : FileFault) : Text := f.path ++ " (" ++ f.kind ++ "): " ++ f.cause.message

def toJson (f : FileFault) : Json :=
  .obj [("path", .str f.path), ("kind", .str f.kind), ("message", .str f.cause.message)]

/-- The log of a file passed over. -/
def log (f : FileFault) : LogRecord :=
  ⟨.warn, "file skipped",
    [("file", .text f.path), ("kind", .text f.kind), ("error", .text f.cause.message)]⟩

end FileFault

end DocAtlas

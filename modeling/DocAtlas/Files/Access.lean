/-
Files that the system may refuse for reasons of its own: their permissions, a disk that is full, a device that
gives out. A file that is opened to be written is empty from then on; if the write breaks off, the first bytes of
the new content are there and the old content is gone.
-/
import DocAtlas.Fault
import DocAtlas.Files.Disk

namespace DocAtlas

/-- How far the writing of a file gets. -/
inductive WriteAccess where
  | whole
  /-- The file is not opened. -/
  | refused (f : Fault)
  /-- The file is opened, and so many bytes of the new content are written. -/
  | broken (count : Nat) (f : Fault)

/-- What the system allows with the files of a disk, by their paths. -/
structure Access where
  /-- What keeps a file from being read. -/
  unread? : (path : Text) → Option Fault
  write : (path : Text) → WriteAccess

namespace Access

/-- Nothing is refused. -/
def full : Access := ⟨fun _ => none, fun _ => .whole⟩

end Access

namespace Disk

/-- The content of a file that may be refused. -/
def readBy (a : Access) (d : Disk) (path : Text) : Except Fault Text :=
  match a.unread? path with
  | some f => .error f
  | none => (d.readFile path).mapError .os

/-- Writes a file as far as that gets: the fault if it does not hold the content, and the disk that is left. -/
def writeBy (a : Access) (d : Disk) (path content : Text) (mode : Nat) : Option Fault × Disk :=
  match a.write path with
  | .whole =>
    match d.writeFile path content mode with
    | .ok d => (none, d)
    | .error e => (some (.os e), d)
  | .refused f => (some f, d)
  | .broken count f =>
    match d.writeFile path (content.take count) mode with
    | .ok d => (some f, d)
    | .error e => (some (.os e), d)

end Disk

end DocAtlas

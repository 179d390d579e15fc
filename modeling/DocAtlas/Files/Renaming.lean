/-
The operations by which a file comes to its place under another name: it is made where nothing stands, its
permission bits are set, and it is renamed or taken away.
-/
import DocAtlas.Files.Disk

namespace DocAtlas.Disk

/-- Makes an empty file where nothing stands, for its owner only; its place, and the disk with it. -/
def createNew (d : Disk) (path : Text) : Except OsError (List Text × Disk) :=
  match d.resolve false path with
  | .ok (.free dir name) => .ok (dir ++ [name], { d with root := d.root.set (some (.file [] 0o600)) (dir ++ [name]) })
  | .ok (.found _ _) => .error ⟨"open", path, none, .alreadyExists⟩
  | .error errno => .error ⟨"open", path, none, errno⟩

/-- Sets the permission bits of a file. -/
def chmod (d : Disk) (path : Text) (mode : Nat) : Except OsError Disk :=
  match d.resolve true path with
  | .ok (.found at_ (.file content _)) => .ok { d with root := d.root.set (some (.file content mode)) at_ }
  | .ok (.found _ _) => .ok d
  | .ok (.free _ _) => .error ⟨"chmod", path, none, .notFound⟩
  | .error errno => .error ⟨"chmod", path, none, errno⟩

/-- Where a rename to a path ends, unless a directory stands there. -/
def landing (d : Disk) (path : Text) : Except Errno (List Text) :=
  match d.resolve false path with
  | .ok (.found _ (.dir _)) => .error .alreadyExists
  | .ok (.found at_ _) => .ok at_
  | .ok (.free dir name) => .ok (dir ++ [name])
  | .error errno => .error errno

/-- Gives what stands at a path another name, in the place of what has that name. -/
def rename (d : Disk) (path target : Text) : Except OsError Disk :=
  match d.resolve false path with
  | .ok (.found at_ e) =>
    match d.landing target with
    | .ok landed => .ok { d with root := (d.root.set none at_).set (some e) landed }
    | .error errno => .error ⟨"rename", path, some target, errno⟩
  | .ok (.free _ _) => .error ⟨"rename", path, some target, .notFound⟩
  | .error errno => .error ⟨"rename", path, some target, errno⟩

/-- Takes away a file, a link or an empty directory. -/
def remove (d : Disk) (path : Text) : Except OsError Disk :=
  match d.resolve false path with
  | .ok (.found _ (.dir (_ :: _))) => .error ⟨"remove", path, none, .notEmpty⟩
  | .ok (.found at_ _) => .ok { d with root := d.root.set none at_ }
  | .ok (.free _ _) => .error ⟨"remove", path, none, .notFound⟩
  | .error errno => .error ⟨"remove", path, none, errno⟩

end DocAtlas.Disk

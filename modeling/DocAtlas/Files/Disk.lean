/-
A file system as a value: directories of named entries, files with contents and permission bits,
and symbolic links. Operations resolve paths as a system does, following links up to a bound, and
return what changed.
-/
import DocAtlas.Files.OsError
import DocAtlas.Files.Path
import DocAtlas.Text.Table

namespace DocAtlas

/-- What stands under a name. -/
inductive Entry where
  | file (content : Text) (mode : Nat)
  | link (target : Text)
  | dir (entries : List (Text × Entry))
deriving Repr

namespace Entry

def emptyDir : Entry := dir []

def isDir : Entry → Bool
  | dir _ => true
  | _ => false

/-- The entry at a path of names below an entry. -/
def get? : (path : List Text) → Entry → Option Entry
  | [], e => some e
  | n :: ns, dir es => (Table.find? n es).bind (get? ns)
  | _ :: _, _ => none

/-- Puts an entry at a path of names, or takes away what is there. Directories on the way must
exist. -/
def set (new : Option Entry) : (path : List Text) → Entry → Entry
  | [], e => new.getD e
  | [n], dir es =>
    match new with
    | some e => dir (Table.put n e es)
    | none => dir (Table.erase n es)
  | n :: m :: ns, dir es =>
    match Table.find? n es with
    | some e => dir (Table.put n (set new (m :: ns) e) es)
    | none => dir es
  | _ :: _, e => e

mutual

/-- The files below an entry with their paths, in byte order of names at each level. -/
def filesAt (path : List Text) : Entry → List (List Text × Text × Nat)
  | file content mode => [(path, content, mode)]
  | link _ => []
  | dir es => filesIn path es

/-- The files below the entries of a directory. -/
def filesIn (path : List Text) : List (Text × Entry) → List (List Text × Text × Nat)
  | [] => []
  | (n, e) :: es => filesAt (path ++ [n]) e ++ filesIn path es

end

end Entry

/-- A file system with a working directory, which is an absolute path. -/
structure Disk where
  root : Entry
  cwd : Text
deriving Repr

/-- Where a path leads: to an entry, or to a free name in a directory. -/
inductive Place where
  | found (path : List Text) (entry : Entry)
  | free (dir : List Text) (name : Text)

namespace Disk

/-- The most links followed for one path. -/
def maxLinks : Nat := 40

/-- Walks down the elements of a path from the entry `e` at `here`; `follow` goes on at a link. -/
def descend (root : Entry) (followLast : Bool) (follow : List Text → List Text → Except Errno Place) :
    (here : List Text) → (e : Entry) → List Text → Except Errno Place
  | here, e, [] => .ok (.found here e)
  | here, .dir es, c :: rest =>
    if c = [] ∨ c = "." then descend root followLast follow here (.dir es) rest
    else if c = ".." then
      descend root followLast follow here.dropLast ((root.get? here.dropLast).getD Entry.emptyDir) rest
    else
      match Table.find? c es with
      | none => if rest.isEmpty then .ok (.free here c) else .error .notFound
      | some (.link target) =>
        if rest.isEmpty && !followLast then .ok (.found (here ++ [c]) (.link target))
        else if Path.isAbsolute target then follow [] (Text.splitOn Path.slash target ++ rest)
        else follow here (Text.splitOn Path.slash target ++ rest)
      | some e => descend root followLast follow (here ++ [c]) e rest
  | _, _, _ :: _ => .error .notDirectory

/-- Walks down a path following at most `links` links. -/
def walk (root : Entry) (followLast : Bool) : (links : Nat) → (here : List Text) → List Text → Except Errno Place
  | 0, here, cs =>
    descend root followLast (fun _ _ => .error .linkLoop) here ((root.get? here).getD Entry.emptyDir) cs
  | links + 1, here, cs =>
    descend root followLast (walk root followLast links) here ((root.get? here).getD Entry.emptyDir) cs

/-- Where a path leads. -/
def resolve (d : Disk) (followLast : Bool) (path : Text) : Except Errno Place :=
  if path.isEmpty then .error .notFound
  else
    let here := if Path.isAbsolute path then [] else Path.elements d.cwd
    walk d.root followLast maxLinks here (Text.splitOn Path.slash path)

/-- The entry a path leads to. -/
def entry (d : Disk) (followLast : Bool) (op path : Text) : Except OsError Entry :=
  match d.resolve followLast path with
  | .ok (.found _ e) => .ok e
  | .ok (.free _ _) => .error ⟨op, path, none, .notFound⟩
  | .error errno => .error ⟨op, path, none, errno⟩

/-- The entry behind a path, links followed. -/
def stat (d : Disk) (path : Text) : Except OsError Entry := d.entry true "stat" path

/-- The entry at a path, a link being itself. -/
def lstat (d : Disk) (path : Text) : Except OsError Entry := d.entry false "lstat" path

/-- Whether a path leads to a directory. -/
def isDir (d : Disk) (path : Text) : Bool :=
  match d.stat path with
  | .ok e => e.isDir
  | .error _ => false

/-- The content of a file. A directory can be opened but not read. -/
def readFile (d : Disk) (path : Text) : Except OsError Text :=
  match d.entry true "open" path with
  | .error e => .error e
  | .ok (.file content _) => .ok content
  | .ok _ => .error ⟨"read", path, none, .isDirectory⟩

/-- Changes the content of a file, which is made with the mode if it is new. -/
def changeFile (d : Disk) (path : Text) (mode : Nat) (change : Text → Text) : Except OsError Disk :=
  match d.resolve true path with
  | .ok (.found at_ (.file old kept)) => .ok { d with root := d.root.set (some (.file (change old) kept)) at_ }
  | .ok (.found _ _) => .error ⟨"open", path, none, .isDirectory⟩
  | .ok (.free dir name) => .ok { d with root := d.root.set (some (.file (change []) mode)) (dir ++ [name]) }
  | .error errno => .error ⟨"open", path, none, errno⟩

/-- Writes a file: the content is replaced, and the mode is used only if the file is new. -/
def writeFile (d : Disk) (path content : Text) (mode : Nat) : Except OsError Disk :=
  d.changeFile path mode fun _ => content

/-- Appends to a file. -/
def appendFile (d : Disk) (path content : Text) (mode : Nat) : Except OsError Disk :=
  d.changeFile path mode fun old => old ++ content

/-- Puts a new file in the place of a file or link, all at once: it is written under another name,
in the same directory, and then renamed. A directory is not replaced. -/
def replaceFile (d : Disk) (path beside content : Text) (mode : Nat) : Except OsError Disk :=
  match d.resolve false path with
  | .ok (.found _ (.dir _)) => .error ⟨"rename", beside, some path, .alreadyExists⟩
  | .ok (.found at_ _) => .ok { d with root := d.root.set (some (.file content mode)) at_ }
  | .ok (.free dir name) => .ok { d with root := d.root.set (some (.file content mode)) (dir ++ [name]) }
  | .error errno => .error ⟨"open", beside, none, errno⟩

/-- Makes one directory. -/
def mkdir (d : Disk) (path : Text) : Except OsError Disk :=
  match d.resolve false path with
  | .ok (.free dir name) => .ok { d with root := d.root.set (some Entry.emptyDir) (dir ++ [name]) }
  | .ok (.found _ _) => .error ⟨"mkdir", path, none, .alreadyExists⟩
  | .error errno => .error ⟨"mkdir", path, none, errno⟩

/-- The path without its last element and the slashes before it. -/
def above (path : Text) : Text :=
  let body := (path.reverse.dropWhile (· == Path.slash)).dropWhile (· != Path.slash)
  (body.dropWhile (· == Path.slash)).reverse

/-- Makes a directory and those above it as needed, at most `fuel` of them. -/
def mkdirAllWithin : (fuel : Nat) → Disk → Text → Except OsError Disk
  | 0, d, _ => .ok d
  | fuel + 1, d, path =>
    match d.stat path with
    | .ok e => if e.isDir then .ok d else .error ⟨"mkdir", path, none, .notDirectory⟩
    | .error _ =>
      let up := above path
      match if up.isEmpty then .ok d else mkdirAllWithin fuel d up with
      | .error e => .error e
      | .ok d =>
        match d.mkdir path with
        | .ok d => .ok d
        | .error e =>
          match d.lstat path with
          | .ok l => if l.isDir then .ok d else .error e
          | .error _ => .error e

/-- Makes a directory and those above it as needed. -/
def mkdirAll (d : Disk) (path : Text) : Except OsError Disk := mkdirAllWithin (path.length + 1) d path

/-- Takes away what stands at a path, with everything below it. -/
def removeAll (d : Disk) (path : Text) : Disk :=
  match d.resolve false path with
  | .ok (.found at_ _) => { d with root := d.root.set none at_ }
  | _ => d

/-- Puts an entry at a path, making the directories above it. -/
def place (d : Disk) (path : Text) (e : Entry) : Disk :=
  match d.mkdirAll (above path) with
  | .error _ => d
  | .ok d =>
    match d.resolve false path with
    | .ok (.free dir name) => { d with root := d.root.set (some e) (dir ++ [name]) }
    | .ok (.found at_ _) => { d with root := d.root.set (some e) at_ }
    | .error _ => d

/-- The files below a path with their paths relative to it. -/
def filesBelow (d : Disk) (path : Text) : List (Text × Text × Nat) :=
  match d.root.get? (Path.elements path) with
  | some e => (e.filesAt []).map fun (p, content, mode) => (Text.joinWith [Path.slash] p, content, mode)
  | none => []

end Disk

end DocAtlas

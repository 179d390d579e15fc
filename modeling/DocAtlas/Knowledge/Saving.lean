/-
A save in its single operations, any of which the system may refuse for reasons of its own. A document
is written under a name beside its place, byte after byte, closed, made readable and renamed to its place;
in the end, and after a failure too, what is left under the other name is taken away, and whether that
works nobody asks. A course is what a sequence of operations makes of a disk: the disks after each of them, the
disk in the end, and the fault that ended it.
-/
import DocAtlas.Files.Renaming
import DocAtlas.Knowledge.Archive

namespace DocAtlas

/-- How a sequence of operations went. -/
structure Course where
  /-- The disks after the operations that were done, one for each. -/
  later : List Disk
  disk : Disk
  fault : Option Fault

namespace Course

/-- Nothing is done. -/
def stay (d : Disk) : Course := ⟨[], d, none⟩

/-- Nothing is done, for a reason. -/
def stop (d : Disk) (f : Fault) : Course := ⟨[], d, some f⟩

/-- One operation was done. -/
def move (d : Disk) : Course := ⟨[d], d, none⟩

/-- One operation. -/
def step (operation : Disk → Except Fault Disk) (d : Disk) : Course :=
  match operation d with
  | .ok d' => move d'
  | .error f => stop d f

/-- What comes after, unless there was a fault. -/
def andThen (r : Course) (next : Disk → Course) : Course :=
  match r.fault with
  | some _ => r
  | none => { next r.disk with later := r.later ++ (next r.disk).later }

/-- One operation in the end, whether there was a fault or not. If it fails, nobody asks. -/
def inTheEnd (r : Course) (last : Disk → Except Fault Disk) : Course :=
  match last r.disk with
  | .ok d => { r with later := r.later ++ [d], disk := d }
  | .error _ => r

/-- A fault in a context. -/
def during (context : Text) (r : Course) : Course := { r with fault := r.fault.map (Fault.during context) }

/-- One course for each member of a list, until one has a fault. -/
def forEach {α : Type} (course : α → Disk → Course) : List α → Disk → Course
  | [], d => stay d
  | x :: xs, d => (course x d).andThen (forEach course xs)

end Course

namespace Archive

/-- What is done to a document that was begun. -/
inductive Operation where
  /-- So many bytes of it are there. -/
  | write (count : Nat)
  | close | chmod | rename | remove
deriving DecidableEq, Repr

/-- What the system refuses for reasons of its own, and the endings tried for the names of documents
that are not in their places. -/
structure Circumstances where
  mkdir : (path : Text) → Option Fault
  create : (name : Text) → Option Fault
  refused : (name : Text) → Operation → Option Fault
  endings : (name : Text) → List Nat

namespace Circumstances

/-- Nothing is refused, and the one ending is zero. -/
def quiet : Circumstances := ⟨fun _ => none, fun _ => none, fun _ _ => none, fun _ => [0]⟩

end Circumstances

/-- What an operation gives, unless it is refused. -/
def orRefused {α : Type} (refused : Option Fault) (result : Except OsError α) : Except Fault α :=
  match refused with
  | some f => .error f
  | none => result.mapError .os

/-- The name a document is written under before it takes its place. -/
def temporary (name : Text) (ending : Nat) : Text := "." ++ name ++ "." ++ Text.ofNat ending

/-- A document that is written under another name. -/
structure Draft where
  /-- Where it is to go. -/
  path : Text
  /-- What it is written under. -/
  beside : Text
  /-- Where the file is that was opened. -/
  place : List Text
  content : Text

namespace Draft

/-- Begins a document under the first of some names that is free; the disk with an empty file there. -/
def begin? (d : Disk) (dir name content : Text) : (endings : List Nat) → Except OsError (Draft × Disk)
  | [] => .error ⟨"createtemp", Path.join [dir, "." ++ name ++ ".*"], none, .alreadyExists⟩
  | n :: ns =>
    match d.createNew (Path.join [dir, temporary name n]) with
    | .ok (at_, d) => .ok (⟨Path.join [dir, name], Path.join [dir, temporary name n], at_, content⟩, d)
    | .error e => if e.errno = .alreadyExists then begin? d dir name content ns else .error e

/-- Does an operation on a document that was begun. -/
def perform (w : Draft) (op : Operation) (d : Disk) : Except OsError Disk :=
  match op with
  | .write count => .ok { d with root := d.root.set (some (.file (w.content.take count) 0o600)) w.place }
  | .close => .ok d
  | .chmod => d.chmod w.beside 0o644
  | .rename => d.rename w.beside w.path
  | .remove => d.remove w.beside

/-- The operations that bring a document to its place. -/
def operations (w : Draft) : List Operation :=
  (List.range w.content.length).map (fun i => .write (i + 1)) ++ [.close, .chmod, .rename]

/-- An operation on a document that was begun, unless it is refused. -/
def attempt (w : Draft) (refused : Operation → Option Fault) (op : Operation) (d : Disk) : Except Fault Disk :=
  orRefused (refused op) (w.perform op d)

/-- Brings a document to its place, and takes away what is left of it elsewhere. -/
def finish (w : Draft) (refused : Operation → Option Fault) (d : Disk) : Course :=
  (Course.forEach (fun op => .step (w.attempt refused op)) w.operations d).inTheEnd (w.attempt refused .remove)

end Draft

/-- Replaces one document. -/
def replaceBy (c : Circumstances) (dir : Text) (doc : Text × Json) (d : Disk) : Course :=
  Course.during ("write " ++ doc.1) <|
    match orRefused (c.create doc.1) (Draft.begin? d dir doc.1 (documentText doc.2) (c.endings doc.1)) with
    | .error f => .stop d f
    | .ok (w, d') => (Course.move d').andThen (w.finish (c.refused doc.1))

/-- Makes a directory and those above it as needed, at most `fuel` of them. -/
def makeDirsWithin (c : Circumstances) : (fuel : Nat) → (path : Text) → Disk → Course
  | 0, _, d => .stay d
  | fuel + 1, path, d =>
    match d.stat path with
    | .ok e => if e.isDir then .stay d else .stop d (.os ⟨"mkdir", path, none, .notDirectory⟩)
    | .error _ =>
      let up := Disk.above path
      (if up.isEmpty then Course.stay d else makeDirsWithin c fuel up d).andThen fun d =>
        match orRefused (c.mkdir path) (d.mkdir path) with
        | .ok d' => .move d'
        | .error f =>
          match d.lstat path with
          | .ok l => if l.isDir then .stay d else .stop d f
          | .error _ => .stop d f

/-- Makes a directory and those above it as needed. -/
def makeDirs (c : Circumstances) (dir : Text) (d : Disk) : Course :=
  (makeDirsWithin c (dir.length + 1) dir d).during "create knowledge dir"

/-- Saves a base in a directory, which is made if needed. -/
def saveBy (c : Circumstances) (d : Disk) (dir : Text) (k : KnowledgeBase) (m : Manifest) : Course :=
  (makeDirs c dir d).andThen (Course.forEach (replaceBy c dir) (documents k m))

end Archive

end DocAtlas

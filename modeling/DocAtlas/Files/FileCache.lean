/-
A cache of file contents for snippets. A file is read when it is first asked for and kept as it was
until it is put away, so all snippets of a file agree with each other. The cache may hold a limited
number of files; when it is full, further files are refused.
-/
import DocAtlas.Fault
import DocAtlas.Files.Disk
import DocAtlas.Log.Record

namespace DocAtlas

namespace Text

/-- What follows the first `n` lines; none if there are fewer line ends. -/
def afterLines : (n : Nat) → Text → Option Text
  | 0, t => some t
  | _ + 1, [] => none
  | n + 1, c :: t => if c = newline then afterLines n t else afterLines (n + 1) t

/-- The first `n` lines without the line end after them; none if there are fewer line ends. -/
def firstLines : (n : Nat) → Text → Option Text
  | 0, _ => some []
  | _ + 1, [] => none
  | 1, c :: t => if c = newline then some [] else (firstLines 1 t).map (c :: ·)
  | n + 2, c :: t => ((if c = newline then firstLines (n + 1) t else firstLines (n + 2) t)).map (c :: ·)

end Text

/-- The contents read so far, and what happened. -/
structure FileCache where
  /-- The most files held; any number if not positive. -/
  limit : Int
  files : Table Text
  hits : Nat
  misses : Nat
  mapFailures : Nat
deriving Repr

namespace FileCache

def empty (limit : Int) : FileCache := ⟨limit, [], 0, 0, 0⟩

/-- A result, the log of getting it and the cache afterwards. -/
structure Fetched where
  result : Except Fault Text
  log : List LogRecord
  cache : FileCache

def isFull (c : FileCache) : Bool := 0 < c.limit && c.limit ≤ c.files.length

/-- The log of a file that cannot be mapped. -/
def mapFailureLog (path : Text) : LogRecord :=
  ⟨.warn, "mmap failed, reading file instead", [("file", .text path), ("error", .text "no such device")]⟩

/-- Reads a file into the cache. A directory opens but can be neither mapped nor read. -/
def load (c : FileCache) (d : Disk) (path : Text) : Fetched :=
  match d.entry true "open" path with
  | .error e => ⟨.error (.during ("open " ++ Text.quoted path) (.os e)), [], c⟩
  | .ok (.file content _) => ⟨.ok content, [], { c with files := Table.put path content c.files }⟩
  | .ok _ =>
    ⟨.error (.during ("read " ++ Text.quoted path) (.os ⟨"read", path, none, .isDirectory⟩)),
      [mapFailureLog path], { c with mapFailures := c.mapFailures + 1 }⟩

/-- The content of a file. -/
def fetch (c : FileCache) (d : Disk) (path : Text) : Fetched :=
  match Table.find? path c.files with
  | some content => ⟨.ok content, [], { c with hits := c.hits + 1 }⟩
  | none =>
    let c := { c with misses := c.misses + 1 }
    if c.isFull then ⟨.error (.cacheFull c.files.length c.limit), [], c⟩ else c.load d path

/-- The bytes of a content from `start` to `stop`; zero and zero mean all of it. -/
def bytesOf (content path : Text) (start stop : Nat) : Except Fault Text :=
  if start = 0 ∧ stop = 0 then .ok content
  else if stop ≤ start then .error (.byteRange start stop)
  else if content.length < stop then .error (.bytesBeyond start stop content.length path)
  else .ok (Text.slice content start stop)

/-- The lines of a content from `first` to `last`, counted from one, as far as there are lines. -/
def linesOf (content path : Text) (first last : Nat) : Except Fault Text :=
  match Text.afterLines (first - 1) content with
  | none => .error (.lineBeyond first path)
  | some rest => .ok ((Text.firstLines (last + 1 - first) rest).getD (Text.trimSuffix "\n" rest))

/-- A part of a file's content. -/
def fetchPart (part : Text → Except Fault Text) (c : FileCache) (d : Disk) (path : Text) : Fetched :=
  let r := c.fetch d path
  { r with result := r.result.bind part }

/-- The bytes of a file from `start` to `stop`. -/
def fetchBytes (c : FileCache) (d : Disk) (path : Text) (start stop : Nat) : Fetched :=
  fetchPart (fun content => bytesOf content path start stop) c d path

/-- The lines of a file from `first` to `last`. A range without lines does not reach the cache. -/
def fetchLines (c : FileCache) (d : Disk) (path : Text) (first last : Int) : Fetched :=
  if first < 1 ∨ last < first then ⟨.error (.lineRange first last), [], c⟩
  else fetchPart (fun content => linesOf content path first.toNat last.toNat) c d path

/-- Forgets a file. -/
def invalidate (c : FileCache) (path : Text) : FileCache := { c with files := Table.erase path c.files }

/-- Forgets all files. -/
def clear (c : FileCache) : FileCache := { c with files := [] }

end FileCache

end DocAtlas

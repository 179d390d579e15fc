/-
Paths with slashes, by their text alone: cleaning, joining and relating them never looks at files.
-/
import DocAtlas.Text.Basic

namespace DocAtlas.Path

/-- The byte between the elements of a path. -/
def slash : UInt8 := 47

def isAbsolute (p : Text) : Bool := p.head? == some slash

/-- The elements of a path, without the empty ones. -/
def elements (p : Text) : List Text := (Text.splitOn slash p).filter fun e => !e.isEmpty

/-- One more element of a path whose elements so far are `done`, last first. -/
def pushElement (rooted : Bool) (done : List Text) (e : Text) : List Text :=
  if e = "." then done
  else if e = ".." then
    match done with
    | [] => if rooted then [] else [e]
    | d :: rest => if d = ".." then e :: done else rest
  else e :: done

/-- The elements of the shortest equivalent path, last first. -/
def cleanElements (rooted : Bool) (es : List Text) : List Text := es.foldl (pushElement rooted) []

/-- The shortest equivalent path: no empty element, no `.`, and `..` only at the start of a
relative path. -/
def clean (p : Text) : Text :=
  let rooted := isAbsolute p
  let body := Text.joinWith [slash] (cleanElements rooted (elements p)).reverse
  if rooted then slash :: body else if body.isEmpty then "." else body

/-- The paths one below the other, cleaned. -/
def join (ps : List Text) : Text :=
  match ps.filter fun p => !p.isEmpty with
  | [] => []
  | qs => clean (Text.joinWith [slash] qs)

/-- The path seen from a working directory, cleaned. -/
def absolute (cwd p : Text) : Text := if isAbsolute p then clean p else join [cwd, p]

/-- The elements of a cleaned path. -/
def cleaned (p : Text) : List Text := (cleanElements (isAbsolute p) (elements p)).reverse

/-- Two lists without their common beginning. -/
def dropCommon : List Text → List Text → List Text × List Text
  | a :: as, b :: bs => if a = b then dropCommon as bs else (a :: as, b :: bs)
  | as, bs => (as, bs)

/-- The way from `base` to `target`; none if it cannot be told. -/
def relative? (base target : Text) : Option Text :=
  if isAbsolute base != isAbsolute target then none
  else
    let (up, down) := dropCommon (cleaned base) (cleaned target)
    if up.head? == some (Text.ofString "..") then none
    else
      match up.map (fun _ => Text.ofString "..") ++ down with
      | [] => some "."
      | es => some (Text.joinWith [slash] es)

/-- The way from `root` to `path`, or the path itself. -/
def relativeTo (root path : Text) : Text := (relative? root path).getD path

/-- The last element. -/
def base (p : Text) : Text := ((elements p).getLast?).getD (if p.isEmpty then "." else "/")

/-- All but the last element, cleaned. -/
def parent (p : Text) : Text :=
  clean ((p.reverse.dropWhile (· != slash)).reverse)

end DocAtlas.Path

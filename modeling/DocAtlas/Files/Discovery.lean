/-
Which files of a directory a run visits. Everything below the root is walked; what is excluded by
a glob or an ignore rule is passed over, a directory with all that is in it, and of the rest the
files that match an include glob are taken, in byte order of their paths.
-/
import DocAtlas.Fault
import DocAtlas.Files.Disk
import DocAtlas.Files.Glob
import DocAtlas.Files.Ignore

namespace DocAtlas

/-- What a run visits. -/
structure DiscoveryRules where
  /-- Globs relative to the root; without any, every file counts. -/
  includes : List Text
  excludes : List Text
  /-- Whether the ignore file of the root counts. -/
  respectIgnores : Bool
deriving Repr

namespace DiscoveryRules

def default : DiscoveryRules :=
  { includes := ["**/*.\x7bjs,jsx,ts,tsx\x7d"]
    excludes :=
      ["node_modules/**", "**/node_modules/**", ".git/**", "dist/**", "build/**", "coverage/**",
       ".knowledge/**", ".quickgen/**", "**/*.d.ts"]
    respectIgnores := true }

/-- The first pattern that is malformed. -/
def invalid? (r : DiscoveryRules) : Option Text := (r.includes ++ r.excludes).find? fun p => !Glob.isValid p

end DiscoveryRules

namespace Discovery

/-- Whether a path is passed over. A directory is also tried with a slash after it. -/
def isExcluded (excludes : List Text) (rules : List IgnoreRule) (rel : Text) (isDir : Bool) : Bool :=
  Glob.anyMatch excludes rel ||
    (isDir && Glob.anyMatch excludes (rel ++ "/")) ||
    IgnoreRule.isIgnored rules rel ||
    (isDir && IgnoreRule.isIgnored rules (rel ++ "/"))

/-- Whether a file that is not passed over counts. -/
def isIncluded (includes : List Text) (rel : Text) : Bool := includes.isEmpty || Glob.anyMatch includes rel

/-- The path of a name below a relative path. -/
def below (rel name : Text) : Text := if rel.isEmpty then name else rel ++ "/" ++ name

mutual

/-- The files that count at an entry and below it, by their relative paths. -/
def selectAt (r : DiscoveryRules) (rules : List IgnoreRule) (rel : Text) : Entry → List Text
  | .dir es => if isExcluded r.excludes rules rel true then [] else selectIn r rules rel es
  | .file _ _ | .link _ => if !isExcluded r.excludes rules rel false && isIncluded r.includes rel then [rel] else []

/-- The files that count below the entries of a directory. -/
def selectIn (r : DiscoveryRules) (rules : List IgnoreRule) (rel : Text) : List (Text × Entry) → List Text
  | [] => []
  | (n, e) :: es => selectAt r rules (below rel n) e ++ selectIn r rules rel es

end

/-- The ignore rules of a root. -/
def ignoresOf (d : Disk) (r : DiscoveryRules) (root : Text) : List IgnoreRule :=
  if r.respectIgnores then
    match d.readFile (Path.join [root, ".gitignore"]) with
    | .ok content => IgnoreRule.ofFile content
    | .error _ => []
  else []

/-- The files a run visits, by their absolute paths. A root that is itself a link is not walked. -/
def discover (d : Disk) (root : Text) (r : DiscoveryRules) : Except Fault (List Text) :=
  match r.invalid? with
  | some p => .error (.invalidGlob p)
  | none =>
    match d.stat root with
    | .error e => .error (.during "failed to read root" (.os e))
    | .ok e =>
      if !e.isDir then .error (.rootNotDirectory root)
      else
        match d.lstat root with
        | .ok (.dir es) =>
          .ok (Text.sort ((selectIn r (ignoresOf d r root) [] es).map fun rel => Path.join [root, rel]))
        | _ => .ok []

end Discovery

end DocAtlas

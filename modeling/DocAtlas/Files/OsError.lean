/-
What the operating system refuses, in its words.
-/
import DocAtlas.Text.Basic

namespace DocAtlas

/-- Why an operation on a path failed. -/
inductive Errno where
  | notFound | notDirectory | isDirectory | linkLoop | alreadyExists | notEmpty
deriving DecidableEq, Repr

namespace Errno

def message : Errno → Text
  | notFound => "no such file or directory"
  | notDirectory => "not a directory"
  | isDirectory => "is a directory"
  | linkLoop => "too many levels of symbolic links"
  | alreadyExists => "file exists"
  | notEmpty => "directory not empty"

end Errno

/-- A failed operation on one path, or on two for a rename. -/
structure OsError where
  op : Text
  path : Text
  target : Option Text
  errno : Errno
deriving DecidableEq, Repr

namespace OsError

def message (e : OsError) : Text :=
  e.op ++ " " ++ e.path ++
    (match e.target with
      | some t => 32 :: t
      | none => []) ++ ": " ++ e.errno.message

end OsError

end DocAtlas

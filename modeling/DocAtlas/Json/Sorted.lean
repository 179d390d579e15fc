/-
JSON values in which the order of members says nothing: every object with its members in byte order
of their keys, each key once.
-/
import DocAtlas.Json.Value

namespace DocAtlas

namespace Json

mutual

/-- The value with the members of every object in byte order, the last of equal ones kept. -/
def sorted : Json → Json
  | arr items => arr (sortedEach items)
  | obj members => obj (sortMembers (sortedIn members))
  | v => v

/-- The same for each value of a list. -/
def sortedEach : List Json → List Json
  | [] => []
  | v :: vs => sorted v :: sortedEach vs

/-- The same for each member of an object. -/
def sortedIn : List (Text × Json) → List (Text × Json)
  | [] => []
  | (k, v) :: ms => (k, sorted v) :: sortedIn ms

end

end Json

end DocAtlas

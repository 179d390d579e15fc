/-
Globs over slash-separated paths. `*` stands for any run of characters within an element, `?` for
one, `[a-z]` for one of a class, `{a,b}` for one of several patterns, and `**` as an element of
its own for any number of elements. A backslash takes the next character as it is.
-/
import DocAtlas.Text.Rune

namespace DocAtlas

namespace Text

/-- The characters of a text, U+FFFD for stray bytes. -/
def chars (t : Text) : List Char := t.runes.map fun r => Char.ofNat (r.code.getD 0xFFFD)

end Text

namespace Glob

/-! ## Validity -/

/-- Skips a class after its opening bracket and negation; none if it does not end. -/
def skipClass? : List Char → Option (List Char)
  | [] => none
  | '\\' :: _ :: rest => skipClass? rest
  | ['\\'] => none
  | ']' :: rest => some rest
  | _ :: rest => skipClass? rest

/-- A class after its opening bracket: without the sign that negates it. -/
def classBody : List Char → Bool × List Char
  | '^' :: rest => (true, rest)
  | '!' :: rest => (true, rest)
  | cs => (false, cs)

/-- Whether a pattern is well formed, `depth` alternatives being open. -/
def validWithin : (fuel : Nat) → (depth : Nat) → List Char → Bool
  | 0, _, _ => false
  | _ + 1, depth, [] => depth == 0
  | fuel + 1, depth, c :: cs =>
    if c = '\\' then
      match cs with
      | [] => false
      | _ :: rest => validWithin fuel depth rest
    else if c = '[' then
      let body := (classBody cs).2
      if body.head? == some ']' then false
      else match skipClass? body with
        | some rest => validWithin fuel depth rest
        | none => false
    else if c = '{' then validWithin fuel (depth + 1) cs
    else if c = '}' then depth != 0 && validWithin fuel (depth - 1) cs
    else validWithin fuel depth cs

/-- Whether a pattern is well formed. -/
def isValid (pattern : Text) : Bool :=
  let cs := pattern.chars
  validWithin (cs.length + 1) 0 cs

/-! ## Classes -/

/-- The ranges of a class up to its closing bracket, and the pattern after it. `last` is the
character a following dash makes a range of. -/
def classRanges : (last : Option Char) → List Char → Option (List (Char × Char) × List Char)
  | _, [] => none
  | _, ']' :: rest => some ([], rest)
  | some lo, '-' :: '\\' :: hi :: rest =>
    (classRanges none rest).map fun (rs, rest) => ((lo, hi) :: rs, rest)
  | _, '-' :: ']' :: rest => some ([('-', '-')], rest)
  | some lo, '-' :: hi :: rest => (classRanges none rest).map fun (rs, rest) => ((lo, hi) :: rs, rest)
  | _, '\\' :: c :: rest => (classRanges (some c) rest).map fun (rs, rest) => ((c, c) :: rs, rest)
  | _, c :: rest => (classRanges (some c) rest).map fun (rs, rest) => ((c, c) :: rs, rest)

/-- Reads a class after its opening bracket: a test for characters and the pattern after it. -/
def readClass? (cs : List Char) : Option ((Char → Bool) × List Char) :=
  let (negated, body) := classBody cs
  if body.head? == some ']' then none
  else (classRanges none body).map fun (ranges, rest) =>
    (fun c => (ranges.any fun (lo, hi) => lo ≤ c && c ≤ hi) != negated, rest)

/-! ## Alternatives -/

/-- Splits what follows an opening brace into its alternatives and the pattern after the closing
brace; `depth` braces are open inside, and `current` is the alternative begun, last first. -/
def splitAlternatives : (depth : Nat) → (current : List Char) → List Char → Option (List (List Char) × List Char)
  | _, _, [] => none
  | depth, current, '\\' :: c :: rest => splitAlternatives depth (c :: '\\' :: current) rest
  | depth, current, '{' :: rest => splitAlternatives (depth + 1) ('{' :: current) rest
  | 0, current, '}' :: rest => some ([current.reverse], rest)
  | depth + 1, current, '}' :: rest => splitAlternatives depth ('}' :: current) rest
  | 0, current, ',' :: rest =>
    (splitAlternatives 0 [] rest).map fun (alts, after) => (current.reverse :: alts, after)
  | depth, current, c :: rest => splitAlternatives depth (c :: current) rest

/-! ## Matching -/

/-- Whether a pattern stands for nothing. A final `/**` may stand for nothing, so that the pattern
for what is below a directory also covers the directory. -/
def isZeroLength : (fuel : Nat) → List Char → Bool
  | 0, _ => false
  | fuel + 1, p =>
    match p with
    | [] | ['*'] | ['*', '*'] | ['/', '*', '*'] | ['*', '*', '/'] | ['/', '*', '*', '/'] => true
    | '{' :: rest =>
      match splitAlternatives 0 [] rest with
      | none => false
      | some (alts, after) => alts.any fun a => isZeroLength fuel (a ++ after)
    | _ => false

/-- Whether a pattern stands for a name. `fresh` says that the place is the start of a path
element. Each step uses up a part of the pattern or of the name. -/
def matchWithin : (fuel : Nat) → (fresh : Bool) → (pattern name : List Char) → Bool
  | 0, _, _, _ => false
  | fuel + 1, _, p, [] => isZeroLength (fuel + 1) p
  | _ + 1, _, [], _ :: _ => false
  | fuel + 1, fresh, c :: p, d :: n =>
    let star (rest : List Char) : Bool :=
      matchWithin fuel false rest (d :: n) ||
        (d != '/' && if n.isEmpty then isZeroLength fuel rest else matchWithin fuel false ('*' :: rest) n)
    if c = '*' then
      match p with
      | '*' :: rest =>
        if fresh && rest.isEmpty then true
        else match rest with
          | '/' :: rest' =>
            if fresh then
              matchWithin fuel true rest' (d :: n) ||
                match (d :: n).dropWhile (· != '/') with
                | [] => false
                | [_] => isZeroLength fuel rest'
                | _ :: n' => matchWithin fuel true ('*' :: '*' :: '/' :: rest') n'
            else star rest
          | _ => star rest
      | _ => star p
    else if c = '?' then d != '/' && matchWithin fuel false p n
    else if c = '[' then
      match readClass? p with
      | none => false
      | some (test, rest) => test d && matchWithin fuel false rest n
    else if c = '{' then
      match splitAlternatives 0 [] p with
      | none => false
      | some (alts, after) => alts.any fun a => matchWithin fuel true (a ++ after) (d :: n)
    else if c = '\\' then
      match p with
      | [] => false
      | e :: rest => e = d && matchWithin fuel (d == '/') rest n
    else c = d && matchWithin fuel (d == '/') p n

/-- Whether a pattern stands for a path. -/
def isMatch (pattern path : Text) : Bool :=
  let p := pattern.chars
  let n := path.chars
  matchWithin (p.length + n.length + 2) true p n

/-- Whether one of the patterns stands for a path. -/
def anyMatch (patterns : List Text) (path : Text) : Bool := patterns.any fun p => isMatch p path

end Glob

end DocAtlas

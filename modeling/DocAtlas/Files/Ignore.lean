/-
Ignore rules: lines that name what is to be left out. A line becomes a regular expression over
relative paths; a line that starts with `!` takes back what an earlier one left out. Characters
with a meaning in expressions keep it, but for the dot and the question mark, which stand for
themselves.
-/
import DocAtlas.Text.Regex

namespace DocAtlas

namespace Text

/-- Replaces every occurrence of `old` from the left; `skip` bytes belong to the last one. -/
def replaceFrom (old new : Text) : (skip : Nat) → Text → Text
  | _, [] => []
  | skip + 1, _ :: t => replaceFrom old new skip t
  | 0, b :: t =>
    if old.isPrefixOf (b :: t) then new ++ replaceFrom old new (old.length - 1) t
    else b :: replaceFrom old new 0 t

/-- Every occurrence of a nonempty text replaced. -/
def replaceAll (old new t : Text) : Text := replaceFrom old new 0 t

/-- The text without a byte at its ends. -/
def stripByte (c : UInt8) (t : Text) : Text :=
  ((t.dropWhile (· == c)).reverse.dropWhile (· == c)).reverse

end Text

/-- A rule: the paths it is about, and whether it takes them back in. -/
structure IgnoreRule where
  negated : Bool
  pattern : Regex

namespace IgnoreRule

/-- Stands for a star of an expression while the stars of the rule are replaced. -/
def starMark : Text := "#$~"

/-- Whether the rule names files by a suffix inside a directory, which ties it to the root. -/
def isAnchoredSuffix : Text → Bool
  | a :: 47 :: rest =>
    (a != 47 && a != 43 && Text.contains "*." rest) || isAnchoredSuffix (47 :: rest)
  | _ :: rest => isAnchoredSuffix rest
  | [] => false

/-- The expression of a rule, without its leading mark of negation. -/
def expression (line : Text) : Text :=
  let line := if isAnchoredSuffix line && line.head? != some 47 then 47 :: line else line
  let line := Text.replaceAll "." "\\." line
  let line := if List.isPrefixOf (Text.ofString "/**/") line then line.tail else line
  let line := Text.replaceAll "/**/" "(/|/.+/)" line
  let line := Text.replaceAll "**/" ("(|." ++ starMark ++ "/)") line
  let line := Text.replaceAll "/**" ("(|/." ++ starMark ++ ")") line
  let line := Text.replaceAll "\\*" (92 :: starMark) line
  let line := Text.replaceAll "*" "([^/]*)" line
  let line := Text.replaceAll "?" "\\?" line
  let line := Text.replaceAll starMark "*" line
  let body := if line.getLast? == some 47 then line ++ "(|.*)$" else line ++ "(|/.*)$"
  match body with
  | 47 :: rest => "^(|/)" ++ rest
  | _ => "^(|.*/)" ++ body

/-- The rule of a line. Comments, blank lines and malformed expressions give none. -/
def ofLine? (line : Text) : Option IgnoreRule :=
  let line := (line.reverse.dropWhile (· == 13)).reverse
  if line.head? == some 35 then none
  else
    match Text.stripByte 32 line with
    | [] => none
    | b :: rest =>
      let negated := b == 33
      let line := if negated then rest else b :: rest
      let line := match line with
        | c :: more => if c == 35 || c == 33 then more else line
        | [] => []
      (Regex.parse? (expression line)).map fun pattern => ⟨negated, pattern⟩

/-- The rules of a file. -/
def ofFile (content : Text) : List IgnoreRule := (Text.lines content).filterMap ofLine?

/-- Whether the rules leave a path out: the last rule about it decides. -/
def isIgnored (rules : List IgnoreRule) (path : Text) : Bool :=
  rules.foldl (fun out r => if r.pattern.isMatch path then !r.negated else out) false

end IgnoreRule

end DocAtlas

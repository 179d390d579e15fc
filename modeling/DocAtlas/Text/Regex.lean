/-
Regular expressions, as far as a pattern written by hand may use them: classes, groups,
alternatives, repetitions, anchors and word boundaries. Matching computes, from a place in the
input, all places an expression can reach.
-/
import DocAtlas.Text.Rune

namespace DocAtlas

inductive Regex where
  /-- Nothing. -/
  | empty
  /-- One character in one of the ranges, or in none of them. -/
  | set (negated : Bool) (ranges : List (Nat × Nat))
  | cat (a b : Regex)
  | alt (a b : Regex)
  | star (a : Regex)
  /-- The start of the input. -/
  | start
  /-- The end of the input. -/
  | stop
  /-- A place between a word character and another, or not so. -/
  | boundary (negated : Bool)
deriving Repr

namespace Regex

/-! ## Matching -/

def isWord (n : Nat) : Bool := (48 ≤ n && n ≤ 57) || (65 ≤ n && n ≤ 90) || n == 95 || (97 ≤ n && n ≤ 122)

/-- Adds to `known` what is reached from `frontier` in at most `fuel` rounds of `step`. -/
def closure (step : Nat → List Nat) : (fuel : Nat) → (known frontier : List Nat) → List Nat
  | 0, known, _ => known
  | fuel + 1, known, frontier =>
    let new := ((frontier.flatMap step).filter fun i => !known.contains i).eraseDups
    if new.isEmpty then known else closure step fuel (known ++ new) new

/-- The places an expression reaches from place `i` of an input of code points. -/
def reach (input : Array Nat) : Regex → (i : Nat) → List Nat
  | empty, i => [i]
  | set negated ranges, i =>
    match input[i]? with
    | none => []
    | some n => if (ranges.any fun (lo, hi) => lo ≤ n && n ≤ hi) != negated then [i + 1] else []
  | cat a b, i => ((reach input a i).flatMap fun j => reach input b j).eraseDups
  | alt a b, i => (reach input a i ++ reach input b i).eraseDups
  | star a, i => closure (fun j => reach input a j) (input.size + 1) [i] [i]
  | start, i => if i == 0 then [i] else []
  | stop, i => if i == input.size then [i] else []
  | boundary negated, i =>
    let before := i != 0 && (input[i - 1]?.any isWord)
    let after := input[i]?.any isWord
    if (before != after) != negated then [i] else []

/-- Whether the expression matches somewhere in a text. -/
def isMatch (r : Regex) (t : Text) : Bool :=
  let input := (t.runes.map fun u => u.code.getD 0xFFFD).toArray
  (List.range (input.size + 1)).any fun i => !(r.reach input i).isEmpty

/-! ## Reading -/

/-- Any character but a newline. -/
def dot : Regex := set true [(10, 10)]

def char (c : Char) : Regex := set false [(c.toNat, c.toNat)]

def plus (a : Regex) : Regex := cat a (star a)

def option (a : Regex) : Regex := alt a empty

/-- `a` repeated `n` times. -/
def power (a : Regex) : Nat → Regex
  | 0 => empty
  | n + 1 => cat a (power a n)

/-- `a` repeated at most `n` times. -/
def upTo (a : Regex) : Nat → Regex
  | 0 => empty
  | n + 1 => option (cat a (upTo a n))

def digitRanges : List (Nat × Nat) := [(48, 57)]

def wordRanges : List (Nat × Nat) := [(48, 57), (65, 90), (95, 95), (97, 122)]

def spaceRanges : List (Nat × Nat) := [(9, 10), (12, 13), (32, 32)]

/-- The code points outside of ascending ranges. -/
def complement (from_ : Nat) : List (Nat × Nat) → List (Nat × Nat)
  | [] => if from_ ≤ 0x10FFFF then [(from_, 0x10FFFF)] else []
  | (lo, hi) :: rs => (if from_ < lo then [(from_, lo - 1)] else []) ++ complement (hi + 1) rs

/-- The class a letter stands for after a backslash. -/
def letterClass? (c : Char) : Option (List (Nat × Nat)) :=
  match c with
  | 'd' => some digitRanges
  | 'D' => some (complement 0 digitRanges)
  | 'w' => some wordRanges
  | 'W' => some (complement 0 wordRanges)
  | 's' => some spaceRanges
  | 'S' => some (complement 0 spaceRanges)
  | _ => none

/-- The class of a name between `[:` and `:]`. -/
def namedClass? (name : List Char) : Option (List (Nat × Nat)) :=
  match String.ofList name with
  | "alnum" => some [(48, 57), (65, 90), (97, 122)]
  | "alpha" => some [(65, 90), (97, 122)]
  | "ascii" => some [(0, 127)]
  | "blank" => some [(9, 9), (32, 32)]
  | "cntrl" => some [(0, 31), (127, 127)]
  | "digit" => some digitRanges
  | "graph" => some [(33, 126)]
  | "lower" => some [(97, 122)]
  | "print" => some [(32, 126)]
  | "punct" => some [(33, 47), (58, 64), (91, 96), (123, 126)]
  | "space" => some [(9, 13), (32, 32)]
  | "upper" => some [(65, 90)]
  | "word" => some wordRanges
  | "xdigit" => some [(48, 57), (65, 70), (97, 102)]
  | _ => none

def hexValue? (c : Char) : Option Nat :=
  if '0' ≤ c && c ≤ '9' then some (c.toNat - 48)
  else if 'a' ≤ c && c ≤ 'f' then some (c.toNat - 87)
  else if 'A' ≤ c && c ≤ 'F' then some (c.toNat - 55)
  else none

def isOctal (c : Char) : Bool := '0' ≤ c && c ≤ '7'

/-- The number of a run of digits. -/
def number (base : Nat) (cs : List Char) : Nat := cs.foldl (fun n c => n * base + (hexValue? c).getD 0) 0

/-- The code point of an escape after its backslash, and what follows. -/
def escapedCode? : List Char → Option (Nat × List Char)
  | [] => none
  | 'x' :: '{' :: rest =>
    let ds := rest.takeWhile fun c => (hexValue? c).isSome
    match rest.drop ds.length with
    | '}' :: after => if ds.isEmpty || 0x10FFFF < number 16 ds then none else some (number 16 ds, after)
    | _ => none
  | 'x' :: a :: b :: rest => if (hexValue? a).isSome && (hexValue? b).isSome then
    some (number 16 [a, b], rest) else none
  | '0' :: rest =>
    let ds := (rest.take 2).takeWhile isOctal
    some (number 8 ds, rest.drop ds.length)
  | c :: rest =>
    if '1' ≤ c && c ≤ '7' then
      let ds := (rest.take 2).takeWhile isOctal
      if ds.isEmpty then none else some (number 8 (c :: ds), rest.drop ds.length)
    else match c with
      | 'a' => some (7, rest)
      | 'f' => some (12, rest)
      | 'n' => some (10, rest)
      | 'r' => some (13, rest)
      | 't' => some (9, rest)
      | 'v' => some (11, rest)
      | _ => if c.toNat < 128 && !c.isAlphanum then some (c.toNat, rest) else none

/-- One character of a class, and what follows. -/
def classCode? : List Char → Option (Nat × List Char)
  | [] => none
  | '\\' :: rest => escapedCode? rest
  | c :: rest => some (c.toNat, rest)

/-- The name of a class after `[:`, and what follows. -/
def classNameOf? (cs : List Char) : Option (List Char × List Char) :=
  let name := cs.takeWhile (· != ':')
  match cs.drop name.length with
  | ':' :: ']' :: rest => some (name, rest)
  | _ => none

/-- The ranges of a class up to its closing bracket; `first` allows the bracket as a member. -/
def readRanges : (fuel : Nat) → (first : Bool) → List Char → Option (List (Nat × Nat) × List Char)
  | 0, _, _ => none
  | fuel + 1, first, cs =>
    let plain : Option (List (Nat × Nat) × List Char) :=
      match classCode? cs with
      | none => none
      | some (lo, rest) =>
        match rest with
        | '-' :: ']' :: _ => (readRanges fuel false rest).map fun (rs, after) => ((lo, lo) :: rs, after)
        | '-' :: rest' =>
          match classCode? rest' with
          | none => none
          | some (hi, rest) =>
            if hi < lo then none else (readRanges fuel false rest).map fun (rs, after) => ((lo, hi) :: rs, after)
        | _ => (readRanges fuel false rest).map fun (rs, after) => ((lo, lo) :: rs, after)
    match cs with
    | [] => none
    | ']' :: rest => if first then plain else some ([], rest)
    | '[' :: ':' :: rest =>
      match classNameOf? rest with
      | none => plain
      | some (name, after) =>
        let (negated, name) := match name with
          | '^' :: n => (true, n)
          | n => (false, n)
        match namedClass? name with
        | none => none
        | some ranges =>
          (readRanges fuel false after).map fun (rs, after) =>
            ((if negated then complement 0 ranges else ranges) ++ rs, after)
    | '\\' :: c :: rest =>
      match letterClass? c with
      | some ranges => (readRanges fuel false rest).map fun (rs, after) => (ranges ++ rs, after)
      | none => plain
    | _ => plain

/-- A class after its opening bracket. -/
def readSet? (cs : List Char) : Option (Regex × List Char) :=
  let (negated, body) := match cs with
    | '^' :: rest => (true, rest)
    | _ => (false, cs)
  (readRanges (cs.length + 1) true body).map fun (rs, rest) => (set negated rs, rest)

/-- An escape after its backslash. -/
def readEscape? : List Char → Option (Regex × List Char)
  | [] => none
  | 'A' :: rest => some (start, rest)
  | 'z' :: rest => some (stop, rest)
  | 'b' :: rest => some (boundary false, rest)
  | 'B' :: rest => some (boundary true, rest)
  | c :: rest =>
    match letterClass? c with
    | some ranges => some (set false ranges, rest)
    | none => (escapedCode? (c :: rest)).map fun (n, rest) => (set false [(n, n)], rest)

/-- The bounds of a repetition after its opening brace; none if it is no repetition. -/
def readBounds? (cs : List Char) : Option (Nat × Option Nat × List Char) :=
  let digits (cs : List Char) : List Char := cs.takeWhile Char.isDigit
  let canonical (ds : List Char) : Bool := !ds.isEmpty && (ds.length == 1 || ds.head? != some '0')
  let lo := digits cs
  if !canonical lo then none
  else match cs.drop lo.length with
    | '}' :: rest => some (number 10 lo, some (number 10 lo), rest)
    | ',' :: '}' :: rest => some (number 10 lo, none, rest)
    | ',' :: rest =>
      let hi := digits rest
      if !canonical hi then none
      else match rest.drop hi.length with
        | '}' :: rest => some (number 10 lo, some (number 10 hi), rest)
        | _ => none
    | _ => none

/-- The repetition operator at the start of a pattern applied to `a`: `none` if there is no
operator, `some none` if it is malformed. -/
def readRepeat? (a : Regex) : List Char → Option (Option (Regex × List Char))
  | '*' :: rest => some (some (star a, rest))
  | '+' :: rest => some (some (plus a, rest))
  | '?' :: rest => some (some (option a, rest))
  | '{' :: rest =>
    match readBounds? rest with
    | none => none
    | some (lo, hi, rest) =>
      if 1000 < lo || (hi.any fun h => 1000 < h || h < lo) then some none
      else match hi with
        | none => some (some (cat (power a lo) (star a), rest))
        | some h => some (some (cat (power a lo) (upTo a (h - lo)), rest))
  | _ => none

/-- Whether a pattern starts with a repetition operator. -/
def startsRepeat (cs : List Char) : Bool := (readRepeat? empty cs).isSome

/-- An atom with its repetition. A mark for reluctance may follow; another repetition may not. -/
def readRepeated? (a : Regex) (cs : List Char) : Option (Regex × List Char) :=
  match readRepeat? a cs with
  | none => some (a, cs)
  | some none => none
  | some (some (r, rest)) =>
    let rest := match rest with
      | '?' :: after => after
      | _ => rest
    if startsRepeat rest then none else some (r, rest)

mutual

/-- Alternatives up to a closing parenthesis or the end. -/
def readAlt : (fuel : Nat) → List Char → Option (Regex × List Char)
  | 0, _ => none
  | fuel + 1, cs =>
    match readCat fuel cs with
    | none => none
    | some (a, '|' :: rest) => (readAlt fuel rest).map fun (b, rest) => (alt a b, rest)
    | some (a, rest) => some (a, rest)

/-- A sequence up to a bar, a closing parenthesis or the end. -/
def readCat : (fuel : Nat) → List Char → Option (Regex × List Char)
  | 0, _ => none
  | fuel + 1, cs =>
    match cs with
    | [] => some (empty, [])
    | '|' :: _ => some (empty, cs)
    | ')' :: _ => some (empty, cs)
    | _ =>
      match readAtom fuel cs with
      | none => none
      | some (a, rest) =>
        match readRepeated? a rest with
        | none => none
        | some (a, rest) => (readCat fuel rest).map fun (b, rest) => (cat a b, rest)

/-- One atom. -/
def readAtom : (fuel : Nat) → List Char → Option (Regex × List Char)
  | 0, _ => none
  | fuel + 1, cs =>
    if startsRepeat cs then none
    else match cs with
      | [] => none
      | '(' :: rest =>
        match readAlt fuel rest with
        | some (a, ')' :: rest) => some (a, rest)
        | _ => none
      | '[' :: rest => readSet? rest
      | '\\' :: rest => readEscape? rest
      | '.' :: rest => some (dot, rest)
      | '^' :: rest => some (start, rest)
      | '$' :: rest => some (stop, rest)
      | c :: rest => some (char c, rest)

end

/-- Reads an expression; none if it is malformed. -/
def parse? (t : Text) : Option Regex :=
  let cs := t.runes.map fun r => Char.ofNat (r.code.getD 0xFFFD)
  match readAlt (4 * cs.length + 8) cs with
  | some (r, []) => some r
  | _ => none

end Regex

end DocAtlas

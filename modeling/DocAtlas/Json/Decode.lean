/-
Reading records out of JSON. A record starts from its blank value and each member of the object
sets the field it names, so of two members for a field the last counts; a name also counts in other
letter case, members without a field are passed over, and `null` leaves a plain field as it was. A
value of the wrong shape makes the whole reading fail.
-/
import DocAtlas.Json.Value
import DocAtlas.Text.Lower

namespace DocAtlas.Json

/-- A plain value; `null` is the blank one. -/
def orBlank {α : Type} (blank : α) (read : Json → Option α) : Json → Option α
  | null => some blank
  | v => read v

def text? : Json → Option Text
  | str s => some s
  | _ => none

def bool? : Json → Option Bool
  | bool b => some b
  | _ => none

/-- A whole number of 64 bits, written without fraction and exponent. -/
def int? : Json → Option Int
  | num literal =>
    let magnitude := Text.toNat? (Text.trimPrefix "-" literal)
    let n : Option Int := magnitude.map fun m => if literal.head? == some 45 then -(m : Int) else m
    n.filter fun n => -(Nat.pow 2 63) ≤ n && n < Nat.pow 2 63
  | _ => none

/-- A list, which `null` leaves unmade. -/
def list? {α : Type} (item : Json → Option α) : Json → Option (Option (List α))
  | null => some none
  | arr items => (items.mapM item).map some
  | _ => none

/-- A table; `null` is the empty one. -/
def table? {α : Type} (item : Json → Option α) : Json → Option (Table α)
  | null => some []
  | obj members => (members.mapM fun m => (item m.2).map fun x => (m.1, x)).map Table.ofPairs
  | _ => none

/-- A rune of a name, all letter cases made one. -/
def foldedRune (r : Rune) : Text :=
  match r.code with
  | some 0x212A => "k"
  | some 0x17F => "s"
  | _ => r.bytes.map Text.lowerByte

/-- A name with all letter cases made one. -/
def foldedName (t : Text) : Text := t.runes.flatMap foldedRune

/-- A field of a record: its name, and what a value does to the record. -/
structure RecordField (α : Type) where
  name : Text
  set : Json → α → Option α

namespace RecordField

variable {α β : Type}

/-- A field that `null` leaves as it was. -/
def plain (name : Text) (read : Json → Option β) (put : β → α → α) : RecordField α where
  name := name
  set v r :=
    match v with
    | null => some r
    | v => (read v).map fun x => put x r

/-- A field that `null` blanks. -/
def whole (name : Text) (read : Json → Option β) (put : β → α → α) : RecordField α where
  name := name
  set v r := (read v).map fun x => put x r

/-- The field a name means: the one of that very name, else one of that name in other letter case. -/
def named? (fields : List (RecordField α)) (key : Text) : Option (RecordField α) :=
  (fields.find? fun f => f.name == key) <|> (fields.find? fun f => foldedName f.name == foldedName key)

end RecordField

/-- A record. -/
def record? {α : Type} (blank : α) (fields : List (RecordField α)) : Json → Option α
  | null => some blank
  | obj members =>
    members.foldlM
      (fun r (k, v) =>
        match RecordField.named? fields k with
        | some f => f.set v r
        | none => some r)
      blank
  | _ => none

end DocAtlas.Json

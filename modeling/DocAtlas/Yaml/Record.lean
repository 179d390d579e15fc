/-
Reading records out of YAML nodes. A record starts with the values it has and each entry of a
mapping sets the field it names. What does not fit is complained of and reading goes on, so that all
complaints come at once; only a scalar that contradicts its own tag stops it, and a merge of what is
no mapping.
-/
import DocAtlas.Text.Base64
import DocAtlas.Text.Quoted
import DocAtlas.Text.Table
import DocAtlas.Yaml.Node

namespace DocAtlas.Yaml

/-- A reading that gathers complaints and may stop. -/
abbrev Reading (α : Type) := StateT (List Text) Option α

namespace Reading

def complain (line : Nat) (what : Text) : Reading Unit :=
  modify fun cs => cs ++ ["line " ++ Text.ofNat line ++ ": " ++ what]

/-- A text as a complaint shows it: the beginning of a long one. -/
def shown (t : Text) : Text := if 10 < t.length then t.take 7 ++ "..." else t

/-- Complains that a node is not of a type. -/
def mismatch (line : Nat) (tag text type : Text) : Reading Unit :=
  let value : Text := if tag = "!!seq" || tag = "!!map" then [] else " `" ++ shown text ++ "`"
  complain line ("cannot unmarshal " ++ tag ++ value ++ " into " ++ type)

/-- The pairs of keys of which the second repeats the first. -/
def repeats : List (Node × Node) → List (Node × Node)
  | [] => []
  | e :: es => ((es.filter fun f => f.1.keyText == e.1.keyText).map fun f => (e.1, f.1)) ++ repeats es

/-- Complains of repeated keys, and tells whether there are none. -/
def keysDiffer (entries : List (Node × Node)) : Reading Bool := do
  let found := repeats entries
  for (first, again) in found do
    complain again.line
      ("mapping key " ++ Text.quoted again.keyText.2 ++ " already defined at line " ++ Text.ofNat first.line)
  return found.isEmpty

/-- What a scalar stands for, and its text; reading stops if it cannot be what its tag says. -/
def scalar (tag text : Text) : Reading (Meaning × Text) :=
  if tag = "!!binary" then do return (.text, ← Base64.decode? text)
  else do return (← Meaning.ofTagged? tag text, text)

/-- Complains of a collection where something else is due. -/
def notHere (n : Node) (type : Text) : Reading Unit := do
  match n with
  | .map line tag entries => if ← keysDiffer entries then mismatch line tag [] type
  | .seq line tag _ => mismatch line tag [] type
  | _ => return

/-- A text; none if there is nothing, or nothing that fits. -/
def text (n : Node) : Reading (Option Text) := do
  match n.behind with
  | .scalar _ tag t =>
    let (m, t) ← scalar tag t
    return if m == .null then none else some t
  | m =>
    notHere m "string"
    return none

/-- The words that stand for a truth value where one is due. -/
def boolWord? (t : Text) : Option Bool :=
  if (["y", "Y", "yes", "on"] : List Text).contains t then some true
  else if (["n", "N", "no", "off"] : List Text).contains t then some false
  else none

/-- A truth value. -/
def bool (n : Node) : Reading (Option Bool) := do
  match n.behind with
  | .scalar line tag t =>
    let (m, word) ← scalar tag t
    match m, boolWord? word with
    | .null, _ => return none
    | .bool b, _ | .text, some b => return some b
    | _, _ =>
      mismatch line tag t "bool"
      return none
  | m =>
    notHere m "bool"
    return none

/-- A list of texts, of which those that are nothing are left out. -/
def texts (n : Node) : Reading (Option (Listing Text)) := do
  match n.behind with
  | .seq _ _ items => return some (some (← items.filterMapM text))
  | .scalar line tag t =>
    if (← scalar tag t).1 == .null then return some none
    mismatch line tag t "[]string"
    return none
  | m =>
    notHere m "[]string"
    return none

end Reading

/-- A field of a record: its name, and what a node does to the record. -/
structure RecordField (α : Type) where
  name : Text
  set : Node → α → Reading α

namespace RecordField

variable {α β : Type}

/-- A field that is left as it was where nothing fits. -/
def plain (name : Text) (read : Node → Reading (Option β)) (put : β → α → α) : RecordField α where
  name := name
  set n r := do
    match ← read n with
    | some x => return put x r
    | none => return r

/-- A field that is a record itself. -/
def part (name : Text) (get : α → β) (read : Node → β → Reading β) (put : β → α → α) : RecordField α where
  name := name
  set n r := do return put (← read n (get r)) r

end RecordField

/-- A record being read. -/
structure Draft (α : Type) where
  record : α
  /-- The names that no merged entry sets. -/
  taken : List Text

/-- Reads the entries of one mapping, but not those merged into it. With `merged`, entries of names
taken already are left out. -/
def readOwn {α : Type} (type : Text) (fields : List (RecordField α)) (merged : Bool) :
    (done : List Text) → List (Node × Node) → Draft α → Reading (Draft α)
  | _, [], p => return p
  | done, (k, v) :: es, p => do
    if k.isMerge then readOwn type fields merged done es p
    else
      match ← Reading.text k with
      | none => readOwn type fields merged done es p
      | some name =>
        if merged && p.taken.contains name then readOwn type fields merged done es p
        else
          let p := { p with taken := name :: p.taken }
          match fields.find? fun f => f.name == name with
          | none =>
            Reading.complain k.line ("field " ++ name ++ " not found in type " ++ type)
            readOwn type fields merged done es p
          | some f =>
            if done.contains name then
              Reading.complain k.line ("field " ++ name ++ " already set in type " ++ type)
              readOwn type fields merged done es p
            else
              let record ← f.set v p.record
              readOwn type fields merged (name :: done) es { p with record }

mutual

/-- Reads the entries of a mapping, and then those merged into it: of the same name the first
counts. Reading stops if something else than a mapping is to be merged. -/
def readMapping {α : Type} (type : Text) (fields : List (RecordField α)) (merged : Bool) :
    Node → Draft α → Reading (Draft α)
  | .map _ _ entries, p => do
    if ← Reading.keysDiffer entries then readMerged type fields entries (← readOwn type fields merged [] entries p)
    else return p
  | .alias_ _ _ target, p => readMapping type fields merged target p
  | .scalar _ _ _, _ | .seq _ _ _, _ => none

/-- Reads what is merged into a mapping with these entries. -/
def readMerged {α : Type} (type : Text) (fields : List (RecordField α)) :
    List (Node × Node) → Draft α → Reading (Draft α)
  | [], p => return p
  | (k, v) :: es, p => do
    if k.isMerge then
      match v with
      | .seq _ _ items => readAll type fields items p
      | v => readMapping type fields true v p
    else readMerged type fields es p

/-- Reads the entries of mappings one after another. -/
def readAll {α : Type} (type : Text) (fields : List (RecordField α)) : List Node → Draft α → Reading (Draft α)
  | [], p => return p
  | n :: ns, p => do readAll type fields ns (← readMapping type fields true n p)

end

/-- Reads a record of a type over its present value. -/
def readRecord {α : Type} (type : Text) (fields : List (RecordField α)) (n : Node) (r : α) : Reading α := do
  match n.behind with
  | .map line tag entries => return (← readMapping type fields false (.map line tag entries) ⟨r, []⟩).record
  | .scalar line tag t =>
    if (← Reading.scalar tag t).1 != .null then Reading.mismatch line tag t type
    return r
  | m =>
    Reading.notHere m type
    return r

end DocAtlas.Yaml

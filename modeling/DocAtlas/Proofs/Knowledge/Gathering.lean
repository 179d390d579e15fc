/-
A base is a function of the facts recorded last for each path. Gathering is setting keys one after the other, so
what is found under a path is the last that was added for it (`find?_ofOffers`), and a sorted table is determined by
what is found in it; when the adds come, relative to those for other paths, does not matter (`ofOffers_congr`).

The index has one flat key for a file and a name. Its keys are split at their last colon, as long as no name has one
(`symbolKey_inj`); a path may have as many as it likes. So an entry of the index is the last symbol of its name in
its file (`find?_index`), and there is no entry besides (`mem_keys_index`).
-/
import DocAtlas.Proofs.Knowledge.Documents

namespace DocAtlas

/-! ## Adds -/

/-- The facts offered for a path, in order. What is missing is for no path. -/
def offersFor (path : Text) (offers : List (Option FileFacts)) : List FileFacts :=
  (offers.filterMap id).filter fun f => f.path == path

/-- The facts offered last for a path. -/
def lastOffer (offers : List (Option FileFacts)) (path : Text) : Option FileFacts := (offersFor path offers).getLast?

/-- The last of some symbols with a name. -/
def lastNamed (name : Text) (symbols : List SymbolFact) : Option SymbolFact :=
  (symbols.filter fun s => s.name == name).getLast?

/-- There is a last symbol of a name iff there is a symbol of the name. -/
theorem isSome_lastNamed {name : Text} {symbols : List SymbolFact} :
    (lastNamed name symbols).isSome = true ↔ ∃ s ∈ symbols, s.name = name := by
  rw [lastNamed, List.getLast?_isSome, ne_eq, List.filter_eq_nil_iff]
  simp

namespace Gathered

variable (offers : List (Option FileFacts))

/-- Offers leave what gathering the facts among them gives. -/
theorem ofOffers_eq : ofOffers offers = (offers.filterMap id).foldl add [] := by
  unfold ofOffers
  rw [List.foldl_filterMap]
  congr 1
  funext g offer
  cases offer <;> rfl

theorem sorted_ofOffers : Table.Sorted (ofOffers offers) := ofOffers_eq offers ▸ KnowledgeBase.sorted_gathered _

/-- What is found under a path is what was offered last for it. -/
theorem find?_ofOffers (path : Text) : Table.find? path (ofOffers offers) = lastOffer offers path := by
  rw [ofOffers_eq, KnowledgeBase.gathered_eq_ofPairs, Table.find?_ofPairs, List.filter_map, List.getLast?_map,
    Option.map_map]
  exact Option.map_id'

variable {offers} {others : List (Option FileFacts)}

/-- Offers with the same last ones for each path leave the same. -/
theorem ofOffers_congr (h : lastOffer offers = lastOffer others) : ofOffers offers = ofOffers others := by
  refine Table.ext_find? (sorted_ofOffers _) (sorted_ofOffers _) fun path => ?_
  rw [find?_ofOffers, find?_ofOffers, h]

end Gathered

namespace KnowledgeBase

/-! ## Tables of lists -/

section Collect

variable {α : Type} (part : FileFacts → List α) (g : Gathered)

theorem keys_collect : Table.keys (collect part g) = Table.keys g := by
  unfold collect Table.keys
  rw [List.map_map]
  rfl

theorem find?_collect (path : Text) :
    Table.find? path (collect part g) = (Table.find? path g).map fun f => some (part f) := by
  unfold collect Table.find?
  rw [List.find?_map, Option.map_map, Option.map_map]
  rfl

end Collect

/-! ## The index -/

/-- A key says which file and which name, as long as names have no colon. -/
theorem symbolKey_inj {file file' name name' : Text} (hname : 58 ∉ name) (hname' : 58 ∉ name')
    (h : symbolKey file name = symbolKey file' name') : file = file' ∧ name = name' := by
  have hsplit : file ++ 58 :: name = file' ++ 58 :: name' := by
    change file ++ [58] ++ name = file' ++ [58] ++ name' at h
    simpa using h
  -- if one file were longer, its colon would stand in the name after the other
  have hshort : ∀ {more name name' : Text}, 58 ∉ name → 58 :: name = more ++ 58 :: name' →
      more = [] ∧ name = name' := by
    intro more name name' hname heq
    cases more with
    | nil => exact ⟨rfl, List.tail_eq_of_cons_eq heq⟩
    | cons b more =>
      refine absurd ?_ hname
      rw [List.tail_eq_of_cons_eq heq]
      exact List.mem_append_right _ (List.mem_cons_self ..)
  rcases List.append_eq_append_iff.1 hsplit with ⟨more, rfl, heq⟩ | ⟨more, rfl, heq⟩
  · obtain ⟨rfl, rfl⟩ := hshort hname heq
    exact ⟨(List.append_nil _).symm, rfl⟩
  · obtain ⟨rfl, rfl⟩ := hshort hname' heq
    exact ⟨List.append_nil _, rfl⟩

/-- The names of all symbols can stand in a key: they have no colon. -/
def PlainNames (last : Text → Option FileFacts) : Prop :=
  ∀ path f, last path = some f → ∀ s ∈ f.symbols, 58 ∉ s.name

/-- Of the entries of a file those with the key of a name are the symbols of the name; of those of another file there
are none. -/
theorem filter_indexEntries {f : FileFacts} (hf : ∀ s ∈ f.symbols, 58 ∉ s.name) (path file : Text) {name : Text}
    (hname : 58 ∉ name) :
    (indexEntries path f).filter (fun e => e.1 == symbolKey file name) =
      if path = file then (f.symbols.filter fun s => s.name == name).map fun s => (symbolKey file name, ⟨s, file⟩)
        else [] := by
  have hkey : ∀ s ∈ f.symbols, symbolKey path s.name = symbolKey file name → path = file ∧ s.name = name := fun s hs =>
    symbolKey_inj (hf s hs) hname
  split
  · rename_i hpath
    subst hpath
    rw [indexEntries, List.filter_map]
    have hsame : f.symbols.filter ((fun e : Text × IndexedSymbol => e.1 == symbolKey path name) ∘ fun s =>
        (symbolKey path s.name, ⟨s, path⟩)) = f.symbols.filter fun s => s.name == name := by
      refine List.filter_congr fun s hs => Bool.eq_iff_iff.2 ?_
      simp only [Function.comp_apply, beq_iff_eq]
      exact ⟨fun h => (hkey s hs h).2, fun h => by rw [h]⟩
    rw [hsame]
    refine List.map_congr_left fun s hs => ?_
    rw [show s.name = name by simpa using (List.mem_filter.1 hs).2]
  · rename_i hpath
    refine List.filter_eq_nil_iff.2 fun e he => ?_
    obtain ⟨s, hs, rfl⟩ := List.mem_map.1 he
    simp only [beq_iff_eq]
    exact fun h => hpath (hkey s hs h).1

/-- Of the entries of all files those with the key of a file and a name are the symbols of the name in the file. -/
theorem filter_entries {g : Gathered} (hg : Table.Sorted g) (hplain : PlainNames fun path => Table.find? path g)
    (file : Text) {name : Text} (hname : 58 ∉ name) :
    (List.flatMap (fun e => indexEntries e.1 e.2) g).filter (fun e => e.1 == symbolKey file name) =
      ((((Table.find? file g).map FileFacts.symbols).getD []).filter fun s => s.name == name).map fun s =>
        (symbolKey file name, ⟨s, file⟩) := by
  induction g with
  | nil => rfl
  | cons e g ih =>
    obtain ⟨path, f⟩ := e
    obtain ⟨hfirst, hg⟩ := Table.sorted_cons.1 hg
    have hf : ∀ s ∈ f.symbols, 58 ∉ s.name := hplain path f (by simp [Table.find?_cons])
    have hrest : PlainNames fun path => Table.find? path g := by
      intro path' f' hfind
      have hne : path ≠ path' := (hfirst _ (Table.mem_of_find? hfind)).2
      exact hplain path' f' (by simp [Table.find?_cons, hne, hfind])
    rw [List.flatMap_cons, List.filter_append, filter_indexEntries hf path file hname, ih hg hrest, Table.find?_cons]
    by_cases hpath : path = file
    · have hnone : Table.find? file g = none := by
        rw [Option.eq_none_iff_forall_ne_some]
        exact fun f' hfind => (hfirst _ (Table.mem_of_find? hfind)).2 hpath
      simp [hpath, hnone]
    · simp [hpath]

/-- The entry for a file and a name is the last symbol of the name in the file. -/
theorem find?_index {g : Gathered} (hg : Table.Sorted g) (hplain : PlainNames fun path => Table.find? path g)
    (file : Text) {name : Text} (hname : 58 ∉ name) :
    Table.find? (symbolKey file name) (ofGathered g).index =
      ((Table.find? file g).bind fun f => lastNamed name f.symbols).map fun s => ⟨s, file⟩ := by
  change Table.find? _ (Table.ofPairs _) = _
  rw [Table.find?_ofPairs, filter_entries hg hplain file hname, List.getLast?_map, Option.map_map]
  cases Table.find? file g <;> rfl

/-- The keys of the index are those of the symbols of the gathered files. -/
theorem mem_keys_index {g : Gathered} {key : Text} :
    key ∈ Table.keys (ofGathered g).index ↔ ∃ e ∈ g, ∃ s ∈ e.2.symbols, key = symbolKey e.1 s.name := by
  change key ∈ Table.keys (Table.ofPairs _) ↔ _
  rw [Table.mem_keys_ofPairs, Table.keys, List.mem_map]
  constructor
  · rintro ⟨entry, hentry, rfl⟩
    obtain ⟨e, he, hentry⟩ := List.mem_flatMap.1 hentry
    obtain ⟨s, hs, rfl⟩ := List.mem_map.1 hentry
    exact ⟨e, he, s, hs, rfl⟩
  · rintro ⟨e, he, s, hs, rfl⟩
    exact ⟨_, List.mem_flatMap.2 ⟨e, he, List.mem_map_of_mem hs⟩, rfl⟩

/-! ## Bases of offers -/

/-- The base of what some offers leave. -/
def ofOffers (offers : List (Option FileFacts)) : KnowledgeBase := ofGathered (Gathered.ofOffers offers)

/-- The paths that are recorded after some offers. -/
def filesOf (offers : List (Option FileFacts)) : List Text := Table.keys (Gathered.ofOffers offers)

/-- What a base says, in terms of the facts recorded last for each path. -/
structure Tells (last : Text → Option FileFacts) (files : List Text) (k : KnowledgeBase) : Prop where
  /-- The recorded paths are in order, each once. -/
  ordered : files.Pairwise Text.Before
  /-- They are the paths facts were recorded for. -/
  recorded : ∀ path, path ∈ files ↔ (last path).isSome = true
  symbolKeys : Table.keys k.symbols = files
  importKeys : Table.keys k.imports = files
  exportKeys : Table.keys k.exports = files
  referenceKeys : Table.keys k.references = files
  callKeys : Table.keys k.calls = files
  symbols : ∀ path, Table.find? path k.symbols = (last path).map fun f => some f.symbols
  imports : ∀ path, Table.find? path k.imports = (last path).map fun f => some f.imports
  exports : ∀ path, Table.find? path k.exports = (last path).map fun f => some f.exports
  references : ∀ path, Table.find? path k.references = (last path).map fun f => some (Reference.ofFile f)
  calls : ∀ path, Table.find? path k.calls = (last path).map fun f => some f.calls
  /-- A name has an entry for a file iff the file declares it. -/
  indexed : PlainNames last → ∀ file name, 58 ∉ name →
    (symbolKey file name ∈ Table.keys k.index ↔ ∃ f, last file = some f ∧ ∃ s ∈ f.symbols, s.name = name)
  /-- The entry is the last symbol of the name. -/
  entry : PlainNames last → ∀ file name, 58 ∉ name →
    Table.find? (symbolKey file name) k.index =
      ((last file).bind fun f => lastNamed name f.symbols).map fun s => ⟨s, file⟩
  /-- There are the entries of the declared names and no others, colons or not. -/
  keyed : ∀ key, key ∈ Table.keys k.index ↔ ∃ file f, last file = some f ∧ ∃ s ∈ f.symbols, key = symbolKey file s.name

theorem tells_ofOffers (offers : List (Option FileFacts)) :
    Tells (lastOffer offers) (filesOf offers) (ofOffers offers) := by
  have hsorted := Gathered.sorted_ofOffers offers
  have hfind : ∀ path, Table.find? path (Gathered.ofOffers offers) = lastOffer offers path :=
    Gathered.find?_ofOffers offers
  have hcollect : ∀ {α : Type} (part : FileFacts → List α) (path : Text),
      Table.find? path (collect part (Gathered.ofOffers offers)) =
        (lastOffer offers path).map fun f => some (part f) := by
    intro α part path
    rw [find?_collect, hfind]
  have hentry : PlainNames (lastOffer offers) → ∀ file name, 58 ∉ name →
      Table.find? (symbolKey file name) (ofOffers offers).index =
        ((lastOffer offers file).bind fun f => lastNamed name f.symbols).map fun s => ⟨s, file⟩ := by
    intro hplain file name hname
    have hindex := find?_index hsorted (by simpa only [hfind] using hplain) file hname
    rwa [hfind] at hindex
  refine
    { ordered := Table.pairwise_keys hsorted
      recorded := fun path => by rw [filesOf, ← Table.isSome_find?, hfind]
      symbolKeys := keys_collect _ _
      importKeys := keys_collect _ _
      exportKeys := keys_collect _ _
      referenceKeys := keys_collect _ _
      callKeys := keys_collect _ _
      symbols := hcollect _
      imports := hcollect _
      exports := hcollect _
      references := hcollect _
      calls := hcollect _
      indexed := fun hplain file name hname => ?_
      entry := hentry
      keyed := fun key => mem_keys_index.trans ⟨?_, ?_⟩ }
  · rw [← Table.isSome_find?, hentry hplain file name hname, Option.isSome_map]
    cases hlast : lastOffer offers file with
    | none => simp
    | some f => simpa using isSome_lastNamed
  · rintro ⟨e, he, s, hs, hkey⟩
    exact ⟨e.1, e.2, hfind e.1 ▸ Table.find?_of_mem hsorted he, s, hs, hkey⟩
  · rintro ⟨file, f, hlast, s, hs, hkey⟩
    exact ⟨(file, f), Table.mem_of_find? ((hfind file).trans hlast), s, hs, hkey⟩

/-- Adds may come in any order that keeps, for each path, the order of its own: the base is the same. It depends only
on what was added last for each path, and tells just that. -/
theorem ofOffers_exact :
    (∀ offers others, lastOffer offers = lastOffer others → ofOffers offers = ofOffers others) ∧
    (∀ offers others, (∀ path, offersFor path offers = offersFor path others) → ofOffers offers = ofOffers others) ∧
    ∀ offers, Tells (lastOffer offers) (filesOf offers) (ofOffers offers) := by
  refine ⟨fun _ _ h => congrArg ofGathered (Gathered.ofOffers_congr h), fun _ _ h => ?_, tells_ofOffers⟩
  refine congrArg ofGathered (Gathered.ofOffers_congr (funext fun path => ?_))
  rw [lastOffer, lastOffer, h path]

/-- A function on a line. -/
def functionOn (name : Text) (line : Int) : SymbolFact :=
  ⟨"function", name, line, line, true, [], [], false, false, [], [], []⟩

/-- A file that declares functions and nothing else. -/
def fileOf (path : Text) (symbols : List SymbolFact) : FileFacts := ⟨path, "javascript", symbols, [], [], []⟩

/-- `a` is added twice, nothing once, and `a:b` in between. -/
def interleaved : List (Option FileFacts) :=
  [some (fileOf "a" [functionOn "g" 1]), none, some (fileOf "a:b" [functionOn "f" 3]),
    some (fileOf "a" [functionOn "f" 1, functionOn "f" 2])]

/-- The same with `a:b` first. -/
def reordered : List (Option FileFacts) :=
  [some (fileOf "a:b" [functionOn "f" 3]), some (fileOf "a" [functionOn "g" 1]),
    some (fileOf "a" [functionOn "f" 1, functionOn "f" 2]), none]

theorem offersFor_reordered (path : Text) : offersFor path interleaved = offersFor path reordered := by
  by_cases ha : ("a" : Text) = path
  · subst ha
    decide
  · by_cases hb : ("a:b" : Text) = path
    · subst hb
      decide
    · simp [offersFor, interleaved, reordered, fileOf, ha, hb]

theorem plainNames_interleaved : PlainNames (lastOffer interleaved) := by
  intro path f hf
  have hall : ∀ f ∈ interleaved.filterMap id, ∀ s ∈ f.symbols, 58 ∉ s.name := by decide
  exact hall f (List.mem_filter.1 (List.mem_of_getLast? hf)).1

/-- A path with a colon does not come in the way of the one before its colon; of two functions of one name the second
is found, and of two adds the second counts. -/
theorem interleaved_indexed :
    (∀ path, offersFor path interleaved = offersFor path reordered) ∧ PlainNames (lastOffer interleaved) ∧
    58 ∉ ("f" : Text) ∧
      ofOffers interleaved = ofOffers reordered ∧
      Table.find? (symbolKey "a" "f") (ofOffers interleaved).index = some ⟨functionOn "f" 2, "a"⟩ ∧
      Table.find? (symbolKey "a:b" "f") (ofOffers interleaved).index = some ⟨functionOn "f" 3, "a:b"⟩ := by
  have hname : 58 ∉ ("f" : Text) := by decide
  obtain ⟨-, hreorder, htells⟩ := ofOffers_exact
  have hentry := (htells interleaved).entry plainNames_interleaved
  refine ⟨offersFor_reordered, plainNames_interleaved, hname, hreorder _ _ offersFor_reordered, ?_, ?_⟩
  · rw [hentry "a" "f" hname]
    decide
  · rw [hentry "a:b" "f" hname]
    decide

end KnowledgeBase

end DocAtlas

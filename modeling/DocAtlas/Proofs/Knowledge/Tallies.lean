/-
The numbers of a knowledge run are those of the documents it saves. What a file comes to depends on
its content alone: the parsers and queries made for earlier files change nothing. So after any number
of files the numbers, the faults and the gathered facts are those of the outcomes so far
(`Tallied`), and since no two files have the same way from the root, gathering loses none of them.

From this the account of a run (`runBy_tallies`): on success numbers, manifest and documents agree, as they
are written and as they are read back; a run that was cancelled or could not search its root has left the
disk as it was.
-/
import DocAtlas.Knowledge.Generate
import DocAtlas.Proofs.Files.Selection
import DocAtlas.Proofs.Knowledge.Rereading
import DocAtlas.Proofs.Tree.Nodes

namespace DocAtlas

/-! ## Tables of lists as documents -/

namespace Json

variable {α : Type} (item : α → Json) (part : FileFacts → List α) (g : Gathered)

theorem memberNames_collect : (lists item (KnowledgeBase.collect part g)).memberNames = Table.keys g := by
  simp [lists, memberNames, KnowledgeBase.collect, Table.keys]

theorem itemCount_collect :
    (lists item (KnowledgeBase.collect part g)).itemCount = (List.map (fun e => (part e.2).length) g).sum := by
  simp only [lists, itemCount, KnowledgeBase.collect, List.map_map]
  congr 1
  refine List.map_congr_left fun e _ => ?_
  simp [listing, size]

end Json

/-! ## Gathering -/

namespace Gathered

/-- Facts of files with different paths are all kept. -/
theorem perm_foldl_add {fs : List FileFacts} (hfs : (fs.map FileFacts.path).Nodup) {g : Gathered}
    (hg : ∀ f ∈ fs, f.path ∉ Table.keys g) : (fs.foldl add g).Perm (g ++ fs.map fun f => (f.path, f)) := by
  induction fs generalizing g with
  | nil => simp
  | cons f fs ih =>
    obtain ⟨hnew, hfs⟩ := List.nodup_cons.1 hfs
    obtain ⟨hf, hg⟩ := List.forall_mem_cons.1 hg
    have hrest : ∀ f' ∈ fs, f'.path ∉ Table.keys (g.add f) := by
      intro f' hf' hmem
      rcases Table.mem_keys_put.1 hmem with heq | hmem
      · exact hnew (heq ▸ List.mem_map_of_mem hf')
      · exact hg f' hf' hmem
    have hadd : (g.add f).Perm ((f.path, f) :: g) := Table.perm_put f hf
    have hall : (fs.foldl add (g.add f)).Perm ((f.path, f) :: (g ++ fs.map fun f => (f.path, f))) :=
      (ih hfs hrest).trans (hadd.append_right _)
    exact hall.trans List.perm_middle.symm

variable {fs : List FileFacts} (hfs : (fs.map FileFacts.path).Nodup)

include hfs

theorem perm_gathered : (fs.foldl add []).Perm (fs.map fun f => (f.path, f)) :=
  perm_foldl_add hfs fun _ _ => List.not_mem_nil

theorem perm_keys_gathered : (Table.keys (fs.foldl add [])).Perm (fs.map FileFacts.path) := by
  have h := (perm_gathered hfs).map Prod.fst
  rwa [List.map_map] at h

theorem sum_gathered (count : FileFacts → Nat) :
    (List.map (fun e => count e.2) (fs.foldl add [])).sum = (fs.map count).sum := by
  have h := (perm_gathered hfs).map fun e => count e.2
  rw [List.map_map] at h
  exact h.sum_eq

end Gathered

/-! ## Outcomes -/

/-- What a parse gives does not depend on the parsers made before. -/
theorem Parsers.parse_outcome (gs : Grammars) (p q : Parsers) (g : Grammar) (src : Text) :
    (p.parse gs g src).tree = (q.parse gs g src).tree ∧ (p.parse gs g src).fault = (q.parse gs g src).fault := by
  unfold parse
  simp only
  cases gs g src with
  | none => exact ⟨rfl, rfl⟩
  | some root =>
    simp only
    cases ParseFault.ofTree? ⟨src, root⟩ <;> exact ⟨rfl, rfl⟩

/-- What an extraction gives does not depend on the queries made ready before either. -/
theorem Extractor.extract_outcome (gs : Grammars) (x y : Extractor) (path rel src : Text) :
    (x.extract gs path rel src).1 = (y.extract gs path rel src).1 := by
  unfold extract
  cases Grammar.ofPath? path with
  | none => rfl
  | some g =>
    obtain ⟨htree, hfault⟩ := Parsers.parse_outcome gs x.parsers y.parsers g src
    simp only [htree, hfault]
    generalize (y.parsers.parse gs g src).fault = fault
    generalize (y.parsers.parse gs g src).tree = tree
    cases fault with
    | none => cases tree <;> rfl
    | some f => cases f <;> rfl

/-- Extracted facts are recorded under the path that is asked for. -/
theorem Extractor.path_of_extract {gs : Grammars} {x : Extractor} {path rel src : Text} {f : FileFacts}
    (h : (x.extract gs path rel src).1 = .ok f) : f.path = rel := by
  unfold extract at h
  split at h
  · cases h
  · simp only at h
    split at h
    · cases h
    · cases h
    · cases h
    · cases h
      rfl

namespace KnowledgeRun

section Outcomes

variable (gs : Grammars) (access : Access) (d : Disk) (root : Text)

/-- What a run makes of the file at a path: nothing if it is of no known language. -/
def outcomeAt (path : Text) : Option (Except FileFault FileFacts) :=
  if (Grammar.ofPath? path).isNone then none
  else some (extractFile gs access d (.fresh 0) path (Path.relativeTo root path)).1

/-- The facts of the file at a path, if it has some. -/
def factsAt (path : Text) : Option FileFacts := (outcomeAt gs access d root path).bind Except.toOption

/-- What keeps the file at a path from being extracted, if something does. -/
def faultAt (path : Text) : Option FileFault :=
  (outcomeAt gs access d root path).bind fun o => match o with
    | .error f => some f
    | .ok _ => none

variable {gs access d root}

theorem extractFile_outcome (x y : Extractor) (path rel : Text) :
    (extractFile gs access d x path rel).1 = (extractFile gs access d y path rel).1 := by
  unfold extractFile
  cases d.readBy access path with
  | error e => rfl
  | ok src =>
    have h := Extractor.extract_outcome gs x y path rel src
    simp only
    generalize x.extract gs path rel src = r at h
    generalize y.extract gs path rel src = r' at h
    obtain ⟨o, log, x'⟩ := r
    obtain ⟨o', log', y'⟩ := r'
    obtain rfl : o = o' := h
    cases o <;> rfl

theorem path_of_factsAt {path : Text} {f : FileFacts} (h : factsAt gs access d root path = some f) :
    f.path = Path.relativeTo root path := by
  unfold factsAt outcomeAt at h
  split at h
  · cases h
  · rw [Option.bind_some] at h
    unfold extractFile at h
    split at h
    · cases h
    · split at h
      · rename_i hextract
        cases h
        exact Extractor.path_of_extract (congrArg Prod.fst hextract)
      · cases h

/-- A step is that of its outcome. -/
theorem step_eq (st : KnowledgeState) (path : Text) : ∃ extractor log,
    step gs access d root st path = match outcomeAt gs access d root path with
      | none => skip st (Path.relativeTo root path)
      | some o => record { st with extractor, log } o := by
  unfold step outcomeAt
  split
  · exact ⟨st.extractor, st.log, rfl⟩
  · rw [extractFile_outcome (.fresh 0) st.extractor]
    exact ⟨_, _, rfl⟩

end Outcomes

/-! ## The state of a run -/

/-- The facts extracted from some files. -/
def factsOf (gs : Grammars) (access : Access) (d : Disk) (root : Text) (paths : List Text) : List FileFacts :=
  paths.filterMap (factsAt gs access d root)

/-- The number of records of some kind. -/
def total {α : Type} (part : FileFacts → List α) (fs : List FileFacts) : Nat := (fs.map fun f => (part f).length).sum

/-- The numbers of a run agree with the facts and faults it came to. -/
structure Counted (stats : KnowledgeStats) (fs : List FileFacts) (faults : List FileFault) : Prop where
  balanced : stats.scanned = stats.extracted + stats.skipped + stats.errored
  extracted : stats.extracted = fs.length
  errored : stats.errored = faults.length
  symbols : stats.symbols = total FileFacts.symbols fs
  imports : stats.imports = total FileFacts.imports fs
  calls : stats.calls = total FileFacts.calls fs

/-- After the files `done` the state is what they came to. -/
structure Tallied (gs : Grammars) (access : Access) (d : Disk) (root : Text) (done : List Text) (st : KnowledgeState) :
    Prop where
  scanned : st.stats.scanned = done.length
  faults : st.faults = done.filterMap (faultAt gs access d root)
  counted : Counted st.stats (factsOf gs access d root done) st.faults
  gathered : st.gathered = (factsOf gs access d root done).foldl Gathered.add []

variable {gs : Grammars} {access : Access} {d : Disk} {root : Text}

theorem total_concat {α : Type} (part : FileFacts → List α) (fs : List FileFacts) (f : FileFacts) :
    total part (fs ++ [f]) = total part fs + (part f).length := by simp [total]

theorem factsOf_concat (paths : List Text) (path : Text) :
    factsOf gs access d root (paths ++ [path]) =
      factsOf gs access d root paths ++ (factsAt gs access d root path).toList := by
  unfold factsOf
  rw [List.filterMap_append]
  cases h : factsAt gs access d root path <;> simp [h]

theorem faultsAt_concat (paths : List Text) (path : Text) :
    (paths ++ [path]).filterMap (faultAt gs access d root) = paths.filterMap
      (faultAt gs access d root) ++ (faultAt gs access d root path).toList := by
  rw [List.filterMap_append]
  cases h : faultAt gs access d root path <;> simp [h]

section Counts

variable {stats : KnowledgeStats} {fs : List FileFacts} {faults : List FileFault}

theorem Counted.skip (h : Counted stats fs faults) :
    Counted { scanned stats with skipped := stats.skipped + 1 } fs faults where
  balanced := by
    have hbalanced := h.balanced
    simp only [KnowledgeRun.scanned]
    omega
  extracted := h.extracted
  errored := h.errored
  symbols := h.symbols
  imports := h.imports
  calls := h.calls

theorem Counted.error (h : Counted stats fs faults) (f : FileFault) :
    Counted { scanned stats with errored := stats.errored + 1 } fs (faults ++ [f]) where
  balanced := by
    have hbalanced := h.balanced
    simp only [KnowledgeRun.scanned]
    omega
  extracted := h.extracted
  errored := by simp [h.errored]
  symbols := h.symbols
  imports := h.imports
  calls := h.calls

theorem Counted.extract (h : Counted stats fs faults) (f : FileFacts) :
    Counted { scanned stats with
      extracted := stats.extracted + 1
      symbols := stats.symbols + f.symbols.length
      imports := stats.imports + f.imports.length
      calls := stats.calls + f.calls.length } (fs ++ [f]) faults where
  balanced := by
    have hbalanced := h.balanced
    simp only [KnowledgeRun.scanned]
    omega
  extracted := by simp [h.extracted]
  errored := h.errored
  symbols := by rw [total_concat, ← h.symbols]
  imports := by rw [total_concat, ← h.imports]
  calls := by rw [total_concat, ← h.calls]

end Counts

/-- One more file. -/
theorem Tallied.step {done : List Text} {st : KnowledgeState} (h : Tallied gs access d root done st) (path : Text) :
    Tallied gs access d root (done ++ [path]) (step gs access d root st path) := by
  obtain ⟨hscanned, hfaults, hcounted, hgathered⟩ := h
  obtain ⟨extractor, log, hstep⟩ := @step_eq gs access d root st path
  have hfacts : factsOf gs access d root (done ++ [path]) = _ := factsOf_concat done path
  have hfault : (done ++ [path]).filterMap (faultAt gs access d root) = _ := faultsAt_concat done path
  rw [← hfaults] at hfault
  have hmore : (KnowledgeRun.scanned st.stats).scanned = (done ++ [path]).length := by
    simp [KnowledgeRun.scanned, hscanned]
  rw [hstep]
  cases ho : outcomeAt gs access d root path with
  | none =>
    have hnone : factsAt gs access d root path = none ∧ faultAt gs access d root path = none := by
      simp [factsAt, faultAt, ho]
    rw [hnone.1, Option.toList_none, List.append_nil] at hfacts
    rw [hnone.2, Option.toList_none, List.append_nil] at hfault
    exact ⟨hmore, hfault.symm, hfacts ▸ hcounted.skip, hfacts ▸ hgathered⟩
  | some o =>
    cases o with
    | error f =>
      have hone : factsAt gs access d root path = none ∧ faultAt gs access d root path = some f := by
        simp [factsAt, faultAt, ho, Except.toOption]
      rw [hone.1, Option.toList_none, List.append_nil] at hfacts
      rw [hone.2, Option.toList_some] at hfault
      exact ⟨hmore, hfault.symm, hfacts ▸ hcounted.error f, hfacts ▸ hgathered⟩
    | ok f =>
      have hone : factsAt gs access d root path = some f ∧ faultAt gs access d root path = none := by
        simp [factsAt, faultAt, ho, Except.toOption]
      rw [hone.1, Option.toList_some] at hfacts
      rw [hone.2, Option.toList_none, List.append_nil] at hfault
      refine ⟨hmore, hfault.symm, hfacts ▸ hcounted.extract f, ?_⟩
      rw [hfacts, List.foldl_append, ← hgathered]
      rfl

/-- All files of a run. -/
theorem Tallied.foldl {done : List Text} {st : KnowledgeState} (h : Tallied gs access d root done st)
    (todo : List Text) :
    Tallied gs access d root (done ++ todo) (todo.foldl (KnowledgeRun.step gs access d root) st) := by
  induction todo generalizing done st with
  | nil => simpa using h
  | cons path todo ih => simpa using ih (h.step path)

/-- Files with different ways from the root have facts with different paths. -/
theorem nodup_path_factsOf {paths : List Text} (h : (paths.map (Path.relativeTo root)).Nodup) :
    ((factsOf gs access d root paths).map FileFacts.path).Nodup := by
  refine h.sublist ?_
  clear h
  induction paths with
  | nil => exact .slnil
  | cons p paths ih =>
    unfold factsOf at ih ⊢
    cases hf : factsAt gs access d root p with
    | none =>
      rw [List.filterMap_cons_none hf]
      exact ih.cons _
    | some f =>
      rw [List.filterMap_cons_some hf, List.map_cons, List.map_cons, path_of_factsAt hf]
      exact ih.cons_cons _

/-! ## The account of a run -/

/-- The documents with an entry for each file. -/
def perFile : List Text :=
  ["fileSymbols.json", "fileImports.json", "symbolReferences.json", "functionCalls.json", "fileExports.json"]

/-- A report over the files `paths`, its manifest and the documents `docs` agree. -/
structure Tallies (gs : Grammars) (access : Access) (d : Disk) (root : Text) (paths : List Text) (r : KnowledgeReport)
    (files : List Text) (docs : List (Text × Json)) : Prop where
  scanned : r.stats.scanned = paths.length
  balanced : r.stats.scanned = r.stats.extracted + r.stats.skipped + r.stats.errored
  errored : r.stats.errored = r.faults.length
  faults : r.faults = paths.filterMap (faultAt gs access d root)
  sorted : files.Pairwise Text.Before
  extracted : files.length = r.stats.extracted
  mem_files : ∀ f, f ∈ files ↔ ∃ p ∈ paths, (factsAt gs access d root p).isSome = true ∧ f = Path.relativeTo root p
  keys : ∀ name ∈ perFile, ∃ v, (name, v) ∈ docs ∧ v.memberNames = files
  symbols : ∃ v, (Text.ofString "fileSymbols.json", v) ∈ docs ∧ v.itemCount = r.stats.symbols
  imports : ∃ v, (Text.ofString "fileImports.json", v) ∈ docs ∧ v.itemCount = r.stats.imports
  calls : ∃ v, (Text.ofString "functionCalls.json", v) ∈ docs ∧ v.itemCount = r.stats.calls

/-- The documents are in a directory, wherever its path leads. -/
def Stored (d : Disk) (dir : Text) (docs : List (Text × Json)) : Prop :=
  ∀ ps, d.LeadsTo dir ps → ∀ doc ∈ docs, d.root.get? (ps ++ [doc.1]) = some (.file (Archive.documentText doc.2) 0o644)

/-- The tables of a base that was loaded, and its manifest, agree with a report over the files `files`. -/
structure Reloaded (k : KnowledgeBase) (m : Option Manifest) (r : KnowledgeReport) (files : List Text) : Prop where
  manifest : ∃ m', m = some m' ∧ m'.files = some files
  symbols : Table.keys k.symbols = files ∧ k.symbols.items = r.stats.symbols
  imports : Table.keys k.imports = files ∧ k.imports.items = r.stats.imports
  references : Table.keys k.references = files
  calls : Table.keys k.calls = files ∧ k.calls.items = r.stats.calls
  exports : Table.keys k.exports = files

/-- What is read back from a directory agrees with a report over the files `files`. Documents are read without the
stray bytes of their texts; if the names of the files have none, any base that is loaded has these names. -/
structure ReadBack (d : Disk) (dir : Text) (r : KnowledgeReport) (files : List Text) (k : KnowledgeBase)
    (m : Manifest) : Prop where
  manifest : Archive.document? d dir "manifest.json" = some m.scrubbed.toJson
  keys : ∀ name ∈ perFile, ∃ v, Archive.document? d dir name = some v ∧ v.memberNames = files.map Text.scrubbed
  symbols : ∃ v, Archive.document? d dir "fileSymbols.json" = some v ∧ v.itemCount = r.stats.symbols
  imports : ∃ v, Archive.document? d dir "fileImports.json" = some v ∧ v.itemCount = r.stats.imports
  calls : ∃ v, Archive.document? d dir "functionCalls.json" = some v ∧ v.itemCount = r.stats.calls
  loaded : (∀ f ∈ files, f.isUtf8 = true) → ∀ k' m', Archive.load d dir = .ok (k', m') → Reloaded k' m' r files
  storable : k.IsStorable → m.IsStorable → Archive.load d dir = .ok (k, some m)

theorem tallies_of_tallied {paths : List Text} (hpaths : (paths.map (Path.relativeTo root)).Nodup) {st : KnowledgeState}
    (h : Tallied gs access d root paths st) {r : KnowledgeReport} (hstats : r.stats = st.stats)
    (hfaults : r.faults = st.faults) (m : Manifest) :
    Tallies gs access d root paths r (Table.keys st.gathered)
    (Archive.documents (KnowledgeBase.ofGathered st.gathered) m) := by
  have hnodup := @nodup_path_factsOf gs access d root paths hpaths
  have hkeys := h.gathered ▸ Gathered.perm_keys_gathered hnodup
  have hsum : ∀ {α : Type} (item : α → Json) (part : FileFacts → List α),
      (Json.lists item (KnowledgeBase.collect part st.gathered)).itemCount =
      total part (factsOf gs access d root paths) := by
    intro α item part
    rw [Json.itemCount_collect, h.gathered]
    exact Gathered.sum_gathered hnodup fun f => (part f).length
  have hcounted := h.counted
  rw [← hstats, ← hfaults] at hcounted
  refine
    { scanned := hstats ▸ h.scanned
      balanced := hcounted.balanced
      errored := hcounted.errored
      faults := hfaults.trans h.faults
      sorted := ?_
      extracted := ?_
      mem_files := fun f => ?_
      keys := ?_
      symbols := ⟨_, .head _, (hsum _ _).trans hcounted.symbols.symm⟩
      imports := ⟨_, .tail _ (.head _), (hsum _ _).trans hcounted.imports.symm⟩
      calls := ⟨_, .tail _ (.tail _ (.tail _ (.head _))), (hsum _ _).trans hcounted.calls.symm⟩ }
  · rw [h.gathered]
    exact Table.pairwise_keys (KnowledgeBase.sorted_gathered _)
  · rw [hkeys.length_eq, List.length_map, hcounted.extracted]
  · rw [hkeys.mem_iff, List.mem_map]
    constructor
    · rintro ⟨facts, hfacts, rfl⟩
      obtain ⟨p, hp, hat⟩ := List.mem_filterMap.1 hfacts
      exact ⟨p, hp, by rw [hat]; rfl, path_of_factsAt hat⟩
    · rintro ⟨p, hp, hsome, rfl⟩
      obtain ⟨facts, hat⟩ := Option.isSome_iff_exists.1 hsome
      exact ⟨facts, List.mem_filterMap.2 ⟨p, hp, hat⟩, path_of_factsAt hat⟩
  · simp only [perFile, List.forall_mem_cons]
    refine ⟨⟨_, .head _, ?_⟩, ⟨_, .tail _ (.head _), ?_⟩, ⟨_, .tail _ (.tail _ (.head _)), ?_⟩,
      ⟨_, .tail _ (.tail _ (.tail _ (.head _))), ?_⟩, ⟨_, .tail _ (.tail _ (.tail _ (.tail _ (.head _)))), ?_⟩,
      List.forall_mem_nil _⟩
    all_goals exact Json.memberNames_collect _ _ _

/-- What was saved without a fault is stored. -/
theorem stored_of_save {d' : Disk} (hd : d.IsHere) {dir : Text} {k : KnowledgeBase} {m : Manifest}
    (h : Archive.save d dir k m = (d', none)) : Stored d' dir (Archive.documents k m) := by
  obtain ⟨d1, hmkdir, hwrite⟩ := Archive.save_eq_ok h
  have hd1 := (Disk.keepsDirs_mkdirAll hd hmkdir).isHere hd
  exact fun ps hps => Archive.get?_writeAll hd1 (Archive.isName_documents k m) (Archive.nodup_documents k m) hwrite hps

section Reading

variable {d' : Disk} {dir : Text} {k : KnowledgeBase} {m : Manifest} {paths files : List Text} {r : KnowledgeReport}

/-- What is stored is read without stray bytes. -/
theorem Stored.document? (h : Stored d' dir (Archive.documents k m)) (hd : d'.IsHere) {ps : List Text}
    (hps : d'.LeadsTo dir ps) :
    ∀ doc ∈ Archive.documents k m, Archive.document? d' dir doc.1 = some doc.2.scrubbed := fun doc hdoc =>
  Archive.document?_of_leadsTo hd hps (Archive.isName_documents k m doc hdoc)
    (Archive.hasNumbers_documents k m doc hdoc) (h ps hps doc hdoc)

/-- A base that is loaded from documents that agree with a report agrees with it. -/
theorem reloaded_of_load (hdocs : ∀ doc ∈ Archive.documents k m, Archive.document? d' dir doc.1 = some doc.2.scrubbed)
    (h : Tallies gs access d root paths r files (Archive.documents k m)) (hfiles : m.files = some files)
    (hutf8 : ∀ f ∈ files, f.isUtf8 = true) {k' : KnowledgeBase} {m' : Option Manifest}
    (hload : Archive.load d' dir = .ok (k', m')) :
    Reloaded k' m' r files := by
  have hscrubbed : files.map Text.scrubbed = files := by
    rw [List.map_congr_left fun f hf => Json.scrubbed_of_isUtf8 (hutf8 f hf), List.map_id']
  -- a table has the names of its document as keys, and these are the files, which are in order
  have hlists : ∀ {α : Type} {item : Json → Option α} {name : Text} {o : Option (Table (Listing α))}, name ∈ perFile →
      Archive.read? d' dir name (Archive.lists item) = .ok o → Table.keys (o.getD []) = files ∧
        ∀ v, (name, v) ∈ Archive.documents k m → (o.getD []).items = v.itemCount := by
    intro α item name o hname ho
    obtain ⟨v, hv, hnames⟩ := h.keys name hname
    have hkeys : v.scrubbed.memberNames = files := by rw [Json.memberNames_scrubbed, hnames, hscrubbed]
    have hread := Archive.lists_of_document? (hdocs _ hv) (hkeys.symm ▸ h.sorted) ho
    refine ⟨hread.1.trans hkeys, fun w hw => ?_⟩
    -- the same name is read as the same document
    have hsame : w.scrubbed = v.scrubbed := Option.some.inj ((hdocs _ hw).symm.trans (hdocs _ hv))
    rw [hread.2, ← hsame, Json.itemCount_scrubbed]
  have hmanifest := hdocs _ (Archive.manifest_mem_documents k m)
  rw [m.toJson_scrubbed] at hmanifest
  obtain ⟨calls, exports, entries, hsymbols, himports, hreferences, hcalls, hexports, -, hm, hcalls', hexports', -⟩ :=
    Archive.load_eq_ok.1 hload
  obtain ⟨symbolsDoc, hsymbolsDoc, hsymbolCount⟩ := h.symbols
  obtain ⟨importsDoc, himportsDoc, himportCount⟩ := h.imports
  obtain ⟨callsDoc, hcallsDoc, hcallCount⟩ := h.calls
  have hnames : m.scrubbed.files = some files := by rw [Manifest.scrubbed, hfiles, Option.map_some, hscrubbed]
  have hs := hlists (by decide) hsymbols
  have hi := hlists (by decide) himports
  have hc := hlists (by decide) hcalls
  exact
    { manifest := ⟨_, Archive.manifest_of_document? hmanifest hm, hnames⟩
      symbols := ⟨hs.1, (hs.2 _ hsymbolsDoc).trans hsymbolCount⟩
      imports := ⟨hi.1, (hi.2 _ himportsDoc).trans himportCount⟩
      references := (hlists (by decide) hreferences).1
      calls := hcalls' ▸ ⟨hc.1, (hc.2 _ hcallsDoc).trans hcallCount⟩
      exports := hexports' ▸ (hlists (by decide) hexports).1 }

/-- Documents that agree with a report are read back from the directory they are stored in. -/
theorem readBack_of_stored (hstored : Stored d' dir (Archive.documents k m)) (hd : d'.IsHere)
    (hdir : d'.isDir (Path.clean dir) = true) (hordered : k.Ordered)
    (h : Tallies gs access d root paths r files (Archive.documents k m)) (hfiles : m.files = some files) :
    ReadBack d' dir r files k m := by
  obtain ⟨ps, hps⟩ := Disk.isDir_clean_iff.1 hdir
  have hdocs := hstored.document? hd hps
  have hcount : ∀ {name : Text} {n : Nat}, (∃ v, (name, v) ∈ Archive.documents k m ∧ v.itemCount = n) →
      ∃ v, Archive.document? d' dir name = some v ∧ v.itemCount = n := by
    rintro name n ⟨v, hv, hcount⟩
    have hread := hdocs _ hv
    exact ⟨_, hread, (Json.itemCount_scrubbed v).trans hcount⟩
  refine
    { manifest := ?_
      keys := fun name hname => ?_
      symbols := hcount h.symbols
      imports := hcount h.imports
      calls := hcount h.calls
      loaded := fun hutf8 _ _ => reloaded_of_load hdocs h hfiles hutf8
      storable := fun hk hm => Archive.load_of_stored hd hordered hk hm hps (hstored ps hps) }
  · have hread := hdocs _ (Archive.manifest_mem_documents k m)
    exact m.toJson_scrubbed ▸ hread
  · obtain ⟨v, hv, hnames⟩ := h.keys name hname
    have hread := hdocs _ hv
    exact ⟨_, hread, by rw [Json.memberNames_scrubbed, hnames]⟩

end Reading

/-- A run that ends well reports and saves what it came to. -/
theorem tallies_of_finish (hd : d.IsHere) {paths : List Text} (hpaths : (paths.map (Path.relativeTo root)).Nodup)
    {st : KnowledgeState} (h : Tallied gs access d root paths st) {stamp : RunStamp} {dir : Text}
    (hfault : (finish stamp root dir d st).fault = none) :
    ∃ r m files k, (finish stamp root dir d st).report = some r ∧ r.manifest = some m ∧ m.files = some files ∧
      Tallies gs access d root paths r files (Archive.documents k m) ∧
        Stored (finish stamp root dir d st).disk dir (Archive.documents k m) ∧
          ((finish stamp root dir d st).disk.isDir (Path.clean dir) = true →
            ReadBack (finish stamp root dir d st).disk dir r files k m) := by
  unfold finish at hfault ⊢
  simp only at hfault ⊢
  split at hfault
  · cases hfault
  · rename_i d' hsave
    have hstored := stored_of_save hd hsave
    have hordered : (KnowledgeBase.ofGathered st.gathered).Ordered := h.gathered ▸ KnowledgeBase.ordered_ofFiles _
    have htallies := fun (r : KnowledgeReport) hstats hfaults =>
      @tallies_of_tallied gs access d root paths hpaths st h r hstats hfaults
        ⟨stamp.runId, stamp.generatedAt, root, some (Table.keys st.gathered)⟩
    simp only
    exact ⟨_, _, _, _, rfl, rfl, rfl, htallies _ rfl rfl, hstored, fun hdir =>
      readBack_of_stored hstored (Archive.isHere_of_save hd hsave) hdir hordered (htallies _ rfl rfl) rfl⟩

section Runs

variable (gs : Grammars) (access : Access) (s : KnowledgeSettings) (stamp : RunStamp) (d : Disk) (x : Extractor)
  (metrics : Metrics) (paths : List Text)

/-- The state of a run that has found its files. -/
def startOf : KnowledgeState :=
  ⟨x, metrics, [discoveredLog (Path.absolute d.cwd s.dir) paths.length], ⟨0, 0, 0, 0, 0, 0, 0⟩, [], []⟩

theorem tallied_startOf : Tallied gs access d root [] (startOf s d x metrics paths) :=
  ⟨rfl, rfl, ⟨rfl, rfl, rfl, rfl, rfl, rfl⟩, rfl⟩

variable {paths} {cancelAfter : Option Nat} (hroot : Path.absolute d.cwd s.dir = root)
  (hdiscover : Discovery.discover d root (rulesFor s.discovery root (s.outputDir root)) = .ok paths)

include hroot hdiscover

/-- A cancelled run reports on the files it came to. -/
theorem runBy_of_cancel (hcancel : (cancelAfter.any fun n => n < paths.length) = true) :
    ∃ done st, done <+: paths ∧ Tallied gs access d root done st ∧ runBy gs access s stamp cancelAfter d x metrics =
      ⟨some ⟨root, s.outputDir root, none, st.stats, st.faults⟩, some (.interrupted "knowledge run"), st.log,
        st.extractor, st.metrics, d⟩ := by
  obtain ⟨n, rfl, -⟩ := (Option.any_eq_true _ _).1 hcancel
  refine ⟨paths.take n, _, List.take_prefix _ _, (tallied_startOf gs access s d x metrics paths).foldl (paths.take n),
    ?_⟩
  simp only [runBy, hroot, hdiscover, hcancel, if_true, startOf]

/-- Any other run saves what all of them came to. -/
theorem runBy_of_end (hcancel : (cancelAfter.any fun n => n < paths.length) = false) :
    ∃ st, Tallied gs access d root paths st ∧
      runBy gs access s stamp cancelAfter d x metrics = finish stamp root (s.outputDir root) d st := by
  refine ⟨_, (tallied_startOf gs access s d x metrics paths).foldl paths, ?_⟩
  simp only [runBy, hroot, hdiscover, hcancel, Bool.false_eq_true, if_false, startOf]
  cases cancelAfter with
  | none => rfl
  | some n => simp only [List.take_of_length_le (Nat.le_of_not_lt (by simpa using hcancel))]

end Runs

/-- The account of a run, whatever files the system refuses to have read. If its root cannot be searched, or the run
is cancelled before all files are done, nothing is written. Otherwise, unless saving failed, the report, the manifest
and the documents agree: as they are written, as they stand in the output directory, and as they are read back from it,
if its path still leads to a directory. -/
theorem runBy_tallies (gs : Grammars) (access : Access) (s : KnowledgeSettings) (stamp : RunStamp)
    (cancelAfter : Option Nat) {d : Disk} (hd : d.Orderly) (x : Extractor) (metrics : Metrics) :
    let root := Path.absolute d.cwd s.dir
    let out := runBy gs access s stamp cancelAfter d x metrics
    match Discovery.discover d root (rulesFor s.discovery root (s.outputDir root)) with
    | .error _ => out.fault.isSome = true ∧ out.disk = d
    | .ok paths =>
      if cancelAfter.any fun n => n < paths.length then out.fault = some (.interrupted "knowledge run") ∧ out.disk = d
      else out.fault = none → ∃ r m files k, out.report = some r ∧ r.manifest = some m ∧ m.files = some files ∧
        Tallies gs access d root paths r files (Archive.documents k m) ∧
          Stored out.disk (s.outputDir root) (Archive.documents k m) ∧
            (out.disk.isDir (Path.clean (s.outputDir root)) = true →
              ReadBack out.disk (s.outputDir root) r files k m) := by
  obtain ⟨names, hnames, habsolute⟩ := Path.absolute_eq hd.cwd s.dir
  intro root out
  have hroot : Path.absolute d.cwd s.dir = root := rfl
  split
  · rename_i f hdiscover
    simp only [out, runBy, hroot, hdiscover]
    exact ⟨rfl, trivial⟩
  · rename_i paths hdiscover
    split
    · rename_i hcancel
      obtain ⟨done, st, -, -, hrun⟩ := runBy_of_cancel gs access s stamp d x metrics hroot hdiscover hcancel
      simp only [out, hrun]
      exact ⟨trivial, trivial⟩
    · rename_i hcancel
      have hnodup : (paths.map (Path.relativeTo root)).Nodup := by
        rw [show root = Path.rooted names from habsolute] at hdiscover ⊢
        exact Discovery.nodup_discover hd hnames hdiscover
      obtain ⟨st, hst, hrun⟩ := runBy_of_end gs access s stamp d x metrics hroot hdiscover (Bool.eq_false_iff.2 hcancel)
      simp only [out, hrun]
      exact tallies_of_finish hd.here hnodup hst

/-! ## A run over one file -/

/-- A disk with the empty source `/a.js`. -/
def emptySource : Disk := ⟨.dir [("a.js", .file [] 0o644)], "/"⟩

/-- A grammar that takes every source for an empty program. -/
def emptyProgram : Grammars := fun _ _ => some (.named "program" none 0 0 [])

/-- Every file of the working directory is searched. -/
def everySource : KnowledgeSettings := ⟨".", [], ⟨[], [], false⟩⟩

/-- No file may be read. -/
def unreadable : Access := ⟨fun _ => some (.plain "permission denied"), fun _ => .whole⟩

/-- What a run over the source comes to. -/
def emptySourceRun (access : Access) : Outcome :=
  runBy emptyProgram access everySource ⟨"7b", "2024-01-01T00:00:00Z"⟩ none emptySource (.fresh 1) Metrics.empty

theorem discover_emptySource :
    Discovery.discover emptySource "/" (rulesFor everySource.discovery "/" (everySource.outputDir "/")) =
    .ok ["/a.js"] := by
  have h : Discovery.discover emptySource "/" (rulesFor everySource.discovery "/" (everySource.outputDir "/")) =
      .ok (Text.sort ["/a.js"]) := by rfl
  rw [h, Text.sort, List.mergeSort_singleton]

theorem absolute_emptySource : Path.absolute emptySource.cwd everySource.dir = "/" :=
  show Path.absolute "/" "." = "/" by decide

theorem emptySourceRun_eq (access : Access) : emptySourceRun access =
    finish ⟨"7b", "2024-01-01T00:00:00Z"⟩ "/" "/.knowledge" emptySource
      (step emptyProgram access emptySource "/" (startOf everySource emptySource (.fresh 1) Metrics.empty ["/a.js"])
        "/a.js") := by
  unfold emptySourceRun runBy
  simp only [absolute_emptySource, discover_emptySource]
  rfl

/-- The run over the source saves a base that is loaded with an entry for it; if the source may not be read it has a
fault instead. -/
theorem emptySource_runBy_tallies : emptySource.Orderly ∧
    (∃ k m, Archive.load (emptySourceRun .full).disk "/.knowledge" = .ok (k, some m) ∧
      Text.ofString "a.js" ∈ Table.keys k.symbols ∧
      m.files = some (Table.keys k.symbols)) ∧
    ∃ r, (emptySourceRun unreadable).report = some r ∧ r.stats.scanned = 1 ∧ r.stats.errored = 1 := by
  have horderly : emptySource.Orderly := ⟨Entry.orderly_of_isPlain (by rfl), by rfl, ⟨_, rfl⟩⟩
  have hrun (access : Access) :=
    runBy_tallies emptyProgram access everySource ⟨"7b", "2024-01-01T00:00:00Z"⟩ none horderly (.fresh 1) Metrics.empty
  simp only [absolute_emptySource, discover_emptySource] at hrun
  refine ⟨horderly, ?_, ?_⟩
  · have hfault : (emptySourceRun .full).fault.isNone = true := by
      rw [emptySourceRun_eq]
      decide +kernel
    have hdir : (emptySourceRun .full).disk.isDir (Path.clean "/.knowledge") = true := by
      rw [emptySourceRun_eq]
      decide +kernel
    have hloads : (Archive.load (emptySourceRun .full).disk "/.knowledge").toOption.isSome = true := by
      rw [emptySourceRun_eq]
      decide +kernel
    obtain ⟨r, _, files, _, -, -, -, htallies, -, hback⟩ := hrun .full (Option.isNone_iff_eq_none.1 hfault)
    have hmem : Text.ofString "a.js" ∈ files :=
      (htallies.mem_files _).2 ⟨"/a.js", List.mem_singleton_self _, by decide +kernel, by decide +kernel⟩
    have hutf8 : ∀ f ∈ files, f.isUtf8 = true := by
      intro f hf
      obtain ⟨p, hp, -, rfl⟩ := (htallies.mem_files f).1 hf
      obtain rfl := List.mem_singleton.1 hp
      decide +kernel
    cases hload : Archive.load (emptySourceRun .full).disk "/.knowledge" with
    | error f =>
      rw [hload] at hloads
      cases hloads
    | ok x =>
      obtain ⟨k, m'⟩ := x
      obtain ⟨⟨m, rfl, hm⟩, ⟨rfl, -⟩, -, -, -, -⟩ := (hback hdir).loaded hutf8 k m' hload
      exact ⟨k, m, rfl, hmem, hm⟩
  · have hfault : (emptySourceRun unreadable).fault.isNone = true := by
      rw [emptySourceRun_eq]
      decide +kernel
    obtain ⟨r, _, files, _, hreport, -, -, htallies, -, -⟩ := hrun unreadable (Option.isNone_iff_eq_none.1 hfault)
    have hone : ([Text.ofString "/a.js"].filterMap (faultAt emptyProgram unreadable emptySource "/")).length = 1 := by
      decide +kernel
    exact ⟨r, hreport, htallies.scanned, by rw [htallies.errored, htallies.faults, hone]⟩

end KnowledgeRun

end DocAtlas

/-
Loading undoes saving. A base built from facts that can be stored is loaded as it was, with its manifest, from
any disk it was saved on, if the path of its directory still leads to a directory after the save
(`load_save_iff`). The path can only be lost to the save itself: a document replaces a link of its name, and
the way to the directory may go through that link.
-/
import DocAtlas.Proofs.Files.Replacing
import DocAtlas.Proofs.Knowledge.Documents

namespace DocAtlas.Archive

variable {d d' : Disk} {dir : Text}

/-! ## Writing -/

theorem write_eq_ok {name : Text} {v : Json} (h : write d dir name v = .ok d') :
    d.replaceFile (Path.join [dir, name]) (Path.join [dir, besides name]) (documentText v) 0o644 = .ok d' := by
  unfold write at h
  split at h
  · rename_i hreplace
    cases h
    exact hreplace
  · cases h

/-- What is written one after the other renews the disk. -/
theorem isRenewed_writeAll {docs : List (Text × Json)} (hd : d.IsHere) (hnames : ∀ doc ∈ docs, Path.IsName doc.1)
    (h : writeAll d dir docs = (d', none)) : d.IsRenewed d' := by
  induction docs generalizing d with
  | nil =>
    cases h
    exact .refl _
  | cons doc docs ih =>
    obtain ⟨name, v⟩ := doc
    obtain ⟨hname, hnames⟩ := List.forall_mem_cons.1 hnames
    rw [writeAll] at h
    split at h
    · rename_i hwrite
      have hstep := Disk.isRenewed_replaceFile hd hname (write_eq_ok hwrite)
      exact hstep.trans (ih (hstep.isHere hd) hnames h)
    · cases h

/-- What is written under other names leaves a file as it is. -/
theorem get?_writeAll_of_not_mem {docs : List (Text × Json)} (hd : d.IsHere) (hnames : ∀ doc ∈ docs, Path.IsName doc.1)
    (h : writeAll d dir docs = (d', none)) {ps : List Text} (hps : d'.LeadsTo dir ps) {name : Text}
    (hname : ∀ doc ∈ docs, name ≠ doc.1) {content : Text} {mode : Nat}
    (hfile : d.root.get? (ps ++ [name]) = some (.file content mode)) :
    d'.root.get? (ps ++ [name]) = some (.file content mode) := by
  induction docs generalizing d with
  | nil =>
    cases h
    exact hfile
  | cons doc docs ih =>
    obtain ⟨other, v⟩ := doc
    obtain ⟨hother, hnames⟩ := List.forall_mem_cons.1 hnames
    obtain ⟨hne, hname⟩ := List.forall_mem_cons.1 hname
    rw [writeAll] at h
    split at h
    · rename_i hwrite
      have hstep := Disk.isRenewed_replaceFile hd hother (write_eq_ok hwrite)
      have hd1 := hstep.isHere hd
      have hps1 := hps.before (isRenewed_writeAll hd1 hnames h) hd1
      exact ih hd1 hnames h hname (Disk.get?_replaceFile_of_ne hd hother (write_eq_ok hwrite) hps1 hne hfile)
    · cases h

/-- Every document that was written stands in the directory, if the path still leads to one. -/
theorem get?_writeAll {docs : List (Text × Json)} (hd : d.IsHere) (hnames : ∀ doc ∈ docs, Path.IsName doc.1)
    (hdistinct : (docs.map Prod.fst).Nodup) (h : writeAll d dir docs = (d', none)) {ps : List Text}
    (hps : d'.LeadsTo dir ps) :
    ∀ doc ∈ docs, d'.root.get? (ps ++ [doc.1]) = some (.file (documentText doc.2) 0o644) := by
  induction docs generalizing d with
  | nil => exact List.forall_mem_nil _
  | cons doc docs ih =>
    obtain ⟨name, v⟩ := doc
    obtain ⟨hname, hnames⟩ := List.forall_mem_cons.1 hnames
    obtain ⟨hfresh, hdistinct⟩ := List.nodup_cons.1 hdistinct
    rw [writeAll] at h
    split at h
    · rename_i hwrite
      have hstep := Disk.isRenewed_replaceFile hd hname (write_eq_ok hwrite)
      have hd1 := hstep.isHere hd
      have hps1 := hps.before (isRenewed_writeAll hd1 hnames h) hd1
      have hfirst := Disk.get?_replaceFile hd hname (write_eq_ok hwrite) hps1
      have hother : ∀ doc ∈ docs, name ≠ doc.1 := by
        rintro doc hdoc rfl
        exact hfresh (show doc.1 ∈ docs.map Prod.fst from List.mem_map_of_mem hdoc)
      exact List.forall_mem_cons.2 ⟨get?_writeAll_of_not_mem hd1 hnames h hps hother hfirst, ih hd1 hnames hdistinct h⟩
    · cases h

/-! ## Reading -/

theorem read?_of_isKept {α : Type} (hd : d.IsHere) {ps : List Text} (hps : d.LeadsTo dir ps) {name : Text}
    (hname : Path.IsName name) {v : Json} {decode : Json → Except Fault α} {x : α} (hkept : IsKept v decode x)
    {mode : Nat} (hfile : d.root.get? (ps ++ [name]) = some (.file (documentText v) mode)) :
      read? d dir name decode = .ok (some x) := by
  have hparse : Json.parse? (documentText v) = some v := Json.parse?_pretty hkept.writable
  unfold read?
  rw [Disk.readFile_of_leadsTo hd hname hps hfile]
  simp only [hparse, hkept.decoded]

/-- What is loaded is loaded from a directory. -/
theorem isDir_of_load (hd : d.IsHere) {x : KnowledgeBase × Option Manifest} (h : load d dir = .ok x) :
    d.isDir (Path.clean dir) = true := by
  obtain ⟨-, -, -, hsymbols, -⟩ := load_eq_ok.1 h
  rw [Disk.isDir_clean_iff]
  unfold read? at hsymbols
  split at hsymbols
  · split at hsymbols <;> cases hsymbols
  · rename_i hread
    exact Disk.exists_leadsTo_of_readFile hd (by decide) hread

/-! ## Saving and loading -/

theorem names_documents (k : KnowledgeBase) (m : Manifest) : (documents k m).map Prod.fst =
    [Text.ofString "fileSymbols.json", "fileImports.json", "symbolReferences.json", "functionCalls.json",
      "fileExports.json", "symbolIndex.json", "manifest.json"] := rfl

theorem isName_documents (k : KnowledgeBase) (m : Manifest) : ∀ doc ∈ documents k m, Path.IsName doc.1 := by
  have hnames : ∀ name ∈ (documents k m).map Prod.fst, Path.IsName name := by
    rw [names_documents]
    decide
  exact List.forall_mem_map.1 hnames

theorem nodup_documents (k : KnowledgeBase) (m : Manifest) : ((documents k m).map Prod.fst).Nodup := by
  rw [names_documents]
  decide

theorem manifest_mem_documents (k : KnowledgeBase) (m : Manifest) :
    (Text.ofString "manifest.json", m.toJson) ∈ documents k m := List.mem_of_getLast? rfl

/-- A save that succeeds makes a directory and writes every document. -/
theorem save_eq_ok {k : KnowledgeBase} {m : Manifest} (h : save d dir k m = (d', none)) :
    ∃ d1, d.mkdirAll dir = .ok d1 ∧ writeAll d1 dir (documents k m) = (d', none) := by
  unfold save at h
  split at h
  · cases h
  · rename_i d1 hmkdir
    exact ⟨d1, hmkdir, h⟩

/-- After a save the working directory is still there. -/
theorem isHere_of_save (hd : d.IsHere) {k : KnowledgeBase} {m : Manifest} (h : save d dir k m = (d', none)) :
    d'.IsHere := by
  obtain ⟨d1, hmkdir, hwrite⟩ := save_eq_ok h
  have hd1 := (Disk.keepsDirs_mkdirAll hd hmkdir).isHere hd
  exact (isRenewed_writeAll hd1 (isName_documents k m) hwrite).isHere hd1

/-- A base that can be stored is loaded from the documents that stand for it in a directory. -/
theorem load_of_stored (hd : d.IsHere) {k : KnowledgeBase} (hordered : k.Ordered) (hk : k.IsStorable) {m : Manifest}
    (hm : m.IsStorable) {ps : List Text} (hps : d.LeadsTo dir ps)
    (hfiles : ∀ doc ∈ documents k m, d.root.get? (ps ++ [doc.1]) = some (.file (documentText doc.2) 0o644)) :
    load d dir = .ok (k, some m) := by
  have hread : ∀ {α : Type} {name : Text} {v : Json} {decode : Json → Except Fault α} {x : α},
      (name, v) ∈ documents k m → IsKept v decode x → read? d dir name decode = .ok (some x) := fun hmem hkept =>
    read?_of_isKept hd hps (isName_documents k m _ hmem) hkept (hfiles _ hmem)
  refine load_eq_ok.2 ⟨some k.calls, some k.exports, some k.index, ?_, ?_, ?_, ?_, ?_, ?_, ?_, rfl, rfl, rfl⟩
  · exact hread (.head _) (isKept_lists hordered.symbols hk.symbols fun _ h => h.isStored)
  · exact hread (.tail _ (.head _)) (isKept_lists hordered.imports hk.imports fun _ h => h.isStored)
  · exact hread (.tail _ (.tail _ (.head _))) (isKept_lists hordered.references hk.references fun _ h => h.isStored)
  · exact hread (.tail _ (.tail _ (.tail _ (.head _)))) (isKept_lists hordered.calls hk.calls fun _ h => h.isStored)
  · exact hread (.tail _ (.tail _ (.tail _ (.tail _ (.head _)))))
      (isKept_lists hordered.exports hk.exports fun _ h => h.isStored)
  · exact hread (.tail _ (.tail _ (.tail _ (.tail _ (.tail _ (.head _)))))) (isKept_index hordered.index hk.index)
  · exact hread (manifest_mem_documents k m) (isKept_manifest hm)

/-- A base that can be stored is loaded from the documents that were written for it. -/
theorem load_of_writeAll (hd : d.IsHere) {k : KnowledgeBase} (hordered : k.Ordered) (hk : k.IsStorable) {m : Manifest}
    (hm : m.IsStorable) (h : writeAll d dir (documents k m) = (d', none)) (hdir : d'.isDir (Path.clean dir) = true) :
    load d' dir = .ok (k, some m) := by
  obtain ⟨ps, hps⟩ := Disk.isDir_clean_iff.1 hdir
  have hnames := isName_documents k m
  exact load_of_stored ((isRenewed_writeAll hd hnames h).isHere hd) hordered hk hm hps
    (get?_writeAll hd hnames (nodup_documents k m) h hps)

/-- The path of the directory is not lost if the save replaced no link. -/
theorem isDir_of_save (hd : d.IsHere) {k : KnowledgeBase} {m : Manifest} (h : save d dir k m = (d', none))
    (hlinks : ∀ ps target, d.root.get? ps = some (.link target) → d'.root.get? ps = some (.link target)) :
    d'.isDir (Path.clean dir) = true := by
  obtain ⟨d1, hmkdir, hwrite⟩ := save_eq_ok h
  have hmade := Disk.keepsDirs_mkdirAll hd hmkdir
  have hd1 := hmade.isHere hd
  have hrenewed := isRenewed_writeAll hd1 (isName_documents _ _) hwrite
  -- the first document was written in the directory
  obtain ⟨d2, hfirst⟩ : ∃ d2, write d1 dir "fileSymbols.json" k.symbolsJson = .ok d2 := by
    unfold documents at hwrite
    rw [writeAll] at hwrite
    split at hwrite
    · rename_i d2 hfirst
      exact ⟨d2, hfirst⟩
    · cases hwrite
  obtain ⟨ps, es, hps, -⟩ := Disk.replaceFile_eq_ok hd1 (by decide) (write_eq_ok hfirst)
  exact Disk.isDir_clean_iff.2
    ⟨ps, hps.after hrenewed.toKeepsDirs (fun qs target hqs => hlinks qs target (hmade.links qs target hqs)) hd1⟩

/-- A base that was built and saved is loaded exactly if the path of its directory still leads to a directory, and
then it is the base as it was, with its manifest. A save that replaced no link did not lose the path. -/
theorem load_save (hd : d.IsHere) {fs : List FileFacts} (hfs : ∀ f ∈ fs, f.IsStorable) {m : Manifest}
    (hm : m.IsStorable) (h : save d dir (KnowledgeBase.ofFiles fs) m = (d', none)) :
    (∀ x, load d' dir = .ok x ↔ d'.isDir (Path.clean dir) = true ∧ x = (KnowledgeBase.ofFiles fs, some m)) ∧
      ((∀ ps target, d.root.get? ps = some (.link target) → d'.root.get? ps = some (.link target)) →
        load d' dir = .ok (KnowledgeBase.ofFiles fs, some m)) := by
  obtain ⟨d1, hmkdir, hwrite⟩ := save_eq_ok h
  have hd1 := (Disk.keepsDirs_mkdirAll hd hmkdir).isHere hd
  have hd' := isHere_of_save hd h
  have hload := load_of_writeAll hd1 (KnowledgeBase.ordered_ofFiles fs) (KnowledgeBase.isStorable_ofFiles hfs) hm hwrite
  refine ⟨fun x => ⟨fun hx => ?_, ?_⟩, fun hlinks => hload (isDir_of_save hd h hlinks)⟩
  · have hdir := isDir_of_load hd' hx
    exact ⟨hdir, Except.ok.inj (hx.symm.trans (hload hdir))⟩
  · rintro ⟨hdir, rfl⟩
    exact hload hdir

/-- The facts of a file with a class, an import and a call. -/
def oneClass : FileFacts where
  path := "src/é.js"
  language := "javascript"
  symbols := [⟨"class", "A", 2, 4, true, [], [], false, false, "B<\"T\">", ["m"], []⟩]
  imports := [⟨"./b", some [⟨"named", "B", "B"⟩], 1, 1⟩]
  exports := [⟨"A", "A", false, [], 2⟩]
  calls := [⟨"f", none, "m", 3, 3⟩]

/-- An instant of a manifest. -/
def newYear : Instant.Parts := ⟨2024, 1, 1, 0, 0, 0, "25", some (true, 5, 30)⟩

/-- The manifest of a run over the one file. -/
def oneManifest : Manifest := ⟨"7b", "2024-01-01T00:00:00.25+05:30", "/src", some ["src/é.js"]⟩

theorem isStorable_oneClass : oneClass.IsStorable where
  path := by decide
  symbols := by
    refine List.forall_mem_singleton.2 ⟨?_, ?_, ?_, ?_, ?_, ?_, ?_, ?_, ?_⟩ <;> decide
  imports := by
    refine List.forall_mem_singleton.2 ⟨?_, List.forall_mem_singleton.2 ⟨?_, ?_, ?_⟩, ?_, ?_⟩ <;> decide
  exports := by
    refine List.forall_mem_singleton.2 ⟨?_, ?_, ?_, ?_⟩ <;> decide
  calls := by
    refine List.forall_mem_singleton.2 ⟨?_, ?_, ?_, ?_, ?_⟩ <;> decide

theorem isStorable_oneManifest : oneManifest.IsStorable where
  runId := by decide
  generatedAt := by
    refine ⟨newYear, ⟨?_, ?_, ?_, ?_, ?_, ?_, ?_, ?_⟩, ?_⟩ <;> decide
  root := by decide
  files := by decide

/-- A disk with one link, to the directory it is in. -/
def linkToHere (name : Text) : Disk := ⟨.dir [(name, .link ".")], "/"⟩

/-- A base that is saved in a new directory below a link. -/
theorem oneClass_loaded :
    ∃ d', save (linkToHere "here") "here/kb" (KnowledgeBase.ofFiles [oneClass]) oneManifest = (d', none) ∧
    load d' "here/kb" = .ok (KnowledgeBase.ofFiles [oneClass], some oneManifest) := by
  have hsave : (save (linkToHere "here") "here/kb" (KnowledgeBase.ofFiles [oneClass]) oneManifest).2 = none :=
    Option.isNone_iff_eq_none.1 (by decide)
  refine ⟨_, Prod.ext rfl hsave, ?_⟩
  exact ((load_save ⟨_, rfl⟩ (List.forall_mem_singleton.2 isStorable_oneClass) isStorable_oneManifest
    (Prod.ext rfl hsave)).1 _).2
    ⟨by decide, rfl⟩

/-- The way to the directory is a link that the manifest takes the place of. -/
theorem manifestLink_not_loaded : ¬ ∀ (d d' : Disk) (dir : Text) (fs : List FileFacts) (m : Manifest), d.IsHere →
    (∀ f ∈ fs, f.IsStorable) → m.IsStorable → save d dir (KnowledgeBase.ofFiles fs) m = (d', none) →
      load d' dir = .ok (KnowledgeBase.ofFiles fs, some m) := by
  intro h
  have hsave : (save (linkToHere "manifest.json") "/manifest.json" (KnowledgeBase.ofFiles []) oneManifest).2 = none :=
    Option.isNone_iff_eq_none.1 (by decide)
  have hload := h _ _ _ [] _ ⟨_, rfl⟩ (List.forall_mem_nil _) isStorable_oneManifest (Prod.ext rfl hsave)
  have hfails : (load (save (linkToHere "manifest.json") "/manifest.json" (KnowledgeBase.ofFiles []) oneManifest).1
    "/manifest.json").toOption.isNone = true := by decide
  rw [hload] at hfails
  cases hfails

end DocAtlas.Archive

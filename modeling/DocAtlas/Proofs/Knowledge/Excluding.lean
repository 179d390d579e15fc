/-
A knowledge run and the directory it saves in. The run excludes the directory by a glob, its way from the
root with `/**` after it. If the way is made of literal characters this is exact: of what its settings
select the run processes all and only what is not in the directory. Other characters keep their meaning
in the glob, so a run into `kb[` finds its glob malformed, and one into `kb[1]` leaves `kb1` out instead.
-/
import DocAtlas.Proofs.Files.Literal
import DocAtlas.Proofs.Knowledge.Tallies
import DocAtlas.Proofs.Knowledge.Watching

namespace DocAtlas

namespace Manifest

/-- The files listed. -/
def listed (m : Manifest) : List Text := m.files.getD []

end Manifest

namespace KnowledgeReport

/-- The files a run has processed: those in its manifest and those with a fault. -/
def processed (r : KnowledgeReport) : List Text :=
  (r.manifest.map Manifest.listed).getD [] ++ r.faults.map FileFault.path

end KnowledgeReport

namespace KnowledgeRun

variable {gs : Grammars} {access : Access} {d : Disk} {root : Text} {s : KnowledgeSettings} {paths : List Text}

/-! ## What is processed -/

theorem path_of_faultAt {path : Text} {f : FileFault} (h : faultAt gs access d root path = some f) :
    f.path = Path.relativeTo root path := by
  unfold faultAt outcomeAt at h
  split at h
  · cases h
  · rw [Option.bind_some] at h
    split at h
    · rename_i hfile
      cases h
      unfold extractFile at hfile
      split at hfile
      · cases hfile
        rfl
      · split at hfile
        · cases hfile
        · cases hfile
          rfl
    · cases h

theorem exists_of_mem_faults {done : List Text} {rel : Text}
    (h : rel ∈ (done.filterMap (faultAt gs access d root)).map FileFault.path) :
      ∃ p ∈ done, rel = Path.relativeTo root p := by
  obtain ⟨f, hf, rfl⟩ := List.mem_map.1 h
  obtain ⟨p, hp, hfault⟩ := List.mem_filterMap.1 hf
  exact ⟨p, hp, path_of_faultAt hfault⟩

/-- A file of a known language has facts or a fault. -/
theorem facts_or_fault {path : Text} (h : Grammar.supports path = true) :
    (factsAt gs access d root path).isSome = true ∨ ∃ f, faultAt gs access d root path = some f := by
  obtain ⟨g, hg⟩ := Option.isSome_iff_exists.1 h
  unfold factsAt faultAt outcomeAt
  rw [hg]
  simp only [Option.isNone_some, Bool.false_eq_true, if_false, Option.bind_some]
  cases (extractFile gs access d (.fresh 0) path (Path.relativeTo root path)).1 with
  | error f => exact .inr ⟨f, rfl⟩
  | ok f => exact .inl rfl

theorem fault_of_report {stamp : RunStamp} {out : Text} {st : KnowledgeState} {r : KnowledgeReport}
    (h : (finish stamp root out d st).report = some r) : (finish stamp root out d st).fault = none := by
  unfold finish at h ⊢
  simp only at h ⊢
  split at h
  · cases h
  · rfl

/-- A report over the files `paths` is about no others, and one with a manifest is about all of a known language. -/
structure Covers (root : Text) (paths : List Text) (r : KnowledgeReport) : Prop where
  sound : ∀ rel ∈ r.processed, ∃ p ∈ paths, rel = Path.relativeTo root p
  scanned : r.manifest.isSome = true → r.stats.scanned = paths.length
  complete : r.manifest.isSome = true → ∀ p ∈ paths, Grammar.supports p = true → Path.relativeTo root p ∈ r.processed

theorem covers_of_tallies {r : KnowledgeReport} {m : Manifest} {files : List Text} {docs : List (Text × Json)}
    (hmanifest : r.manifest = some m) (hfiles : m.files = some files)
    (h : Tallies gs access d root paths r files docs) :
    Covers root paths r := by
  have hprocessed : r.processed = files ++ (paths.filterMap (faultAt gs access d root)).map FileFault.path := by
    unfold KnowledgeReport.processed Manifest.listed
    rw [hmanifest, h.faults]
    simp [hfiles]
  refine ⟨?_, fun _ => h.scanned, ?_⟩
  · intro rel hrel
    rw [hprocessed] at hrel
    rcases List.mem_append.1 hrel with hrel | hrel
    · obtain ⟨p, hp, -, rfl⟩ := (h.mem_files rel).1 hrel
      exact ⟨p, hp, rfl⟩
    · exact exists_of_mem_faults hrel
  · intro _ p hp hsupported
    rw [hprocessed, List.mem_append]
    rcases @facts_or_fault gs access d root p hsupported with hfacts | ⟨f, hf⟩
    · exact .inl ((h.mem_files _).2 ⟨p, hp, hfacts, rfl⟩)
    · exact .inr (List.mem_map.2 ⟨f, List.mem_filterMap.2 ⟨p, hp, hf⟩, path_of_faultAt hf⟩)

/-- Whether it is cancelled or not, a run covers what its search finds. -/
theorem covers_of_runBy {stamp : RunStamp} {cancelAfter : Option Nat} {x : Extractor} {metrics : Metrics}
    (hd : d.IsHere) (hroot : Path.absolute d.cwd s.dir = root)
    (hdiscover : Discovery.discover d root (rulesFor s.discovery root (s.outputDir root)) = .ok paths)
    (hnodup : (paths.map (Path.relativeTo root)).Nodup) {r : KnowledgeReport}
    (hreport : (runBy gs access s stamp cancelAfter d x metrics).report = some r) : Covers root paths r := by
  cases hcancel : cancelAfter.any fun n => n < paths.length with
  | true =>
    obtain ⟨done, st, hdone, hst, hrun⟩ := runBy_of_cancel gs access s stamp d x metrics hroot hdiscover hcancel
    rw [hrun] at hreport
    cases hreport
    refine ⟨fun rel hrel => ?_, fun h => absurd h Bool.false_ne_true, fun h => absurd h Bool.false_ne_true⟩
    obtain ⟨p, hp, rfl⟩ := exists_of_mem_faults (hst.faults ▸ hrel)
    exact ⟨p, hdone.subset hp, rfl⟩
  | false =>
    obtain ⟨st, hst, hrun⟩ := runBy_of_end gs access s stamp d x metrics hroot hdiscover hcancel
    rw [hrun] at hreport
    obtain ⟨r', m, files, k, hreport', hmanifest, hfiles, htallies, -⟩ :=
      tallies_of_finish hd hnodup hst (fault_of_report hreport)
    obtain rfl : r = r' := Option.some.inj (hreport.symm.trans hreport')
    exact covers_of_tallies hmanifest hfiles htallies

/-! ## The output directory -/

/-- The way to an output directory below the root is what the rules of the run exclude. -/
theorem rulesFor_eq {names : List Text} (hnames : ∀ n ∈ names, Path.IsName n) {os : List Text} (hne : os ≠ [])
    (hout : Path.cleaned (s.outputDir (Path.rooted names)) = names ++ os) (r : DiscoveryRules) :
    rulesFor r (Path.rooted names) (s.outputDir (Path.rooted names)) =
      { r with excludes := r.excludes ++ [Text.joinWith [Path.slash] os ++ Text.ofString "/**"] } := by
  have habsolute := KnowledgeSettings.isAbsolute_outputDir s names
  have hall : ∀ n ∈ names ++ os, Path.IsName n := hout ▸ Path.isName_cleaned habsolute
  have hos : ∀ o ∈ os, Path.IsName o := fun o ho => hall o (List.mem_append_right _ ho)
  -- only the names of a path count for the way to it
  have hsame : inside? (Path.rooted names) (s.outputDir (Path.rooted names)) =
      inside? (Path.rooted names) (Path.rooted (names ++ os)) := by
    unfold inside? Path.relative?
    rw [habsolute, hout, Path.isAbsolute_rooted (names ++ os), Path.cleaned_rooted hall]
  unfold rulesFor
  rw [hsame, inside?_rooted hnames hos hne]

/-- A run whose output directory is below its root, under a literal name, can search the root whenever its settings
can. It finds what they select without what is in the directory, and processes all and only that. -/
theorem run_leaves_output (gs : Grammars) (s : KnowledgeSettings) (stamp : RunStamp)
    (cancelAfter : Option Nat) {d : Disk} (hd : d.Orderly) (x : Extractor) (metrics : Metrics) {os : List Text}
    (hvalid : s.discovery.invalid? = none) (hdir : d.isDir (Path.absolute d.cwd s.dir) = true)
    (hout : Path.cleaned (s.outputDir (Path.absolute d.cwd s.dir)) = Path.cleaned (Path.absolute d.cwd s.dir) ++ os)
    (hne : os ≠ []) (hlit : Glob.IsLiteral (Text.joinWith [Path.slash] os)) :
    let root := Path.absolute d.cwd s.dir
    let out := s.outputDir root
    ∃ paths, Discovery.discover d root s.discovery = .ok paths ∧
      Discovery.discover d root (rulesFor s.discovery root out) = .ok (paths.filter fun p => ¬Path.IsWithin out p) ∧
      ∀ r, (run gs s stamp cancelAfter d x metrics).report = some r →
        (∀ rel ∈ r.processed, Path.join [root, rel] ∈ paths ∧ ¬Path.IsWithin out (Path.join [root, rel])) ∧
        (r.manifest.isSome = true → r.stats.scanned = (paths.filter fun p => ¬Path.IsWithin out p).length ∧
          ∀ p ∈ paths, ¬Path.IsWithin out p → Grammar.supports p = true → Path.relativeTo root p ∈ r.processed) := by
  obtain ⟨names, hnames, habsolute⟩ := Path.absolute_eq hd.cwd s.dir
  intro root out
  have hroot : Path.absolute d.cwd s.dir = root := rfl
  have hrooted : root = Path.rooted names := habsolute
  rw [hroot, hrooted] at hdir hout
  rw [Path.cleaned_rooted hnames] at hout
  have hall : ∀ n ∈ names ++ os, Path.IsName n :=
    hout ▸ Path.isName_cleaned (KnowledgeSettings.isAbsolute_outputDir s names)
  have hos : ∀ o ∈ os, Path.IsName o := fun o ho => hall o (List.mem_append_right _ ho)
  have hwithin : ∀ p, Path.IsWithin (Path.rooted (names ++ os)) p ↔ Path.IsWithin out p := by
    intro p
    unfold Path.IsWithin
    rw [Path.cleaned_rooted hall, ← hout, ← hrooted]
  have hplain := Discovery.discover_eq_ok.2 ⟨hvalid, hdir, rfl⟩
  have hfound := Discovery.discover_concat hd hnames hos hne hlit hplain
  rw [← rulesFor_eq hnames hne hout] at hfound
  simp only [hwithin, ← hrooted] at hfound
  refine ⟨Discovery.listed d root s.discovery, hrooted ▸ hplain, hfound, fun r hr => ?_⟩
  have hnodup := Discovery.nodup_discover hd hnames (hrooted ▸ hfound)
  have hcovers := covers_of_runBy hd.here hroot hfound (hrooted ▸ hnodup) hr
  refine ⟨fun rel hrel => ?_, fun hmanifest => ⟨hcovers.scanned hmanifest, fun p hp hpout hsupported => ?_⟩⟩
  · obtain ⟨p, hp, rfl⟩ := hcovers.sound rel hrel
    have hback : Path.join [root, Path.relativeTo root p] = p := by
      rw [hrooted] at hp hfound ⊢
      exact Discovery.join_relativeTo hd hnames hfound hp
    rw [hback]
    simpa using hp
  · exact hcovers.complete hmanifest p (List.mem_filter.2 ⟨hp, by simpa using hpout⟩) hsupported

/-! ## Output directories with sources -/

/-- A disk with the sources `/a.js` and `b.js` in a directory. -/
def twoFiles (dir : Text) : Disk := ⟨.dir [("a.js", .file [] 0o644), (dir, .dir [("b.js", .file [] 0o644)])], "/"⟩

/-- Every file counts, and the base is saved in a directory. -/
def savedIn (output : Text) : KnowledgeSettings := ⟨".", output, ⟨[], [], false⟩⟩

theorem absolute_twoFiles (dir output : Text) : Path.absolute (twoFiles dir).cwd (savedIn output).dir = "/" :=
  show Path.absolute "/" "." = "/" by decide

/-- A run into `kb` processes `a.js` and not what is in `kb`. -/
theorem output_left : (twoFiles "kb").Orderly ∧ Glob.IsLiteral "kb" ∧
    ∀ r, (run emptyProgram (savedIn "kb")
      ⟨"7b", "2024-01-01T00:00:00Z"⟩ none (twoFiles "kb") (.fresh 1) Metrics.empty).report =
        some r →
      (∀ rel ∈ r.processed, ¬Path.IsWithin "/kb" (Path.join ["/", rel])) ∧
        (r.manifest.isSome = true → Text.ofString "a.js" ∈ r.processed) := by
  have horderly : (twoFiles "kb").Orderly := ⟨Entry.orderly_of_isPlain (by rfl), by rfl, ⟨_, rfl⟩⟩
  have hlit : Glob.IsLiteral "kb" := by decide
  have hne : [Text.ofString "kb"] ≠ [] := List.cons_ne_nil _ _
  have hrun := run_leaves_output emptyProgram (savedIn "kb") ⟨"7b", "2024-01-01T00:00:00Z"⟩ none horderly (.fresh 1)
    Metrics.empty (by decide) (by rfl) (by decide +kernel) hne hlit
  simp only [absolute_twoFiles] at hrun
  obtain ⟨paths, hpaths, -, hreport⟩ := hrun
  refine ⟨horderly, hlit, fun r hr => ?_⟩
  obtain ⟨hsound, hcomplete⟩ := hreport r hr
  refine ⟨fun rel hrel => (hsound rel hrel).2, fun hmanifest => ?_⟩
  have hfound : Discovery.discover (twoFiles "kb") "/" (savedIn "kb").discovery =
    .ok (Text.sort ["/a.js", "/kb/b.js"]) := by rfl
  rw [hfound] at hpaths
  cases hpaths
  exact (hcomplete hmanifest).2 "/a.js" (List.mem_mergeSort.2 (List.mem_cons_self ..)) (by decide) (by decide)

/-- With a bracket in the name of the output directory the search may fail, and if it does not it may find what is
in the directory. -/
theorem bracketOutput_not_left :
    (¬ ∀ (d : Disk) (s : KnowledgeSettings) (os : List Text), d.Orderly → s.discovery.invalid? = none →
      d.isDir (Path.absolute d.cwd s.dir) = true →
      Path.cleaned (s.outputDir (Path.absolute d.cwd s.dir)) = Path.cleaned (Path.absolute d.cwd s.dir) ++ os →
      os ≠ [] →
      ∃ paths, Discovery.discover d (Path.absolute d.cwd s.dir)
        (rulesFor s.discovery (Path.absolute d.cwd s.dir) (s.outputDir (Path.absolute d.cwd s.dir))) = .ok paths) ∧
    ¬ ∀ (d : Disk) (s : KnowledgeSettings) (os paths : List Text), d.Orderly → s.discovery.invalid? = none →
      d.isDir (Path.absolute d.cwd s.dir) = true →
      Path.cleaned (s.outputDir (Path.absolute d.cwd s.dir)) = Path.cleaned (Path.absolute d.cwd s.dir) ++ os →
      os ≠ [] →
      Discovery.discover d (Path.absolute d.cwd s.dir)
        (rulesFor s.discovery (Path.absolute d.cwd s.dir) (s.outputDir (Path.absolute d.cwd s.dir))) = .ok paths →
      ∀ p ∈ paths, ¬Path.IsWithin (s.outputDir (Path.absolute d.cwd s.dir)) p := by
  constructor
  · intro h
    have horderly : (twoFiles "kb[").Orderly := ⟨Entry.orderly_of_isPlain (by rfl), by rfl, ⟨_, rfl⟩⟩
    obtain ⟨paths, hpaths⟩ :=
      h (twoFiles "kb[") (savedIn "kb[") ["kb["] horderly (by decide) (by rfl) (by decide +kernel)
      (List.cons_ne_nil _ _)
    have hfails : Discovery.discover (twoFiles "kb[") (Path.absolute (twoFiles "kb[").cwd (savedIn "kb[").dir)
        (rulesFor (savedIn "kb[").discovery (Path.absolute (twoFiles "kb[").cwd (savedIn "kb[").dir)
          ((savedIn "kb[").outputDir (Path.absolute (twoFiles "kb[").cwd (savedIn "kb[").dir))) =
          .error (.invalidGlob "kb[/**") := by rfl
    rw [hfails] at hpaths
    cases hpaths
  · intro h
    have horderly : (twoFiles "kb[1]").Orderly := ⟨Entry.orderly_of_isPlain (by rfl), by rfl, ⟨_, rfl⟩⟩
    have hout := h (twoFiles "kb[1]") (savedIn "kb[1]") ["kb[1]"] (Text.sort ["/a.js", "/kb[1]/b.js"]) horderly
      (by decide)
      (by rfl) (by decide +kernel) (List.cons_ne_nil _ _) (by rfl) "/kb[1]/b.js"
      (List.mem_mergeSort.2 (List.mem_cons_of_mem _ (List.mem_singleton_self _)))
    exact hout (by decide +kernel)

end KnowledgeRun

end DocAtlas

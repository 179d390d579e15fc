/-
What a watcher makes of a directory that is gone. An event at a path that is no new directory counts as one of a
file, and of files only sources matter; the end of a directory is such an event, since nothing is left at the path to
tell what stood there. So it schedules a run only if the name of the directory ends like that of a source, though every
run would leave out what was below it.

`armed_handleEach_iff` says what schedules a run in any sequence of events, `vanished_scheduled_iff` what that means
for a directory that is gone.
-/
import DocAtlas.Proofs.Files.Gone
import DocAtlas.Proofs.Knowledge.Excluding

namespace DocAtlas

namespace Watcher

/-! ## What schedules a run -/

variable {w : Watcher} {d : Disk} {event : FileEvent} {path : Text}

/-- What a watcher was made for: it stays the same. -/
structure SameScope (w w' : Watcher) : Prop where
  settings : w'.settings = w.settings
  root : w'.root = w.root
  outputDir : w'.outputDir = w.outputDir

theorem SameScope.ignores {w' : Watcher} (h : SameScope w w') : w'.ignores = w.ignores := by
  unfold Watcher.ignores
  rw [h.settings, h.root, h.outputDir]

/-- Whether an event schedules a run: a new directory that is not ignored, or the change of a source that is not. -/
def Triggers (w : Watcher) (d : Disk) (event : FileEvent) (path : Text) : Prop :=
  if event = .create ∧ d.isDir path = true then w.ignores path true = false
  else event ≠ .chmod ∧ w.ignores path false = false ∧ Grammar.supports path = true

theorem SameScope.triggers {w' : Watcher} (h : SameScope w w') :
    w'.Triggers d event path ↔ w.Triggers d event path := by
  unfold Triggers
  rw [h.ignores]

theorem sameScope_addTree {w' : Watcher} {log : List LogRecord} (h : w.addTree d path = .ok (w', log)) :
    SameScope w w' := by
  unfold addTree at h
  split at h
  · cases h
  · simp only at h
    split at h
    · cases h
      exact ⟨rfl, rfl, rfl⟩
    · cases h
      exact ⟨rfl, rfl, rfl⟩

theorem sameScope_handleFile : SameScope w (w.handleFile event path).1 := by
  unfold handleFile
  split
  · exact ⟨rfl, rfl, rfl⟩
  · exact ⟨rfl, rfl, rfl⟩

theorem armed_handleFile_iff : (w.handleFile event path).1.armed = true ↔
    w.armed = true ∨ event ≠ .chmod ∧ w.ignores path false = false ∧ Grammar.supports path = true := by
  unfold handleFile
  cases w.ignores path false <;> cases Grammar.supports path <;> cases event <;> simp [schedule]

/-- One event: what the watcher was made for stays, and a run is scheduled if one was or the event does it. -/
theorem handle_spec (w : Watcher) (d : Disk) (event : FileEvent) (path : Text) :
    SameScope w (w.handle d event path).1 ∧
    ((w.handle d event path).1.armed = true ↔ w.armed = true ∨ w.Triggers d event path) := by
  unfold handle Triggers
  by_cases hnew : event = .create ∧ d.isDir path = true
  · have hcond : (event == .create && d.isDir path) = true := by simpa using hnew
    rw [if_pos hcond, if_pos hnew]
    split
    · rename_i hignored
      exact ⟨⟨rfl, rfl, rfl⟩, by simp [hignored]⟩
    · rename_i hfree
      have hfree : w.ignores path true = false := by simpa using hfree
      split
      · rename_i w' log hadd
        obtain ⟨hsettings, hroot, hout⟩ := sameScope_addTree hadd
        exact ⟨⟨hsettings, hroot, hout⟩, iff_of_true rfl (.inr hfree)⟩
      · exact ⟨⟨rfl, rfl, rfl⟩, iff_of_true rfl (.inr hfree)⟩
  · have hcond : ¬ (event == .create && d.isDir path) = true := by simpa using hnew
    rw [if_neg hcond, if_neg hnew]
    exact ⟨sameScope_handleFile, armed_handleFile_iff⟩

/-- Events one after the other, each with the disk as it is then. -/
def handleEach (w : Watcher) : List (Disk × FileEvent × Text) → Watcher
  | [] => w
  | (d, event, path) :: events => handleEach (w.handle d event path).1 events

/-- After any events a run is scheduled exactly if one was before or one of the events does it. -/
theorem armed_handleEach_iff (w : Watcher) (events : List (Disk × FileEvent × Text)) :
    (w.handleEach events).armed = true ↔ w.armed = true ∨ ∃ e ∈ events, w.Triggers e.1 e.2.1 e.2.2 := by
  induction events generalizing w with
  | nil => simp [handleEach]
  | cons e events ih =>
    obtain ⟨d, event, path⟩ := e
    obtain ⟨hscope, harmed⟩ := handle_spec w d event path
    rw [handleEach, ih, harmed]
    simp only [hscope.triggers, List.mem_cons, exists_eq_or_imp, or_assoc]

/-! ## The end of a directory -/

/-- What is ignored as a file is so as a directory. -/
theorem ignores_file_of_dir (h : w.ignores path true = false) : w.ignores path false = false := by
  unfold ignores at h ⊢
  rw [Bool.or_eq_false_iff] at h ⊢
  refine ⟨h.1, ?_⟩
  revert h
  cases KnowledgeRun.inside? w.root path with
  | none => exact fun _ => rfl
  | some rel =>
    simp only [List.any_eq_false, Bool.or_eq_true, not_or]
    exact fun h p hp => ⟨(h.2 p hp).1, by simp⟩

/-- A directory that is not ignored ends: what that schedules depends on its name alone. -/
theorem triggers_end (hignored : w.ignores path true = false) (hevent : event = .remove ∨ event = .rename) :
    w.Triggers d event path ↔ Grammar.supports path = true := by
  have hold : ¬ (event = .create ∧ d.isDir path = true) := by rcases hevent with rfl | rfl <;> simp
  have hchange : event ≠ .chmod := by rcases hevent with rfl | rfl <;> simp
  rw [Triggers, if_neg hold]
  simp [hchange, ignores_file_of_dir hignored]

end Watcher

namespace KnowledgeRun

/-- A run processes nothing at or below a path where nothing stands. -/
theorem processed_of_isGone {gs : Grammars} {s : KnowledgeSettings} {stamp : RunStamp}
    {cancelAfter : Option Nat} {d : Disk} {x : Extractor} {metrics : Metrics} (hd : d.Orderly) {names : List Text}
    (hnames : ∀ n ∈ names, Path.IsName n) (hroot : Path.absolute d.cwd s.dir = Path.rooted names) {ns : List Text}
    (hns : ∀ n ∈ ns, Path.IsName n) (hne : ns ≠ []) (hgone : d.IsGone (Path.rooted (names ++ ns))) {r : KnowledgeReport}
    (hreport : (run gs s stamp cancelAfter d x metrics).report = some r) {rel : Text} (hrel : rel ∈ r.processed) :
    ¬ Path.IsWithin (Path.rooted (names ++ ns)) (Path.join [Path.rooted names, rel]) := by
  cases hdiscover : Discovery.discover d (Path.rooted names)
    (rulesFor s.discovery (Path.rooted names) (s.outputDir (Path.rooted names))) with
  | error f =>
    unfold run runBy at hreport
    simp only [hroot, hdiscover] at hreport
    cases hreport
  | ok paths =>
    have hcovers := covers_of_runBy hd.here hroot hdiscover (Discovery.nodup_discover hd hnames hdiscover) hreport
    obtain ⟨p, hp, rfl⟩ := hcovers.sound rel hrel
    rw [Discovery.join_relativeTo hd hnames hdiscover hp]
    exact Discovery.not_within_of_isGone hd hnames hdiscover hns hne hgone hp

end KnowledgeRun

namespace Watcher

/-- A directory below the root that is not ignored and is gone schedules a run exactly if its name ends like that of a
source, whatever was in it; otherwise only another event does. No run would process anything below it. -/
theorem vanished_scheduled_iff {w : Watcher} {after : Disk} (hd : after.Orderly)
    (hroot : w.root = Path.absolute after.cwd w.settings.dir) (harmed : w.armed = false) {ns : List Text}
    (hns : ∀ n ∈ ns, Path.IsName n) (hne : ns ≠ [])
    (hignored : w.ignores (Path.join [w.root, Text.joinWith [Path.slash] ns]) true = false)
    (hgone : after.IsGone (Path.join [w.root, Text.joinWith [Path.slash] ns])) {event : FileEvent}
    (hevent : event = .remove ∨ event = .rename) :
    let dir := Path.join [w.root, Text.joinWith [Path.slash] ns]
    ((w.handle after event dir).1.armed = true ↔ Grammar.supports dir = true) ∧
    (∀ events, (w.handleEach ((after, event, dir) :: events)).armed = true ↔
      Grammar.supports dir = true ∨ ∃ e ∈ events, w.Triggers e.1 e.2.1 e.2.2) ∧
    ∀ gs stamp cancelAfter x metrics r,
      (KnowledgeRun.run gs w.settings stamp cancelAfter after x metrics).report = some r →
      ∀ rel ∈ r.processed, ¬ Path.IsWithin dir (Path.join [w.root, rel]) := by
  intro dir
  have hends : w.Triggers after event dir ↔ Grammar.supports dir = true := triggers_end hignored hevent
  refine ⟨?_, fun events => ?_, fun gs stamp cancelAfter x metrics r hreport rel hrel => ?_⟩
  · rw [(handle_spec w after event dir).2, hends]
    simp [harmed]
  · rw [armed_handleEach_iff]
    simp [harmed, hends]
  · obtain ⟨names, hnames, habsolute⟩ := Path.absolute_eq hd.cwd w.settings.dir
    have hrooted : w.root = Path.rooted names := hroot.trans habsolute
    have hdir : dir = Path.rooted (names ++ ns) := by
      change Path.join [w.root, _] = _
      rw [hrooted, Path.join_rooted hnames hns hne]
    rw [hdir, hrooted]
    exact KnowledgeRun.processed_of_isGone hd hnames habsolute hns hne (hdir ▸ hgone) hreport hrel

/-! ## A directory taken away -/

/-- A disk with nothing on it. -/
def nothing : Disk := ⟨.dir [], "/"⟩

theorem orderly_nothing : nothing.Orderly := ⟨Entry.orderly_of_isPlain (by rfl), by rfl, ⟨_, rfl⟩⟩

/-- A new watcher of everything but `dist`. -/
def rootWatcher : Watcher := new "/" (allBut "dist/**")

/-- A directory with the name of a source schedules a run when it is moved away. -/
theorem namedLikeSource_scheduled :
    nothing.Orderly ∧ rootWatcher.root = Path.absolute nothing.cwd rootWatcher.settings.dir ∧
    rootWatcher.armed = false ∧ (∀ n ∈ [Text.ofString "pkg", "lib.js"], Path.IsName n) ∧
    [Text.ofString "pkg", "lib.js"] ≠ [] ∧
    rootWatcher.ignores "/pkg/lib.js" true = false ∧ nothing.IsGone "/pkg/lib.js" ∧
    (rootWatcher.handle nothing .rename "/pkg/lib.js").1.armed = true := by
  have hns : ∀ n ∈ [Text.ofString "pkg", "lib.js"], Path.IsName n := by decide
  have hne : [Text.ofString "pkg", "lib.js"] ≠ [] := List.cons_ne_nil _ _
  have hdir : Path.join [rootWatcher.root, Text.joinWith [Path.slash] [Text.ofString "pkg", "lib.js"]] =
    "/pkg/lib.js" := by
    decide +kernel
  have hignored : rootWatcher.ignores "/pkg/lib.js" true = false := by decide +kernel
  have hgone : nothing.IsGone "/pkg/lib.js" := by
    intro e he
    cases he
  have hscheduled := vanished_scheduled_iff (w := rootWatcher) orderly_nothing (by rfl) rfl hns hne (hdir ▸ hignored)
    (hdir ▸ hgone) (.inr rfl)
  simp only [hdir] at hscheduled
  exact ⟨orderly_nothing, by rfl, rfl, hns, hne, hignored, hgone, hscheduled.1.2 (by decide)⟩

/-- The directory `src` of a watched root goes, with a source that runs processed, and nothing is scheduled. -/
theorem plainName_not_scheduled :
    ¬ ∀ (before after : Disk) (s : KnowledgeSettings) (paths : List Text) (path dir : Text)
    (w : Watcher) (log : List LogRecord) (event : FileEvent), before.Orderly → after.Orderly → after.cwd = before.cwd →
    Discovery.discover before (Path.absolute before.cwd s.dir)
      (KnowledgeRun.rulesFor s.discovery (Path.absolute before.cwd s.dir)
        (s.outputDir (Path.absolute before.cwd s.dir))) = .ok paths →
    path ∈ paths → Grammar.supports path = true → OnTheWay (Path.absolute before.cwd s.dir) path dir →
    dir ≠ Path.absolute before.cwd s.dir →
    (new before.cwd s).addTree before (Path.absolute before.cwd s.dir) = .ok (w, log) →
    w.ignores dir true = false → after.IsGone dir → event = .remove ∨ event = .rename →
    (w.handle after event dir).1.armed = true := by
  intro h
  have hlstat : oneSource.lstat (Path.absolute oneSource.cwd (allBut "dist/**").dir) = .ok oneSource.root := by rfl
  obtain ⟨watched, hadd, -⟩ := addTree_new oneSource.cwd (allBut "dist/**") hlstat
  have hscope : SameScope (new oneSource.cwd (allBut "dist/**"))
    { new oneSource.cwd (allBut "dist/**") with watched } :=
    ⟨rfl, rfl, rfl⟩
  have hignored : Watcher.ignores { new oneSource.cwd (allBut "dist/**") with watched } "/src" true = false := by
    rw [hscope.ignores]
    decide +kernel
  have hgone : nothing.IsGone "/src" := by
    intro e he
    cases he
  have harmed := h oneSource nothing (allBut "dist/**") _ "/src/main.js" "/src" _ _ .remove orderly_oneSource
    orderly_nothing rfl
    (by rfl) mem_oneSource (by decide) (absolute_oneSource _ ▸ onTheWay_oneSource.2 (.inr rfl))
    (by rw [absolute_oneSource]; decide) hadd hignored hgone (.inl rfl)
  rcases (handle_spec _ _ _ _).2.1 harmed with harmed | htriggers
  · cases harmed
  · exact absurd ((triggers_end hignored (.inl rfl)).1 htriggers) (by decide)

end Watcher

end DocAtlas

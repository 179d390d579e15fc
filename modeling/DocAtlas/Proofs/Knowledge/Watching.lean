/-
What a watcher follows. It watches the directories its walk enters, and the walk enters a directory
unless a path in it would be ignored: the output directory, what is below it, and what an exclude glob
matches. A directory is tried with the name `x` below it, where the discovery of a run tries it with a
slash after it; so a glob like `src/?` keeps the watcher out of a directory that every run searches.

`follows_iff` is the exact condition for a file that a run visits.
-/
import DocAtlas.Knowledge.Watch
import DocAtlas.Proofs.Files.Selection

namespace DocAtlas

namespace KnowledgeRun

variable {root : List Text}

theorem inside?_rooted (hroot : ∀ e ∈ root, Path.IsName e) {ns : List Text} (hns : ∀ n ∈ ns, Path.IsName n)
    (hne : ns ≠ []) :
    inside? (Path.rooted root) (Path.rooted (root ++ ns)) = some (Text.joinWith [Path.slash] ns) := by
  have hall : ∀ n ∈ root ++ ns, Path.IsName n := by
    simpa only [List.mem_append, or_imp, forall_and] using ⟨hroot, hns⟩
  refine (Path.relative?_goesDown (Path.isAbsolute_rooted root) hall _).2 ⟨ns, hne, ?_, rfl⟩
  rw [Path.cleaned_rooted hroot]

/-- What is inside below a directory is inside. -/
theorem isSome_inside?_append {dir : Text} (hdir : Path.isAbsolute dir = true) {ps ns : List Text}
    (hall : ∀ n ∈ ps ++ ns, Path.IsName n) (h : (inside? dir (Path.rooted ps)).isSome = true) :
    (inside? dir (Path.rooted (ps ++ ns))).isSome = true := by
  obtain ⟨rel, hrel⟩ := Option.isSome_iff_exists.1 h
  have hps : ∀ n ∈ ps, Path.IsName n := fun n hn => hall n (List.mem_append_left _ hn)
  obtain ⟨ms, hne, rfl, -⟩ := (Path.relative?_goesDown hdir hps rel).1 hrel
  refine Option.isSome_iff_exists.2 ⟨_, (Path.relative?_goesDown hdir hall _).2 ⟨ms ++ ns, ?_, ?_, rfl⟩⟩
  · simp [hne]
  · rw [List.append_assoc]

/-- The rules of a run exclude what its settings exclude. -/
theorem mem_excludes_rulesFor {r : DiscoveryRules} {root out p : Text} (hp : p ∈ r.excludes) :
    p ∈ (rulesFor r root out).excludes := by
  unfold rulesFor
  split
  · exact List.mem_append_left _ hp
  · exact hp

end KnowledgeRun

namespace KnowledgeSettings

theorem isAbsolute_outputDir (s : KnowledgeSettings) (root : List Text) :
    Path.isAbsolute (s.outputDir (Path.rooted root)) = true := by
  unfold outputDir
  generalize (if s.output.isEmpty then defaultOutput else s.output) = out
  simp only
  split
  · assumption
  · have hjoin : ∀ p, Path.isAbsolute p = true → Path.isAbsolute (Path.clean p) = true := fun p hp => by
      rw [Path.clean_of_absolute hp]
      exact Path.isAbsolute_rooted _
    have hroot : Path.rooted root ≠ [] := List.cons_ne_nil _ _
    by_cases hout : out = []
    · have : Path.join [Path.rooted root, out] = Path.clean (Path.rooted root) := by
        simp [Path.join, hout, hroot, Text.joinWith]
      rw [this]
      exact hjoin _ (Path.isAbsolute_rooted root)
    · have : Path.join [Path.rooted root, out] = Path.clean (Path.rooted root ++ [Path.slash] ++ out) := by
        simp [Path.join, hout, hroot, Text.joinWith]
      rw [this]
      exact hjoin _ (Path.isAbsolute_rooted root)

end KnowledgeSettings

namespace Watcher

/-! ## What is ignored -/

/-- Whether a path is the output directory or below it. -/
def inOutput (w : Watcher) (path : Text) : Bool :=
  path == w.outputDir || (KnowledgeRun.inside? w.outputDir path).isSome

variable {w : Watcher} {root : List Text}

/-- A path below the root is ignored if it is in the output directory or an exclude glob matches. -/
theorem ignores_rooted (hw : w.root = Path.rooted root) (hroot : ∀ e ∈ root, Path.IsName e) {ns : List Text}
    (hns : ∀ n ∈ ns, Path.IsName n) (hne : ns ≠ []) (isDir : Bool) :
    w.ignores (Path.rooted (root ++ ns)) isDir = true ↔ w.inOutput (Path.rooted (root ++ ns)) = true ∨
      ∃ p ∈ w.settings.discovery.excludes, Glob.isMatch p (Text.joinWith [Path.slash] ns) = true ∨
        isDir = true ∧ Glob.isMatch p (Text.joinWith [Path.slash] ns ++ "/x") = true := by
  unfold ignores
  rw [hw, KnowledgeRun.inside?_rooted hroot hns hne]
  simp [inOutput]

/-- What is below something in the output directory is there as well. -/
theorem inOutput_below (hout : Path.isAbsolute w.outputDir = true) {ps qs : List Text}
    (hqs : ∀ n ∈ qs, Path.IsName n) (hpre : ps <+: qs) (hne : ps ≠ qs) (h : w.inOutput (Path.rooted ps) = true) :
    w.inOutput (Path.rooted qs) = true := by
  obtain ⟨ns, rfl⟩ := hpre
  have hps : ∀ n ∈ ps, Path.IsName n := fun n hn => hqs n (List.mem_append_left _ hn)
  have hns : ∀ n ∈ ns, Path.IsName n := fun n hn => hqs n (List.mem_append_right _ hn)
  simp only [inOutput, Bool.or_eq_true, beq_iff_eq] at h ⊢
  right
  rcases h with h | h
  · rw [← h, KnowledgeRun.inside?_rooted hps hns (by simpa using hne)]
    rfl
  · exact KnowledgeRun.isSome_inside?_append hout hqs h

/-! ## The directories of a walk -/

/-- The names `ms` lead from the entry at `ps` to a directory, and a walk which comes to the entry enters it and
all on the way to it. -/
structure Enters (w : Watcher) (ps : List Text) (e : Entry) (ms : List Text) : Prop where
  leads : ∃ es, e.get? ms = some (.dir es)
  entered : ∀ ks, ks <+: ms → Path.rooted (ps ++ ks) = w.root ∨ w.ignores (Path.rooted (ps ++ ks)) true = false

theorem mem_directoriesIn {at_ dir : Text} {es : List (Text × Entry)} :
    dir ∈ directoriesIn w at_ es ↔ ∃ p ∈ es, dir ∈ directoriesAt w (Path.join [at_, p.1]) p.2 := by
  induction es with
  | nil => simp [directoriesIn]
  | cons p es ih =>
    rw [directoriesIn, List.mem_append, ih]
    simp

/-- A walk that enters a directory goes on at its entries. -/
theorem enters_dir {ps : List Text} {es : List (Text × Entry)} (hes : (Entry.dir es).Orderly) {ms : List Text} :
    Enters w ps (.dir es) ms ↔ (Path.rooted ps = w.root ∨ w.ignores (Path.rooted ps) true = false) ∧
      (ms = [] ∨ ∃ p ∈ es, ∃ ks, ms = p.1 :: ks ∧ Enters w (ps ++ [p.1]) p.2 ks) := by
  have hassoc : ∀ n ks, ps ++ [n] ++ ks = ps ++ n :: ks := by simp
  constructor
  · rintro ⟨⟨fs, hleads⟩, hentered⟩
    refine ⟨by simpa using hentered [] List.nil_prefix, ?_⟩
    cases ms with
    | nil => exact .inl rfl
    | cons n ks =>
      obtain ⟨d, hd, hget⟩ := Option.bind_eq_some_iff.1 hleads
      refine .inr ⟨(n, d), Table.mem_of_find? hd, ks, rfl, ⟨fs, hget⟩, fun ks' hks' => ?_⟩
      rw [hassoc]
      exact hentered _ (List.cons_prefix_cons.2 ⟨rfl, hks'⟩)
  · rintro ⟨hhere, rfl | ⟨p, hp, ks, rfl, ⟨fs, hleads⟩, hentered⟩⟩
    · refine ⟨⟨es, Entry.get?_nil _⟩, fun ks hks => ?_⟩
      rw [List.prefix_nil.1 hks, List.append_nil]
      exact hhere
    · refine ⟨⟨fs, ?_⟩, fun ks' hks' => ?_⟩
      · rw [Entry.get?_dir, (hes.entry hp).2.1]
        exact hleads
      · rcases List.prefix_cons_iff.1 hks' with rfl | ⟨ls, rfl, hls⟩
        · rw [List.append_nil]
          exact hhere
        · rw [← hassoc]
          exact hentered ls hls

/-- The directories that are to be watched at an entry and below it. -/
theorem mem_directoriesAt {e : Entry} (he : e.Orderly) {ps : List Text} (hps : ∀ p ∈ ps, Path.IsName p) {dir : Text} :
    dir ∈ w.directoriesAt (Path.rooted ps) e ↔ ∃ ms, dir = Path.rooted (ps ++ ms) ∧ Enters w ps e ms := by
  induction e using Entry.ind generalizing ps with
  | file content mode =>
    simp only [directoriesAt, List.not_mem_nil, false_iff, not_exists, not_and]
    rintro ms - ⟨⟨fs, hfs⟩, -⟩
    cases ms <;> simp [Entry.get?] at hfs
  | link target =>
    simp only [directoriesAt, List.not_mem_nil, false_iff, not_exists, not_and]
    rintro ms - ⟨⟨fs, hfs⟩, -⟩
    cases ms <;> simp [Entry.get?] at hfs
  | dir es ih =>
    have hentry : ∀ p ∈ es, dir ∈ w.directoriesAt (Path.join [Path.rooted ps, p.1]) p.2 ↔
        ∃ ks, dir = Path.rooted (ps ++ p.1 :: ks) ∧ Enters w (ps ++ [p.1]) p.2 ks := by
      intro p hp
      obtain ⟨hname, -, horderly⟩ := he.entry hp
      have hns : ∀ n ∈ [p.1], Path.IsName n := by simpa using hname
      have hjoin : Path.join [Path.rooted ps, p.1] = Path.rooted (ps ++ [p.1]) :=
        Path.join_rooted hps hns (List.cons_ne_nil _ _)
      rw [hjoin, ih p hp horderly (by simpa [or_imp, forall_and] using ⟨hps, hname⟩)]
      simp
    simp only [enters_dir he, directoriesAt, bne_iff_ne, Bool.and_eq_true]
    split
    · rename_i hhere
      simp [hhere]
    · rename_i hhere
      have hhere : Path.rooted ps = w.root ∨ w.ignores (Path.rooted ps) true = false := by
        by_cases h : Path.rooted ps = w.root
        · exact .inl h
        · exact .inr (Bool.not_eq_true _ ▸ fun hi => hhere ⟨h, hi⟩)
      simp only [hhere, true_and, List.mem_cons, mem_directoriesIn]
      constructor
      · rintro (rfl | ⟨p, hp, hdir⟩)
        · exact ⟨[], by rw [List.append_nil], .inl rfl⟩
        · obtain ⟨ks, rfl, hks⟩ := (hentry p hp).1 hdir
          exact ⟨p.1 :: ks, rfl, .inr ⟨p, hp, ks, rfl, hks⟩⟩
      · rintro ⟨ms, rfl, rfl | ⟨p, hp, ks, rfl, hks⟩⟩
        · rw [List.append_nil]
          exact .inl rfl
        · exact .inr ⟨p, hp, (hentry p hp).2 ⟨ks, rfl, hks⟩⟩

/-! ## Files that a run visits -/

/-- A directory from a root down to a path below it. -/
def OnTheWay (root path dir : Text) : Prop :=
  ∃ ms ns, ns ≠ [] ∧ Path.cleaned path = Path.cleaned root ++ ms ++ ns ∧ dir = Path.rooted (Path.cleaned root ++ ms)

/-- A new watcher comes to watch all directories from its root down to a path, and then schedules a run when
the path is written. -/
def Follows (d : Disk) (s : KnowledgeSettings) (path : Text) : Prop :=
  ∃ w log, (new d.cwd s).addTree d (Path.absolute d.cwd s.dir) = .ok (w, log) ∧
    (∀ dir, OnTheWay (Path.absolute d.cwd s.dir) path dir → dir ∈ Table.keys w.watched) ∧
    (w.handle d .write path).1.armed = true

theorem onTheWay_rooted (hroot : ∀ e ∈ root, Path.IsName e) {ns : List Text} (hns : ∀ n ∈ ns, Path.IsName n)
    {dir : Text} :
    OnTheWay (Path.rooted root) (Path.rooted (root ++ ns)) dir ↔ ∃ ms, ms <+: ns ∧ ms ≠ ns ∧
    dir = Path.rooted (root ++ ms) := by
  have hall : ∀ n ∈ root ++ ns, Path.IsName n := by
    simpa only [List.mem_append, or_imp, forall_and] using ⟨hroot, hns⟩
  unfold OnTheWay
  rw [Path.cleaned_rooted hroot, Path.cleaned_rooted hall]
  constructor
  · rintro ⟨ms, ks, hne, heq, rfl⟩
    rw [List.append_assoc] at heq
    obtain rfl := List.append_cancel_left heq
    exact ⟨ms, List.prefix_append _ _, by simpa using hne, rfl⟩
  · rintro ⟨ms, ⟨ks, rfl⟩, hne, rfl⟩
    exact ⟨ms, ks, by simpa using hne, by rw [List.append_assoc], rfl⟩

theorem mem_keys_watchAll {dirs : List Text} {t : Table Unit} {dir : Text} :
    dir ∈ Table.keys (dirs.foldl (fun t p => Table.put p () t) t) ↔ dir ∈ dirs ∨ dir ∈ Table.keys t := by
  induction dirs generalizing t with
  | nil => simp
  | cons p dirs ih => rw [List.foldl_cons, ih, Table.mem_keys_put, List.mem_cons, or_left_comm, or_assoc]

/-- A new watcher watches the directories of the walk from its root, and changes in nothing else. -/
theorem addTree_new {d : Disk} (cwd : Text) (s : KnowledgeSettings) {dir : Text} {es : List (Text × Entry)}
    (h : d.lstat dir = .ok (.dir es)) :
    ∃ watched, (new cwd s).addTree d dir = .ok ({ new cwd s with watched }, []) ∧
      ∀ q, q ∈ Table.keys watched ↔ q ∈ (new cwd s).directoriesAt dir (.dir es) := by
  refine ⟨((new cwd s).directoriesAt dir (.dir es)).foldl (fun t p => Table.put p () t) [], ?_, fun q => ?_⟩
  · unfold addTree
    rw [h]
    rfl
  · rw [mem_keys_watchAll]
    exact or_iff_left (List.not_mem_nil)

/-- Writing a source schedules a run unless the source is ignored. -/
theorem armed_handle_write {d : Disk} {path : Text} (hw : w.armed = false) (hpath : Grammar.supports path = true) :
    (w.handle d .write path).1.armed = true ↔ w.ignores path false = false := by
  have hhandle : w.handle d .write path = w.handleFile .write path := if_neg Bool.false_ne_true
  rw [hhandle]
  unfold handleFile
  cases w.ignores path false <;> simp [hpath, hw, schedule]

/-- Following a source, by what the walk comes to and what is ignored. -/
theorem follows_iff_of_lstat {d : Disk} {s : KnowledgeSettings} {es : List (Text × Entry)}
    (h : d.lstat (Path.absolute d.cwd s.dir) = .ok (.dir es)) {path : Text} (hsource : Grammar.supports path = true) :
    Follows d s path ↔ (new d.cwd s).ignores path false = false ∧ ∀ dir, OnTheWay (Path.absolute d.cwd s.dir) path dir →
      dir ∈ (new d.cwd s).directoriesAt (Path.absolute d.cwd s.dir) (.dir es) := by
  obtain ⟨watched, hadd, hwatched⟩ := addTree_new d.cwd s h
  have harmed := armed_handle_write (w := { new d.cwd s with watched }) (d := d) rfl hsource
  simp only [← hwatched]
  constructor
  · rintro ⟨w, log, hw, hall, hwrite⟩
    obtain rfl : _ = w := congrArg Prod.fst (Except.ok.inj (hadd.symm.trans hw))
    exact ⟨harmed.1 hwrite, hall⟩
  · rintro ⟨hignores, hall⟩
    exact ⟨_, _, hadd, hall, harmed.2 hignores⟩

/-- What a search selects below its root leads there through directories. -/
theorem exists_dir_of_selects {r : DiscoveryRules} {rules : List IgnoreRule} {es : List (Text × Entry)}
    (hes : (Entry.dir es).Orderly) {p : Text × Entry} (hp : p ∈ es) {ks : List Text}
    (h : Discovery.Selects r rules [p.1] p.2 ks) {ms : List Text} (hms : ms <+: p.1 :: ks) (hne : ms ≠ p.1 :: ks) :
    ∃ fs, (Entry.dir es).get? ms = some (.dir fs) := by
  obtain ⟨f, hf, -⟩ := h.leaf
  have hget : (Entry.dir es).get? (p.1 :: ks) = some f := by
    rw [Entry.get?_dir, (hes.entry hp).2.1]
    exact hf
  obtain ⟨rest, hrest⟩ := hms
  cases rest with
  | nil => exact absurd (by simpa using hrest) hne
  | cons n rest =>
    rw [← hrest] at hget
    exact Entry.exists_dir_of_append hget

/-- What a search lets through matches none of the globs. -/
theorem isMatch_of_not_excluded {excludes : List Text} {rules : List IgnoreRule} {rel : Text} {isDir : Bool}
    (h : Discovery.isExcluded excludes rules rel isDir = false) {p : Text} (hp : p ∈ excludes) :
      Glob.isMatch p rel = false := by
  simp only [Discovery.isExcluded, Glob.anyMatch, Bool.or_eq_false_iff, List.any_eq_false, Bool.not_eq_true] at h
  exact h.1.1.1 p hp

/-- A walk from the root comes to all directories on the way to a path exactly if none of them is ignored. -/
theorem forall_onTheWay_mem_directoriesAt (hw : w.root = Path.rooted root) (hroot : ∀ e ∈ root, Path.IsName e)
    {es : List (Text × Entry)} (hes : (Entry.dir es).Orderly) {ns : List Text} (hns : ∀ n ∈ ns, Path.IsName n)
    (hdirs : ∀ ms, ms <+: ns → ms ≠ ns → ∃ fs, (Entry.dir es).get? ms = some (.dir fs)) :
    (∀ dir, OnTheWay (Path.rooted root) (Path.rooted (root ++ ns)) dir →
      dir ∈ w.directoriesAt (Path.rooted root) (.dir es)) ↔
      ∀ dir, OnTheWay (Path.rooted root) (Path.rooted (root ++ ns)) dir → dir ≠ Path.rooted root →
      w.ignores dir true = false := by
  have hnames : ∀ {ms}, (∃ fs, (Entry.dir es).get? ms = some (.dir fs)) → ∀ n ∈ root ++ ms, Path.IsName n := by
    rintro ms ⟨fs, hfs⟩ n hn
    exact (List.mem_append.1 hn).elim (hroot n) (hes.isName hfs n)
  simp only [onTheWay_rooted hroot hns, forall_exists_index, and_imp]
  constructor
  · rintro h _ ms hms hproper rfl hne
    obtain ⟨ms', heq, hleads, hentered⟩ := (mem_directoriesAt hes hroot).1 (h _ ms hms hproper rfl)
    obtain rfl := List.append_cancel_left (Path.rooted_injective (hnames (hdirs ms hms hproper)) (hnames hleads) heq)
    exact (hentered ms List.prefix_rfl).resolve_left (hw ▸ hne)
  · rintro h _ ms hms hproper rfl
    refine (mem_directoriesAt hes hroot).2 ⟨ms, rfl, hdirs ms hms hproper, fun ks hks => ?_⟩
    rw [hw, or_iff_not_imp_left]
    refine h _ ks (hks.trans hms) ?_ rfl
    rintro rfl
    exact hproper (hms.eq_of_length_le hks.length_le)

/-- Of something that discovery lets through only the output directory is ignored, and of a directory what
is matched with the name `x` in it. -/
theorem ignores_of_not_excluded (hw : w.root = Path.rooted root) (hroot : ∀ e ∈ root, Path.IsName e) {ns : List Text}
    (hns : ∀ n ∈ ns, Path.IsName n) (hne : ns ≠ []) {excludes : List Text}
    (hexcludes : ∀ p ∈ w.settings.discovery.excludes, p ∈ excludes) {rules : List IgnoreRule} {isDir : Bool}
    (h : Discovery.isExcluded excludes rules (Text.joinWith [Path.slash] ns) isDir = false) :
    w.ignores (Path.rooted (root ++ ns)) isDir = false ↔ w.inOutput (Path.rooted (root ++ ns)) = false ∧
      (isDir = true → ∀ p ∈ w.settings.discovery.excludes,
        Glob.isMatch p (Text.joinWith [Path.slash] ns ++ "/x") = false) := by
  have hmatch : ∀ p ∈ w.settings.discovery.excludes, Glob.isMatch p (Text.joinWith [Path.slash] ns) = false :=
    fun p hp => isMatch_of_not_excluded h (hexcludes p hp)
  rw [← Bool.not_eq_true, ignores_rooted hw hroot hns hne]
  simp only [not_or, not_exists, not_and, Bool.not_eq_true]
  refine and_congr_right fun _ =>
    ⟨fun h hdir p hp => (h p hp).2 hdir, fun h p hp => ⟨hmatch p hp, fun hdir => h hdir p hp⟩⟩

/-- A file that a run visits is followed exactly if it is not in the output directory and no exclude glob
matches the name `x` in one of the directories from the root down to it. -/
theorem follows_iff {d : Disk} (hd : d.Orderly) {s : KnowledgeSettings} {paths : List Text}
    (h : Discovery.discover d (Path.absolute d.cwd s.dir)
      (KnowledgeRun.rulesFor s.discovery (Path.absolute d.cwd s.dir) (s.outputDir (Path.absolute d.cwd s.dir))) =
        .ok paths)
    {path : Text} (hpath : path ∈ paths) (hsource : Grammar.supports path = true) :
    Follows d s path ↔ (new d.cwd s).inOutput path = false ∧
      ∀ dir, OnTheWay (Path.absolute d.cwd s.dir) path dir → dir ≠ Path.absolute d.cwd s.dir →
        ∀ p ∈ s.discovery.excludes,
          Glob.isMatch p (Path.relativeTo (Path.absolute d.cwd s.dir) dir ++ "/x") = false := by
  obtain ⟨root, hroot, habsolute⟩ := Path.absolute_eq hd.cwd s.dir
  have hw : (new d.cwd s).root = Path.rooted root := habsolute
  have hout : Path.isAbsolute (new d.cwd s).outputDir = true := by
    change Path.isAbsolute (s.outputDir (Path.absolute d.cwd s.dir)) = true
    rw [habsolute]
    exact s.isAbsolute_outputDir root
  rw [habsolute] at h
  obtain ⟨es, hes, p, hp, ks, rfl, hselects⟩ := (Discovery.mem_discover hd hroot h).1 hpath
  obtain ⟨at_, hat⟩ := Disk.exists_get?_of_entry hd hes
  have horderly : (Entry.dir es).Orderly := hd.tree.get? hat
  have hns : ∀ n ∈ p.1 :: ks, Path.IsName n := by
    obtain ⟨f, hf, -⟩ := hselects.leaf
    obtain ⟨hname, -, hentry⟩ := horderly.entry hp
    exact List.forall_mem_cons.2 ⟨hname, hentry.isName hf⟩
  have hall : ∀ n ∈ root ++ p.1 :: ks, Path.IsName n := by
    simpa only [List.mem_append, or_imp, forall_and] using ⟨hroot, hns⟩
  -- the file itself, which discovery let through
  have hfile : (new d.cwd s).ignores (Path.rooted (root ++ p.1 :: ks)) false = false ↔
      (new d.cwd s).inOutput (Path.rooted (root ++ p.1 :: ks)) = false :=
    (ignores_of_not_excluded hw hroot hns (List.cons_ne_nil _ _)
      (fun _ => KnowledgeRun.mem_excludes_rulesFor) hselects.kept).trans (by simp)
  -- the directories on the way, which it entered
  have hdir : (new d.cwd s).inOutput (Path.rooted (root ++ p.1 :: ks)) = false →
      ∀ dir, OnTheWay (Path.rooted root) (Path.rooted (root ++ p.1 :: ks)) dir → dir ≠ Path.rooted root →
        ((new d.cwd s).ignores dir true = false ↔
          ∀ q ∈ s.discovery.excludes, Glob.isMatch q (Path.relativeTo (Path.rooted root) dir ++ "/x") = false) := by
    intro hfree dir hway hne
    obtain ⟨ms, hms, hproper, rfl⟩ := (onTheWay_rooted hroot hns).1 hway
    have hnil : ms ≠ [] := by
      rintro rfl
      exact hne (by rw [List.append_nil])
    have hnames : ∀ n ∈ ms, Path.IsName n := fun n hn => hns n (hms.subset hn)
    have hfreeDir : (new d.cwd s).inOutput (Path.rooted (root ++ ms)) = false := by
      rw [← Bool.not_eq_true] at hfree ⊢
      exact mt (inOutput_below hout hall ((List.prefix_append_right_inj root).2 hms) (by simpa using hproper)) hfree
    obtain ⟨ks', rfl, hks'⟩ := (List.prefix_cons_iff.1 hms).resolve_left hnil
    rw [ignores_of_not_excluded hw hroot hnames hnil (fun _ => KnowledgeRun.mem_excludes_rulesFor)
      (hselects.entered ks' hks' fun heq => hproper (congrArg (p.1 :: ·) heq)),
      Path.relativeTo_rooted hroot hnames hnil]
    simp only [hfreeDir, true_and, forall_const]
    rfl
  have hwalk := forall_onTheWay_mem_directoriesAt hw hroot horderly hns fun ms hms hproper =>
    exists_dir_of_selects horderly hp hselects hms hproper
  rw [← habsolute] at hes hwalk hdir
  rw [follows_iff_of_lstat hes hsource, hwalk, hfile]
  exact and_congr_right fun hfree => forall₃_congr (hdir hfree)

/-! ## A source in a directory -/

/-- A disk with the source `/src/main.js`. -/
def oneSource : Disk := ⟨.dir [("src", .dir [("main.js", .file "main();\n" 0o600)])], "/"⟩

/-- Everything counts but what one glob excludes. -/
def allBut (glob : Text) : KnowledgeSettings := ⟨".", ".knowledge", ⟨[], [glob], false⟩⟩

theorem orderly_oneSource : oneSource.Orderly := ⟨Entry.orderly_of_isPlain (by rfl), by rfl, ⟨_, rfl⟩⟩

theorem absolute_oneSource (glob : Text) : Path.absolute oneSource.cwd (allBut glob).dir = "/" :=
  show Path.absolute "/" "." = "/" by decide

theorem mem_oneSource : ("/src/main.js" : Text) ∈ Text.sort ["/src/main.js"] :=
  List.mem_mergeSort.2 (List.mem_singleton_self _)

theorem onTheWay_oneSource {dir : Text} : OnTheWay "/" "/src/main.js" dir ↔ dir = "/" ∨ dir = "/src" := by
  have hnames : ∀ n ∈ [Text.ofString "src", "main.js"], Path.IsName n := by decide
  refine (onTheWay_rooted (List.forall_mem_nil _) hnames).trans ⟨?_, ?_⟩
  · rintro ⟨ms, hms, hne, rfl⟩
    rcases List.prefix_cons_iff.1 hms with rfl | ⟨ks, rfl, hks⟩
    · exact .inl rfl
    · rcases List.prefix_cons_iff.1 hks with rfl | ⟨ls, rfl, hls⟩
      · exact .inr (by decide)
      · rw [List.prefix_nil.1 hls] at hne
        exact absurd rfl hne
  · rintro (rfl | rfl)
    · exact ⟨[], List.nil_prefix, List.cons_ne_nil _ _ |>.symm, rfl⟩
    · exact ⟨["src"], ⟨["main.js"], rfl⟩, by decide, by decide +kernel⟩

/-- A glob that matches nothing in a directory lets the watcher in. -/
theorem source_followed : oneSource.Orderly ∧ Grammar.supports "/src/main.js" = true ∧
    Follows oneSource (allBut "dist/**") "/src/main.js" := by
  have hsource : Grammar.supports "/src/main.js" = true := by decide
  have hdiscover : Discovery.discover oneSource (Path.absolute oneSource.cwd (allBut "dist/**").dir)
      (KnowledgeRun.rulesFor (allBut "dist/**").discovery (Path.absolute oneSource.cwd (allBut "dist/**").dir)
        ((allBut "dist/**").outputDir (Path.absolute oneSource.cwd (allBut "dist/**").dir))) =
        .ok (Text.sort ["/src/main.js"]) := by rfl
  refine ⟨orderly_oneSource, hsource, (follows_iff orderly_oneSource hdiscover mem_oneSource hsource).2 ⟨by decide, ?_⟩⟩
  rw [absolute_oneSource]
  intro dir hdir hne p hp
  obtain rfl := List.mem_singleton.1 hp
  obtain rfl := (onTheWay_oneSource.1 hdir).resolve_left hne
  decide

/-- A glob for names of one letter in a directory keeps the watcher out of it, and runs visit the other names. -/
theorem oneLetterGlob_not_followed : ¬ ∀ (d : Disk) (s : KnowledgeSettings) (paths : List Text) (path : Text),
    d.Orderly → s.discovery.respectIgnores = false →
    Discovery.discover d (Path.absolute d.cwd s.dir)
      (KnowledgeRun.rulesFor s.discovery (Path.absolute d.cwd s.dir) (s.outputDir (Path.absolute d.cwd s.dir))) =
        .ok paths →
    path ∈ paths → Grammar.supports path = true → Follows d s path := by
  intro h
  have hsource : Grammar.supports "/src/main.js" = true := by decide
  have hfollows := h oneSource (allBut "src/?") _ "/src/main.js" orderly_oneSource rfl (by rfl) mem_oneSource hsource
  have hlstat : oneSource.lstat (Path.absolute oneSource.cwd (allBut "src/?").dir) = .ok oneSource.root := by rfl
  have hwatched := ((follows_iff_of_lstat hlstat hsource).1 hfollows).2 "/src"
  rw [absolute_oneSource] at hwatched
  exact absurd (hwatched (onTheWay_oneSource.2 (.inr rfl))) (by decide)

end Watcher

end DocAtlas

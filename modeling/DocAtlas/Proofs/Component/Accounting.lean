/-
What a documentation run reports and what it writes. A run is its files in turn: on a disk without links
the outcomes are those of the contents the run starts from, because no file is visited twice and a visit
writes to its own file only.

From this the account of a run, whatever the system refuses (`runBy_accounts`): its numbers agree with its lists,
the lists are the visits in order, and the disk afterwards is the disk before with new contents in the files
reported as updated, and in no others. The one exception is a file whose write breaks off after the file was
opened: it has a fault, and what is left of it is the first bytes of the new content.
-/
import DocAtlas.Proofs.Component.Treating
import DocAtlas.Proofs.Files.Visits

namespace DocAtlas

namespace DocRun

variable {gs : Grammars} {access : Access} {s : DocSettings} {path rel src : Text}

/-! ## The report -/

/-- The numbers of a report agree with its lists. -/
structure Balanced (r : DocReport) : Prop where
  scanned : r.stats.scanned = r.stats.updated + r.stats.skipped + r.stats.errored
  files : r.files.length = r.stats.updated + r.stats.skipped
  updated : r.files.countP FileReport.updated = r.stats.updated
  faults : r.faults.length = r.stats.errored
  components : r.stats.components = (r.files.map fun f => f.components.length).sum

/-- A file that is left as it is has no component documented. -/
def Sound (o : Except FileFault FileReport) : Prop := ∀ f, o = .ok f → f.updated = false → f.components = []

/-- One more outcome keeps the balance. -/
theorem Balanced.addOutcome {r : DocReport} {o : Except FileFault FileReport} (hr : Balanced r) (ho : Sound o) :
    Balanced (addOutcome r o) := by
  obtain ⟨hscanned, hfiles, hupdated, hfaults, hcomponents⟩ := hr
  cases o with
  | error f =>
    refine ⟨?_, hfiles, hupdated, ?_, hcomponents⟩
    · simp only [DocRun.addOutcome]; omega
    · simp only [DocRun.addOutcome, List.length_append, List.length_singleton]; omega
  | ok f =>
    cases hf : f.updated with
    | true =>
      constructor <;>
        simp only [DocRun.addOutcome, hf, if_true, List.length_append, List.length_singleton, List.countP_append,
          List.countP_singleton, List.map_append, List.sum_append, List.map_cons, List.map_nil, List.sum_singleton] <;>
          omega
    | false =>
      -- components are counted for updated files only, and this one lists none
      have hnil := ho f rfl hf
      constructor <;>
        simp [DocRun.addOutcome, hf, hnil] <;> omega

/-- What a run reports, from the outcomes of its files. -/
theorem foldl_addOutcome (os : List (Except FileFault FileReport)) (r : DocReport) :
    let r' := os.foldl addOutcome r
    r'.root = r.root ∧ r'.stats.scanned = r.stats.scanned + os.length ∧
      r'.files = r.files ++ os.filterMap report? ∧ r'.faults = r.faults ++ os.filterMap fault? := by
  induction os generalizing r with
  | nil => simp
  | cons o os ih =>
    obtain ⟨hroot, hscanned, hfiles, hfaults⟩ := ih (addOutcome r o)
    have hone : (addOutcome r o).root = r.root ∧ (addOutcome r o).stats.scanned = r.stats.scanned + 1 ∧
        (addOutcome r o).files = r.files ++ (report? o).toList ∧
        (addOutcome r o).faults = r.faults ++ (fault? o).toList := by
      cases o with
      | error f => simp [addOutcome, report?, fault?]
      | ok f => cases hf : f.updated <;> simp [addOutcome, report?, fault?, hf]
    obtain ⟨h1, h2, h3, h4⟩ := hone
    refine ⟨hroot.trans h1, ?_, ?_, ?_⟩
    · rw [List.foldl_cons, hscanned, h2, List.length_cons]; omega
    · rw [List.foldl_cons, hfiles, h3, List.filterMap_cons]
      cases report? o <;> simp
    · rw [List.foldl_cons, hfaults, h4, List.filterMap_cons]
      cases fault? o <;> simp

/-- The content of the file at a path. -/
def contentAt (d : Disk) (path : Text) : Text := (d.readFile path).toOption.getD []

/-- What becomes of a file of a disk. -/
def treatAt (gs : Grammars) (access : Access) (s : DocSettings) (root : Text) (d : Disk) (path : Text) : Treatment :=
  treat gs access s path (Path.relativeTo root path) (contentAt d path)

/-- The contents that visits to some files leave. -/
def written (gs : Grammars) (access : Access) (s : DocSettings) (root : Text) (todo : List Text) (ps : List Text)
    (content : Text) : Text :=
  if Path.rooted ps ∈ todo then
    (treat gs access s (Path.rooted ps) (Path.relativeTo root (Path.rooted ps)) content).content
  else content

/-- A path is that of a file of the disk. -/
def IsFile (d : Disk) (path : Text) : Prop :=
  ∃ ps content mode, path = Path.rooted ps ∧ d.root.get? ps = some (.file content mode)

theorem contentAt_rooted {d : Disk} (hd : d.Plain) {ps : List Text} {content : Text} {mode : Nat}
    (h : d.root.get? ps = some (.file content mode)) : contentAt d (Path.rooted ps) = content := by
  unfold contentAt
  rw [Disk.readFile_rooted hd h]
  rfl

theorem written_cons {root : Text} {todo : List Text} (h : path ∉ todo) (ps : List Text) (content : Text) :
    written gs access s root todo ps (written gs access s root [path] ps content) =
      written gs access s root (path :: todo) ps content := by
  unfold written
  by_cases hpath : Path.rooted ps = path
  · simp [hpath, h]
  · simp [hpath]

/-- The visit of one file. -/
theorem step_eq (gs : Grammars) (access : Access) (s : DocSettings) {st : DocState} (hd : st.disk.Plain) {path : Text}
    (h : IsFile st.disk path) :
    let st' := step gs access s st path
    st'.report = addOutcome st.report (treatAt gs access s st.report.root st.disk path).outcome ∧
      st'.disk = { st.disk with root := st.disk.root.rewrite (written gs access s st.report.root [path]) } := by
  obtain ⟨ps, src, mode, rfl, hfile⟩ := h
  obtain ⟨houtcome, hdisk⟩ :=
    processFile_eq gs access s hd hfile st.parsers (Path.relativeTo st.report.root (Path.rooted ps))
  refine ⟨?_, hdisk.trans ?_⟩
  · unfold treatAt
    rw [contentAt_rooted hd hfile, ← houtcome]
    rfl
  · congr 1
    refine Entry.rewrite_congr hd.noLinks fun qs content mode' hqs => ?_
    unfold written
    by_cases heq : qs = ps
    · subst heq
      rw [hfile] at hqs
      cases hqs
      rw [if_pos rfl, if_pos (List.mem_singleton_self _)]
    · have hne : Path.rooted qs ≠ Path.rooted ps := fun hr =>
        heq (Path.rooted_injective (Entry.isPlain_of_get? hd.noLinks hqs).2
          (Entry.isPlain_of_get? hd.noLinks hfile).2 hr)
      rw [if_neg heq, if_neg (by simpa using hne)]

/-- A visit leaves the other files as they are. -/
theorem get?_step (gs : Grammars) (access : Access) (s : DocSettings) {st : DocState} (hd : st.disk.Plain)
    (h : IsFile st.disk path) {qs : List Text} {content : Text} {mode : Nat} (hne : Path.rooted qs ≠ path)
    (hqs : st.disk.root.get? qs = some (.file content mode)) :
    (step gs access s st path).disk.root.get? qs = some (.file content mode) := by
  rw [(step_eq gs access s hd h).2, Entry.get?_rewrite_file hqs]
  simp [written, hne]

/-- Visiting files one after the other, none twice: the outcomes are those of the contents at the start,
and each file has the content that its visit leaves. -/
theorem foldl_step (gs : Grammars) (access : Access) (s : DocSettings) {todo : List Text} (hnodup : todo.Nodup)
    (st : DocState) (hd : st.disk.Plain) (hfiles : ∀ path ∈ todo, IsFile st.disk path) :
    let st' := todo.foldl (step gs access s) st
    st'.report = (todo.map fun path => (treatAt gs access s st.report.root st.disk path).outcome).foldl addOutcome
      st.report ∧
      st'.disk = { st.disk with root := st.disk.root.rewrite (written gs access s st.report.root todo) } := by
  induction todo generalizing st with
  | nil =>
    have hsame : st.disk.root.rewrite (written gs access s st.report.root []) = st.disk.root :=
      Entry.rewrite_eq_self hd.noLinks fun ps content mode _ => by simp [written]
    refine ⟨rfl, ?_⟩
    rw [hsame]
    rfl
  | cons path todo ih =>
    obtain ⟨hpath, hnodup⟩ := List.nodup_cons.1 hnodup
    obtain ⟨hfile, hfiles⟩ := List.forall_mem_cons.1 hfiles
    obtain ⟨hreport, hdisk⟩ := step_eq gs access s hd hfile
    have hplain : (step gs access s st path).disk.Plain := by
      rw [hdisk]
      exact hd.rewrite _
    -- the files to come are not the visited one
    have hcome : ∀ q ∈ todo, ∃ qs content mode, q = Path.rooted qs ∧ st.disk.root.get? qs = some (.file content mode) ∧
        (step gs access s st path).disk.root.get? qs = some (.file content mode) := by
      intro q hq
      obtain ⟨qs, content, mode, rfl, hqs⟩ := hfiles q hq
      exact ⟨qs, content, mode, rfl, hqs, get?_step gs access s hd hfile (fun heq => hpath (heq ▸ hq)) hqs⟩
    obtain ⟨hreports, hdisks⟩ := ih hnodup _ hplain fun q hq =>
      have ⟨qs, content, mode, hrooted, _, hkept⟩ := hcome q hq
      ⟨qs, content, mode, hrooted, hkept⟩
    have hroot : (step gs access s st path).report.root = st.report.root := by
      rw [hreport]
      exact (foldl_addOutcome [_] st.report).1
    refine ⟨?_, ?_⟩
    · rw [List.foldl_cons, hreports, hroot, hreport, List.map_cons, List.foldl_cons]
      congr 1
      refine List.map_congr_left fun q hq => ?_
      obtain ⟨qs, content, mode, rfl, hqs, hkept⟩ := hcome q hq
      unfold treatAt
      rw [contentAt_rooted hplain hkept, contentAt_rooted hd hqs]
    · have hboth : (st.disk.root.rewrite (written gs access s st.report.root [path])).rewrite
          (written gs access s st.report.root todo) =
          st.disk.root.rewrite (written gs access s st.report.root (path :: todo)) :=
        (Entry.rewrite_rewrite _ _).trans
          (Entry.rewrite_congr hd.noLinks fun qs content _ _ => written_cons hpath qs content)
      rw [List.foldl_cons, hdisks, hroot, hdisk, ← hboth]

/-! ## The account of a run -/

/-- The names that lead to the file of a report. -/
def placeOf (root rel : Text) : List Text := Path.elements root ++ Path.elements rel

section

variable {d : Disk} {root : List Text} {visited : List Text}

/-- The path by which a visited file is reported leads to it. -/
theorem placeOf_visited (hd : d.Plain) (hv : Discovery.Visits d root visited) :
    ∀ path ∈ visited, ∃ ps content mode, path = Path.rooted ps ∧ d.root.get? ps = some (.file content mode) ∧
      placeOf (Path.rooted root) (Path.relativeTo (Path.rooted root) path) = ps := by
  intro path hpath
  obtain ⟨ns, content, mode, hne, rfl, hfile⟩ := hv.file path hpath
  have hnames := (Entry.isPlain_of_get? hd.noLinks hfile).2
  have hroot : ∀ e ∈ root, Path.IsName e := fun e he => hnames e (List.mem_append_left _ he)
  have hns : ∀ e ∈ ns, Path.IsName e := fun e he => hnames e (List.mem_append_right _ he)
  refine ⟨root ++ ns, content, mode, rfl, hfile, ?_⟩
  unfold placeOf
  rw [Path.relativeTo_rooted hroot hns hne, Path.elements_rooted hroot, Path.elements_joinWith hns]

theorem nodup_relativeTo (hd : d.Plain) (hv : Discovery.Visits d root visited) :
    (visited.map (Path.relativeTo (Path.rooted root))).Nodup := by
  refine hv.nodup.map_on fun p hp q hq heq => ?_
  obtain ⟨ps, -, -, rfl, -, hps⟩ := placeOf_visited hd hv p hp
  obtain ⟨qs, -, -, rfl, -, hqs⟩ := placeOf_visited hd hv q hq
  rw [← hps, heq, hqs]

/-- The report of visits to some files, one after the other. -/
def visitsReport (gs : Grammars) (access : Access) (s : DocSettings) (d : Disk) (root : List Text)
    (visited : List Text) : DocReport :=
  (visited.map fun path => (treatAt gs access s (Path.rooted root) d path).outcome).foldl addOutcome
    ⟨Path.rooted root, ⟨0, 0, 0, 0, 0⟩, [], []⟩

end

/-- The state in which a run begins to visit files. -/
def startAt (root : Text) (d : Disk) (parsers : Parsers) (metrics : Metrics) (count : Nat) : DocState :=
  ⟨d, parsers, metrics, [discoveredLog root count], ⟨root, ⟨0, 0, 0, 0, 0⟩, [], []⟩⟩

/-- A run over files that were found visits them in turn, up to the cancellation. -/
theorem runBy_of_discovered (gs : Grammars) (access : Access) (s : DocSettings) (cancelAfter : Option Nat) {d : Disk}
    (parsers : Parsers) (metrics : Metrics) {root : Text} {paths : List Text} (hroot : Path.absolute d.cwd s.dir = root)
    (h : Discovery.discover d root s.discovery = .ok paths) :
    let out := runBy gs access s cancelAfter d parsers metrics
    let st := (paths.take (cancelAfter.getD paths.length)).foldl (step gs access s)
      (startAt root d parsers metrics paths.length)
    out.report = some st.report ∧ out.disk = st.disk := by
  unfold runBy
  cases cancelAfter with
  | none => simp only [hroot, h, Option.getD_none, List.take_length, startAt, and_self]
  | some n => simp only [hroot, h, Option.getD_some, startAt, and_self]

/-- The report and the disk of a run over files that were found, from the disk at the start. -/
theorem runBy_eq (gs : Grammars) (access : Access) (s : DocSettings) (cancelAfter : Option Nat) {d : Disk}
    (hd : d.Plain) (parsers : Parsers) (metrics : Metrics) {root : List Text} (hnames : ∀ e ∈ root, Path.IsName e)
    (hroot : Path.absolute d.cwd s.dir = Path.rooted root) {paths : List Text}
    (h : Discovery.discover d (Path.rooted root) s.discovery = .ok paths) :
    let out := runBy gs access s cancelAfter d parsers metrics
    let visited := paths.take (cancelAfter.getD paths.length)
    Discovery.Visits d root visited ∧
      out.report = some (visitsReport gs access s d root visited) ∧
        out.disk = { d with root := d.root.rewrite (written gs access s (Path.rooted root) visited) } := by
  intro out visited
  have hv : Discovery.Visits d root visited := (Discovery.discover_visits hd hnames h).take _
  have hfiles : ∀ path ∈ visited, IsFile d path := by
    intro path hpath
    obtain ⟨ns, content, mode, -, hp, hfile⟩ := hv.file path hpath
    exact ⟨_, content, mode, hp, hfile⟩
  obtain ⟨hout, houtDisk⟩ := runBy_of_discovered gs access s cancelAfter parsers metrics hroot h
  obtain ⟨hreport, hdisk⟩ :=
    foldl_step gs access s hv.nodup (startAt (Path.rooted root) d parsers metrics paths.length) hd hfiles
  exact ⟨hv, hout.trans (congrArg some hreport), houtDisk.trans hdisk⟩

open Survey

/-- A disk with the file `/a.jsx`. -/
def onePage (src : Text) : Disk := ⟨.dir [("a.jsx", .file src 0o600)], "/"⟩

theorem plain_onePage (src : Text) : (onePage src).Plain := ⟨by rfl, by rfl, by rfl⟩

/-- Every file of the working directory is to be documented. -/
def everyFile (options : DocOptions) : DocSettings := ⟨".", ⟨[], [], false⟩, options, false⟩

theorem absolute_onePage (src : Text) (options : DocOptions) :
    Path.absolute (onePage src).cwd (everyFile options).dir = "/" :=
  show Path.absolute "/" "." = "/" by decide +kernel

theorem discover_onePage (src : Text) (options : DocOptions) :
    Discovery.discover (onePage src) "/" (everyFile options).discovery = .ok ["/a.jsx"] := by
  have h : Discovery.discover (onePage src) "/" (everyFile options).discovery = .ok (Text.sort ["/a.jsx"]) := by rfl
  rw [h]
  unfold Text.sort
  rw [List.mergeSort_singleton]

theorem get?_onePage (src : Text) : (onePage src).root.get? ["a.jsx"] = some (.file src 0o600) := by rfl

theorem annotate_threeDeep (p : Parsers) :
    (annotate threeDeepGrammars p threeDeep.options "/a.jsx" threeDeepText).1 =
      .ok ⟨threeDeep.findings, threeDeep.result⟩ :=
  (annotate_eq_document (show Grammar.ofPath? "/a.jsx" = some .javascript by decide +kernel) (if_pos rfl) _ _
    (by decide +kernel)).trans threeDeep.document_eq

end DocRun

end DocAtlas

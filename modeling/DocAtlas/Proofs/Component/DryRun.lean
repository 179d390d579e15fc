/-
What a dry run says of the real one. A dry run makes of every file what the real run makes of it, and
then shows the change as a diff; its report differs only where there is no diff, and there is one exactly
if the lines of the file survive. They do if every block comes at the start of a line. A block above a
component that has something else before it on its line cuts that line in two, and then the dry run
reports a fault for a file that the real run updates: the last section has such a file.
-/
import DocAtlas.Proofs.Component.Accounting
import DocAtlas.Proofs.Edit.Surviving

namespace DocAtlas

namespace Survey

variable (s : Survey)

/-- Whether only blanks stand before an offset on its line. -/
def StartsLine (src : Text) (offset : Nat) : Prop := ∀ b ∈ Insertion.lineLead src offset, Doc.IsIndent b

instance (src : Text) (offset : Nat) : Decidable (StartsLine src offset) := inferInstanceAs (Decidable (∀ _ ∈ _, _))

/-- A block at the start of a line cuts it into the lines of the block and itself. -/
theorem cutsLine {i : Insertion} (h : i ∈ s.insertions) (hstart : StartsLine s.src i.offset.toNat) :
    i.CutsLine s.src := by
  refine ⟨(s.length_pos_of_insertion h).2, ?_⟩
  obtain ⟨p, hp, rfl⟩ := List.mem_map.1 (s.map_insertion_placements ▸ h)
  have hindent : lineIndent s.src p.insertion.offset.toNat = Insertion.lineLead s.src p.insertion.offset.toNat := by
    refine if_pos (List.all_eq_true.2 fun b hb => ?_)
    simpa [Doc.IsIndent] using hstart b hb
  have hoffset := s.offset_of_placed (s.placed hp)
  rw [← hindent, hoffset, (s.placed hp).insertion]
  exact ⟨_, List.append_assoc ..⟩

end Survey

namespace DocRun

/-- An outcome without what a dry run shows. -/
def withoutDiff : Except FileFault FileReport → Except FileFault FileReport
  | .error f => .error f
  | .ok f => .ok { f with diff := [] }

/-- The lines of a source survive its documentation. -/
def LinesSurvive (gs : Grammars) (options : DocOptions) (path src : Text) : Prop :=
  ∀ p doc, (annotate gs p options path src).1 = .ok doc → (Patch.linesOf src).Sublist (Patch.linesOf doc.output)

/-- They survive if every block comes at the start of a line. -/
theorem linesSurvive_of_startsLine {gs : Grammars} {options : DocOptions} {path src : Text}
    (h : ∀ p doc, (annotate gs p options path src).1 = .ok doc →
      ∀ i ∈ doc.insertions, Survey.StartsLine src i.offset.toNat) : LinesSurvive gs options path src := by
  intro p doc hdoc
  obtain ⟨s, rfl, -, rfl⟩ := annotate_ok hdoc
  exact Insertion.linesOf_apply s.apply_insertions fun i hi => s.cutsLine hi (h p _ hdoc i hi)

/-- Of a file that can be read and written, and whose lines survive, a dry run says what the real run says. If they
do not survive it says that there is a fault, and in the real run there is none. -/
theorem treat_dryRun (gs : Grammars) (s : DocSettings) (path rel src : Text) :
    let dry := (treat gs .full { s with dryRun := true } path rel src).outcome
    let real := (treat gs .full { s with dryRun := false } path rel src).outcome
    (LinesSurvive gs s.options path src ∧ withoutDiff dry = withoutDiff real) ∨
      (¬ LinesSurvive gs s.options path src ∧ ∃ f g, dry = .error f ∧ real = .ok g) := by
  unfold treat
  cases hdoc : (annotate gs (.fresh 0) s.options path src).1 with
  | error f =>
    refine .inl ⟨fun p doc h => ?_, by rfl⟩
    rw [annotate_congr gs p (.fresh 0), hdoc] at h
    cases h
  | ok doc =>
    have hsurvive : LinesSurvive gs s.options path src ↔ (Patch.linesOf src).Sublist (Patch.linesOf doc.output) := by
      constructor
      · exact fun h => h _ doc hdoc
      · intro h p doc' hdoc'
        rw [annotate_congr gs p (.fresh 0), hdoc] at hdoc'
        cases hdoc'
        exact h
    by_cases hnone : doc.insertions = []
    · -- without insertions there is nothing to show
      have hsame : doc.output = src := by
        obtain ⟨sv, hsrc, -, rfl⟩ := annotate_ok hdoc
        have hnil : sv.insertions = [] := hnone
        simp only [Survey.result, hnil, Insertion.weave_nil, hsrc]
      exact .inl ⟨hsurvive.2 (by rw [hsame]), by simp [hnone]⟩
    rw [hsurvive, ← Patch.diff_ok_iff rel]
    cases hdiff : Patch.diff rel src doc.output with
    | ok diff => exact .inl ⟨⟨diff, rfl⟩, by simp [Access.full, hnone, hdiff, withoutDiff, reportOf]⟩
    | error e => exact .inr ⟨by simp, by simp [Access.full, hnone, hdiff]⟩

/-! ## Reports -/

/-- A report without what a dry run shows. -/
def reportWithoutDiffs (r : DocReport) : DocReport := { r with files := r.files.map fun f => { f with diff := [] } }

theorem reportWithoutDiffs_addOutcome (r : DocReport) (o : Except FileFault FileReport) :
    reportWithoutDiffs (addOutcome r o) = addOutcome (reportWithoutDiffs r) (withoutDiff o) := by
  cases o with
  | error f => rfl
  | ok f => simp [reportWithoutDiffs, addOutcome, withoutDiff]

theorem reportWithoutDiffs_foldl (os : List (Except FileFault FileReport)) (r : DocReport) :
    reportWithoutDiffs (os.foldl addOutcome r) = (os.map withoutDiff).foldl addOutcome (reportWithoutDiffs r) := by
  induction os generalizing r with
  | nil => rfl
  | cons o os ih => rw [List.foldl_cons, ih, reportWithoutDiffs_addOutcome]; rfl

/-- Two runs over the same files, of which the first has a fault where the outcomes differ, report the same
exactly if no outcomes differ. -/
theorem foldl_addOutcome_eq_iff {paths : List Text} {dry real : Text → Except FileFault FileReport} {name : Text → Text}
    (hname : (paths.map name).Nodup) (hdry : ∀ p ∈ paths, outcomePath (dry p) = name p)
    (hreal : ∀ p ∈ paths, outcomePath (real p) = name p) {survive : Text → Prop}
    (h : ∀ p ∈ paths, (survive p ∧ withoutDiff (dry p) = withoutDiff (real p)) ∨
      (¬ survive p ∧ ∃ f g, dry p = .error f ∧ real p = .ok g)) (r : DocReport) :
    reportWithoutDiffs ((paths.map dry).foldl addOutcome r) = reportWithoutDiffs ((paths.map real).foldl addOutcome r) ↔
      ∀ p ∈ paths, survive p := by
  constructor
  · intro heq p hp
    by_contra hno
    obtain ⟨hyes, -⟩ | ⟨-, f, g, hf, hg⟩ := h p hp
    · exact hno hyes
    -- the fault of this file is among the faults of the real run, so it is that of a file of the same name
    have hfaults := congrArg DocReport.faults heq
    simp only [reportWithoutDiffs] at hfaults
    rw [(foldl_addOutcome _ r).2.2.2, (foldl_addOutcome _ r).2.2.2] at hfaults
    have hmem : f ∈ (paths.map dry).filterMap fault? := by
      rw [List.mem_filterMap]
      exact ⟨_, List.mem_map.2 ⟨p, hp, rfl⟩, fault?_eq_some.2 hf⟩
    rw [List.append_cancel_left hfaults] at hmem
    obtain ⟨o, ho, hfault⟩ := List.mem_filterMap.1 hmem
    obtain ⟨q, hq, rfl⟩ := List.mem_map.1 ho
    have hq' := fault?_eq_some.1 hfault
    have hsame : q = p := by
      refine List.inj_on_of_nodup_map hname hq hp ?_
      rw [← hreal q hq, ← hdry p hp, hf, hq']
    rw [hsame, hg] at hq'
    cases hq'
  · intro hall
    rw [reportWithoutDiffs_foldl, reportWithoutDiffs_foldl, List.map_map, List.map_map]
    congr 1
    refine List.map_congr_left fun p hp => ?_
    obtain ⟨-, heq⟩ | ⟨hno, -⟩ := h p hp
    · exact heq
    · exact absurd (hall p hp) hno

/-! ## Runs -/

/-- The files that a run visits. -/
def Visited (s : DocSettings) (cancelAfter : Option Nat) (d : Disk) (path : Text) : Prop :=
  ∃ paths, Discovery.discover d (Path.absolute d.cwd s.dir) s.discovery = .ok paths ∧
    path ∈ paths.take (cancelAfter.getD paths.length)

/-- Apart from the diffs a dry run reports what the real run reports, exactly if the lines of every file
visited survive. -/
theorem reports_eq_iff (gs : Grammars) (s : DocSettings) (cancelAfter : Option Nat) {d : Disk} (hd : d.Plain)
    (parsers : Parsers) (metrics : Metrics) :
    (run gs { s with dryRun := true } cancelAfter d parsers metrics).report.map reportWithoutDiffs =
        (run gs { s with dryRun := false } cancelAfter d parsers metrics).report.map reportWithoutDiffs ↔
      ∀ path, Visited s cancelAfter d path → LinesSurvive gs s.options path (contentAt d path) := by
  obtain ⟨root, hnames, hroot⟩ := Path.absolute_eq hd.cwd s.dir
  unfold Visited
  cases hdiscover : Discovery.discover d (Path.absolute d.cwd s.dir) s.discovery with
  | error f => simp [run, runBy, hdiscover]
  | ok paths =>
    rw [hroot] at hdiscover
    obtain ⟨hv, hdry, -⟩ := runBy_eq gs .full { s with dryRun := true } cancelAfter hd parsers metrics hnames
      hroot hdiscover
    obtain ⟨-, hreal, -⟩ := runBy_eq gs .full { s with dryRun := false } cancelAfter hd parsers metrics hnames
      hroot hdiscover
    simp only [run, hdry, hreal, Option.map_some, Option.some.injEq, Except.ok.injEq, exists_eq_left']
    exact foldl_addOutcome_eq_iff (nodup_relativeTo hd hv) (fun _ _ => (becomes_treat ..).outcomePath)
      (fun _ _ => (becomes_treat ..).outcomePath) (fun path _ => treat_dryRun gs s path _ _) _

/-- A dry run ends as the real run does. Apart from the diffs it reports the same exactly if the lines of
every file visited survive, and they do if all blocks come at the start of a line. -/
theorem dryRun_predicts_iff (gs : Grammars) (s : DocSettings) (cancelAfter : Option Nat) (d : Disk) (parsers : Parsers)
    (metrics : Metrics) (hd : d.Plain) :
    let dry := run gs { s with dryRun := true } cancelAfter d parsers metrics
    let real := run gs { s with dryRun := false } cancelAfter d parsers metrics
    dry.fault = real.fault ∧
      (dry.report.map reportWithoutDiffs = real.report.map reportWithoutDiffs ↔
        ∀ path, Visited s cancelAfter d path → LinesSurvive gs s.options path (contentAt d path)) ∧
      ((∀ path, Visited s cancelAfter d path → ∀ p doc, (annotate gs p s.options path (contentAt d path)).1 = .ok doc →
          ∀ i ∈ doc.insertions, Survey.StartsLine (contentAt d path) i.offset.toNat) →
        dry.report.map reportWithoutDiffs = real.report.map reportWithoutDiffs) := by
  intro dry real
  have hiff := reports_eq_iff gs s cancelAfter hd parsers metrics
  refine ⟨?_, hiff, fun hstart => hiff.2 fun path hpath => linesSurvive_of_startsLine (hstart path hpath)⟩
  simp only [dry, real, run, runBy]
  cases Discovery.discover d (Path.absolute d.cwd s.dir) s.discovery <;> rfl

theorem visited_onePage {src path : Text} {options : DocOptions} :
    Visited (everyFile options) none (onePage src) path ↔ path = "/a.jsx" := by
  unfold Visited
  rw [absolute_onePage, discover_onePage]
  simp

open Survey

/-- A block that goes above the first line is predicted. -/
theorem threeDeep_dryRun_predicts : (onePage threeDeepText).Plain ∧
    let dry := run threeDeepGrammars { everyFile threeDeep.options with dryRun := true } none (onePage threeDeepText)
      (.fresh 1) Metrics.empty
    let real := run threeDeepGrammars { everyFile threeDeep.options with dryRun := false } none (onePage threeDeepText)
      (.fresh 1) Metrics.empty
    dry.report.map reportWithoutDiffs = real.report.map reportWithoutDiffs := by
  have hd := plain_onePage threeDeepText
  refine ⟨hd, (dryRun_predicts_iff threeDeepGrammars (everyFile threeDeep.options) none _ (.fresh 1) Metrics.empty
    hd).2.2 ?_⟩
  intro path hpath p doc hdoc
  rw [visited_onePage.1 hpath] at hdoc ⊢
  have hcontent : contentAt (onePage threeDeepText) "/a.jsx" = threeDeepText := contentAt_rooted hd (get?_onePage _)
  rw [hcontent] at hdoc ⊢
  obtain rfl := Except.ok.inj ((annotate_threeDeep p).symm.trans hdoc)
  decide +kernel

/-! ## A line that is cut -/

def cutText : Text := "x; function A() \x7b return <a/>; \x7d\n"

/-- The survey of a component with a statement before it on its line. -/
def cut : Survey where
  options := threeDeep.options
  tree := ⟨cutText, .named "program" none 0 33
    [.named "expression_statement" none 0 2 [.named "identifier" none 0 1 [], .token ";" 1 2], plainFunction 3 32 []]⟩
  src := cutText

/-- The dry run has a fault for a file that the real run updates. -/
theorem cut_not_predicted :
    ¬ ∀ (gs : Grammars) (s : DocSettings) (cancelAfter : Option Nat) (d : Disk) (parsers : Parsers)
    (metrics : Metrics), d.Plain →
      (run gs { s with dryRun := true } cancelAfter d parsers metrics).report.map reportWithoutDiffs =
        (run gs { s with dryRun := false } cancelAfter d parsers metrics).report.map reportWithoutDiffs := by
  intro h
  have hd := plain_onePage cutText
  have hsame := h (fun _ _ => some cut.tree.root) (everyFile cut.options) none _ (.fresh 1) Metrics.empty hd
  have hsurvive := (reports_eq_iff _ (everyFile cut.options) none hd _ _).1 hsame "/a.jsx" (visited_onePage.2 rfl)
  have hcontent : contentAt (onePage cutText) "/a.jsx" = cutText := contentAt_rooted hd (get?_onePage _)
  rw [hcontent] at hsurvive
  have hdoc : (annotate (fun _ _ => some cut.tree.root) (.fresh 0) cut.options "/a.jsx" cutText).1 =
    .ok ⟨cut.findings, cut.result⟩ :=
    (annotate_eq_document (show Grammar.ofPath? "/a.jsx" = some .javascript by decide +kernel) rfl _ _
      (by decide +kernel)).trans cut.document_eq
  exact absurd (hsurvive (.fresh 0) _ hdoc) (by decide +kernel)

end DocRun

end DocAtlas

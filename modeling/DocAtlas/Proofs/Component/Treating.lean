/-
What a documentation run makes of one file. It depends on the path and the content of the file, and on what the
system allows with it: the parsers at work have no part in it, and on a disk without links processing the file
writes to that file and to no other. Of all that can become of a file two things give it a new content: it is
updated, and then it is reported so, or the write breaks off, and then it has a fault.
-/
import DocAtlas.Component.Run
import DocAtlas.Proofs.Component.Settling
import DocAtlas.Proofs.Files.Trees

namespace DocAtlas

/-! ## Annotating -/

/-- The parsers at work have no part in what is made of a source. -/
theorem annotate_congr (gs : Grammars) (p p' : Parsers) (options : DocOptions) (path src : Text) :
    (annotate gs p options path src).1 = (annotate gs p' options path src).1 := by
  have hparse : (p.parseFile gs path src).fault = (p'.parseFile gs path src).fault ∧
      (p.parseFile gs path src).tree = (p'.parseFile gs path src).tree := by
    unfold Parsers.parseFile Parsers.parse
    cases Grammar.ofPath? path with
    | none => exact ⟨rfl, rfl⟩
    | some g =>
      cases hroot : gs g src with
      | none => simp only [hroot, and_self]
      | some root =>
        cases hfault : ParseFault.ofTree? ⟨src, root⟩ <;> simp only [hroot, hfault, and_self]
  unfold annotate
  simp only [hparse.1, hparse.2]
  split
  · rfl
  · rfl
  · split <;> rfl

/-- What was made of a source is what the survey of a tree of it finds, and the source with its insertions. -/
theorem annotate_ok {gs : Grammars} {p : Parsers} {options : DocOptions} {path src : Text} {doc : Documented}
    (h : (annotate gs p options path src).1 = .ok doc) :
    ∃ s : Survey, s.src = src ∧ s.options = options ∧ doc = ⟨s.findings, s.result⟩ := by
  unfold annotate at h
  simp only at h
  split at h
  · cases h
  · cases h
  · rename_i tree _ htree
    have hdoc := (Survey.mk options tree src).document_eq
    simp only at hdoc
    rw [hdoc] at h
    injection h with h
    exact ⟨⟨options, tree, src⟩, rfl, rfl, h.symm⟩

namespace Documented

end Documented

namespace Survey

variable (s : Survey)

theorem length_pos_of_insertion {i : Insertion} (h : i ∈ s.insertions) :
    0 < i.text.length ∧ i.offset.toNat < s.src.length := by
  obtain ⟨p, hp, rfl⟩ := List.mem_map.1 (s.map_insertion_placements ▸ h)
  have hp := s.placed hp
  have := hp.nonempty
  have := hp.stop
  rw [hp.insertion]
  have hnewline : (Text.ofString "\n").length = 1 := by decide
  constructor
  · simp only [blockFor, List.length_append, hnewline]
    omega
  · simp only [Int.toNat_natCast]
    omega

end Survey

namespace DocRun

/-! ## One file -/

/-- What becomes of a file: what is reported of it, and the content it has afterwards. -/
structure Treatment where
  outcome : Except FileFault FileReport
  content : Text

/-- The report of a file for which no diff is shown. -/
def reportOf (rel : Text) (doc : Documented) : FileReport :=
  ⟨rel, doc.components, doc.skips, !doc.insertions.isEmpty, []⟩

/-- What becomes of the file at an absolute path that is `rel` below the root. -/
def treat (gs : Grammars) (access : Access) (s : DocSettings) (path rel src : Text) : Treatment :=
  match access.unread? path with
  | some f => ⟨.error ⟨rel, "read", f⟩, src⟩
  | none =>
    match (annotate gs (.fresh 0) s.options path src).1 with
    | .error f => ⟨.error (annotateFault rel f), src⟩
    | .ok doc =>
      if doc.insertions.isEmpty then ⟨.ok (reportOf rel doc), src⟩
      else if s.dryRun then
        match Patch.diff rel src doc.output with
        | .ok diff => ⟨.ok { reportOf rel doc with diff }, src⟩
        | .error e => ⟨.error ⟨rel, "edit", .notInsertion e⟩, src⟩
      else
        match access.write path with
        | .whole => ⟨.ok (reportOf rel doc), doc.output⟩
        | .refused f => ⟨.error ⟨rel, "write", f⟩, src⟩
        | .broken count f => ⟨.error ⟨rel, "write", f⟩, doc.output.take count⟩

variable {gs : Grammars} {access : Access} {s : DocSettings} {path rel src : Text}

/-- Processing a file of a disk is treating its content, and writes to that file only. -/
theorem processFile_eq (gs : Grammars) (access : Access) (s : DocSettings) {d : Disk} (hd : d.Plain) {ps : List Text}
    {mode : Nat} (h : d.root.get? ps = some (.file src mode)) (parsers : Parsers) (rel : Text) :
    let t := treat gs access s (Path.rooted ps) rel src
    let p := processFile gs access s.options s.dryRun d parsers (Path.rooted ps) rel
    p.1 = t.outcome ∧
      p.2.2.2 = { d with root := d.root.rewrite fun qs content => if qs = ps then t.content else content } := by
  have hkeep : d = { d with root := d.root.rewrite fun qs content => if qs = ps then src else content } := by
    rw [Entry.rewrite_same hd.noLinks h]
  -- which parsers are at work differs, not what they give
  have hannotate := annotate_congr gs (.fresh 0) parsers s.options (Path.rooted ps) src
  intro t p
  cases hread : access.unread? (Path.rooted ps) with
  | some f =>
    simp only [t, p, treat, processFile, Disk.readBy, hread]
    exact ⟨trivial, hkeep⟩
  | none =>
    simp only [t, p, treat, processFile, Disk.readBy, hread, hannotate, Disk.readFile_rooted hd h, Except.mapError]
    obtain ⟨res, log, parsers'⟩ := annotate gs parsers s.options (Path.rooted ps) src
    cases res with
    | error f => exact ⟨rfl, hkeep⟩
    | ok doc =>
      simp only
      split
      · exact ⟨rfl, hkeep⟩
      split
      · cases hdiff : Patch.diff rel src doc.output <;> exact ⟨rfl, hkeep⟩
      · cases hwrite : access.write (Path.rooted ps) with
        | refused f =>
          simp only [Disk.writeBy, hwrite]
          exact ⟨trivial, hkeep⟩
        | whole | broken =>
          simp only [Disk.writeBy, hwrite, Disk.writeFile_rooted hd h, reportOf, and_self]

/-- All that can become of a file. -/
inductive Becomes (gs : Grammars) (access : Access) (s : DocSettings) (path rel src : Text) : Treatment → Prop
  | unread {f : Fault} : access.unread? path = some f → Becomes gs access s path rel src ⟨.error ⟨rel, "read", f⟩, src⟩
  | faulty {f : Fault} : access.unread? path = none → (annotate gs (.fresh 0) s.options path src).1 = .error f →
      Becomes gs access s path rel src ⟨.error (annotateFault rel f), src⟩
  | skipped {doc : Documented} : access.unread? path = none → (annotate gs (.fresh 0) s.options path src).1 = .ok doc →
      doc.insertions = [] → Becomes gs access s path rel src ⟨.ok (reportOf rel doc), src⟩
  | shown {doc : Documented} {diff : Text} : access.unread? path = none →
      (annotate gs (.fresh 0) s.options path src).1 = .ok doc → doc.insertions ≠ [] → s.dryRun = true →
        Patch.diff rel src doc.output = .ok diff →
          Becomes gs access s path rel src ⟨.ok { reportOf rel doc with diff }, src⟩
  | unshown {doc : Documented} {e : Patch.NotInsertion} : access.unread? path = none →
      (annotate gs (.fresh 0) s.options path src).1 = .ok doc → doc.insertions ≠ [] → s.dryRun = true →
        Patch.diff rel src doc.output = .error e →
          Becomes gs access s path rel src ⟨.error ⟨rel, "edit", .notInsertion e⟩, src⟩
  | updated {doc : Documented} : access.unread? path = none → (annotate gs (.fresh 0) s.options path src).1 = .ok doc →
      doc.insertions ≠ [] → s.dryRun = false → access.write path = .whole →
        Becomes gs access s path rel src ⟨.ok (reportOf rel doc), doc.output⟩
  | unopened {doc : Documented} {f : Fault} : access.unread? path = none →
      (annotate gs (.fresh 0) s.options path src).1 = .ok doc → doc.insertions ≠ [] → s.dryRun = false →
        access.write path = .refused f → Becomes gs access s path rel src ⟨.error ⟨rel, "write", f⟩, src⟩
  | brokenOff {doc : Documented} {count : Nat} {f : Fault} : access.unread? path = none →
      (annotate gs (.fresh 0) s.options path src).1 = .ok doc → doc.insertions ≠ [] → s.dryRun = false →
        access.write path = .broken count f →
          Becomes gs access s path rel src ⟨.error ⟨rel, "write", f⟩, doc.output.take count⟩

theorem becomes_treat (gs : Grammars) (access : Access) (s : DocSettings) (path rel src : Text) :
    Becomes gs access s path rel src (treat gs access s path rel src) := by
  unfold treat
  cases hread : access.unread? path with
  | some f => exact .unread hread
  | none =>
    cases hdoc : (annotate gs (.fresh 0) s.options path src).1 with
    | error f => exact .faulty hread hdoc
    | ok doc =>
      by_cases hnone : doc.insertions = []
      · simpa [hnone] using Becomes.skipped hread hdoc hnone
      cases hdry : s.dryRun with
      | true =>
        cases hdiff : Patch.diff rel src doc.output with
        | ok diff => simpa [hnone, hdiff] using Becomes.shown hread hdoc hnone hdry hdiff
        | error e => simpa [hnone, hdiff] using Becomes.unshown hread hdoc hnone hdry hdiff
      | false =>
        cases hwrite : access.write path with
        | whole => simpa [hnone] using Becomes.updated hread hdoc hnone hdry hwrite
        | refused f => simpa [hnone] using Becomes.unopened hread hdoc hnone hdry hwrite
        | broken count f => simpa [hnone] using Becomes.brokenOff hread hdoc hnone hdry hwrite

/-- The path an outcome speaks of. -/
def outcomePath : Except FileFault FileReport → Text
  | .error f => f.path
  | .ok f => f.path

/-- The report of a file without a fault. -/
def report? : Except FileFault FileReport → Option FileReport
  | .error _ => none
  | .ok f => some f

def fault? : Except FileFault FileReport → Option FileFault
  | .error f => some f
  | .ok _ => none

@[simp] theorem report?_eq_some {o : Except FileFault FileReport} {f : FileReport} :
    report? o = some f ↔ o = .ok f := by
  cases o <;> simp [report?]

@[simp] theorem fault?_eq_some {o : Except FileFault FileReport} {f : FileFault} :
    fault? o = some f ↔ o = .error f := by
  cases o <;> simp [fault?]

theorem Becomes.outcomePath {t : Treatment} (h : Becomes gs access s path rel src t) :
    DocRun.outcomePath t.outcome = rel := by
  cases h <;> rfl

/-- A report of the file at a path, of what was made of its content. In a real run the content becomes `new`, the old
one with the insertions, and if there are some the system let the file be written. -/
structure Reports (gs : Grammars) (access : Access) (s : DocSettings) (parsers : Parsers) (path src : Text)
    (f : FileReport) (new : Text) (doc : Documented) : Prop where
  read : access.unread? path = none
  made : (annotate gs parsers s.options path src).1 = .ok doc
  components : f.components = doc.components
  skips : f.skips = doc.skips
  updated : f.updated = !doc.insertions.isEmpty
  content : s.dryRun = false → Insertion.apply src doc.insertions = .ok new
  written : s.dryRun = false → f.updated = true → access.write path = .whole

/-- Why the file at a path has a fault, and what is its content afterwards: a part of the new one if the write broke
off, and else the old one. -/
inductive Cause (gs : Grammars) (access : Access) (s : DocSettings) (parsers : Parsers) (path rel src : Text) :
    FileFault → Text → Prop
  | read {f : Fault} : access.unread? path = some f → Cause gs access s parsers path rel src ⟨rel, "read", f⟩ src
  | annotate {f : Fault} : access.unread? path = none → (annotate gs parsers s.options path src).1 = .error f →
      Cause gs access s parsers path rel src (annotateFault rel f) src
  | diff {doc : Documented} {e : Patch.NotInsertion} : access.unread? path = none →
      (DocAtlas.annotate gs parsers s.options path src).1 = .ok doc → s.dryRun = true →
        Patch.diff rel src doc.output = .error e →
          Cause gs access s parsers path rel src ⟨rel, "edit", .notInsertion e⟩ src
  | opening {doc : Documented} {f : Fault} : access.unread? path = none →
      (DocAtlas.annotate gs parsers s.options path src).1 = .ok doc → doc.insertions ≠ [] → s.dryRun = false →
        access.write path = .refused f → Cause gs access s parsers path rel src ⟨rel, "write", f⟩ src
  | writing {doc : Documented} {count : Nat} {f : Fault} {new : Text} : access.unread? path = none →
      (DocAtlas.annotate gs parsers s.options path src).1 = .ok doc → doc.insertions ≠ [] → s.dryRun = false →
        Insertion.apply src doc.insertions = .ok new → access.write path = .broken count f →
          Cause gs access s parsers path rel src ⟨rel, "write", f⟩ (new.take count)

/-- What was made of a source is the source with the insertions. -/
theorem apply_of_annotate {p : Parsers} {options : DocOptions} {doc : Documented}
    (h : (annotate gs p options path src).1 = .ok doc) : Insertion.apply src doc.insertions = .ok doc.output := by
  obtain ⟨sv, rfl, -, rfl⟩ := annotate_ok h
  exact sv.apply_insertions

namespace Becomes

variable {t : Treatment} (h : Becomes gs access s path rel src t) (parsers : Parsers)

include h

theorem reports {f : FileReport} (hok : t.outcome = .ok f) :
    ∃ doc, Reports gs access s parsers path src f t.content doc := by
  have hannotate := annotate_congr gs (.fresh 0) parsers s.options path src
  cases h with
  | skipped hread hdoc hnone =>
    cases hok
    rw [hannotate] at hdoc
    refine ⟨_, hread, hdoc, rfl, rfl, rfl, fun _ => ?_, fun _ hup => ?_⟩
    · rw [hnone]
      exact (Insertion.apply_eq_weave (by simp)).trans (by rw [Insertion.weave_nil])
    · simp [reportOf, hnone] at hup
  | shown hread hdoc _ hdry _ =>
    cases hok
    rw [hannotate] at hdoc
    have hno : s.dryRun ≠ false := by simp [hdry]
    exact ⟨_, hread, hdoc, rfl, rfl, rfl, fun hreal => absurd hreal hno, fun hreal => absurd hreal hno⟩
  | updated hread hdoc _ _ hwrite =>
    cases hok
    rw [hannotate] at hdoc
    exact ⟨_, hread, hdoc, rfl, rfl, rfl, fun _ => apply_of_annotate hdoc, fun _ _ => hwrite⟩
  | unread | faulty | unshown | unopened | brokenOff => cases hok

theorem cause {f : FileFault} (herr : t.outcome = .error f) :
    Cause gs access s parsers path rel src f t.content := by
  have hannotate := annotate_congr gs (.fresh 0) parsers s.options path src
  cases h with
  | unread hread => cases herr; exact .read hread
  | faulty hread hf => cases herr; exact .annotate hread (hannotate ▸ hf)
  | unshown hread hdoc _ hdry hdiff => cases herr; exact .diff hread (hannotate ▸ hdoc) hdry hdiff
  | unopened hread hdoc hsome hreal hwrite => cases herr; exact .opening hread (hannotate ▸ hdoc) hsome hreal hwrite
  | brokenOff hread hdoc hsome hreal hwrite =>
    cases herr
    rw [hannotate] at hdoc
    exact .writing hread hdoc hsome hreal (apply_of_annotate hdoc) hwrite
  | skipped | shown | updated => cases herr

end Becomes

end DocRun

end DocAtlas

/-
A save that is refused something anywhere tears nothing (`saveBy_untorn`). The documents come to their places
one after the other, each at once, so at every moment the first of them are new, the others are as they were, and
beside them stands one draft at most. If a document cannot be written, the save fails with it: those before it
are new, and everything else that is no directory is as it was, but for the draft if its removal was refused too.
Where nothing is refused and no temporary name is taken, this is the save (`saveBy_quiet`).
-/
import DocAtlas.Proofs.Knowledge.Drafting

namespace DocAtlas.Archive

variable {d x y : Disk} {dir : Text} {ps : List Text} {docs : List (Text × Json)} {drafts : Text → Prop}

/-! ## Disks along a save -/

/-- A disk some way along a save: some documents were written in the directory at `ps`, there may be a draft of
some others under a name that was free, and everything else that is no directory is as it was. -/
structure Reached (d x : Disk) (ps : List Text) (written : List (Text × Json)) (drafts : Text → Prop) : Prop where
  keeps : d.KeepsDirs x
  inPlace : ∀ doc ∈ written, x.held (ps ++ [doc.1]) = some (.file (documentText doc.2) 0o644)
  others : ∀ q, (∀ doc ∈ written, q ≠ ps ++ [doc.1]) → x.held q = d.held q ∨
    ∃ name ending, drafts name ∧ q = ps ++ [temporary name ending] ∧ d.root.get? q = none

theorem Reached.of_made (h : Disk.Made d x) : Reached d x ps [] drafts :=
  ⟨h.keeps, List.forall_mem_nil _, fun q _ => .inl (h.held q)⟩

/-- Where nothing stands afterwards, nothing stood before, unless a document is there. -/
theorem Reached.free (h : Reached d x ps docs fun _ => False) {q : List Text} (hq : ∀ doc ∈ docs, q ≠ ps ++ [doc.1])
    (hfree : x.root.get? q = none) : d.root.get? q = none := by
  have hheld : x.held q = d.held q := (h.others q hq).resolve_right fun ⟨_, _, hfalse, _⟩ => hfalse
  cases hget : d.root.get? q with
  | none => rfl
  | some e =>
    cases hdir : e.isDir with
    | true =>
      cases e with
      | dir es =>
        obtain ⟨es', hes'⟩ := h.keeps.kept q es hget
        rw [hfree] at hes'
        cases hes'
      | _ => cases hdir
    | false =>
      have hx := (Entry.held_eq_some hdir).1 (hheld.trans ((Entry.held_eq_some hdir).2 hget))
      rw [hfree] at hx
      cases hx

/-- One part of a save after another. -/
theorem Reached.trans {more : List (Text × Json)} (h : Reached d x ps docs fun _ => False)
    (h' : Reached x y ps more drafts) (hdistinct : ∀ a ∈ docs, ∀ b ∈ more, a.1 ≠ b.1)
    (hvisible : ∀ doc ∈ docs, doc.1.head? ≠ some 46) :
    Reached d y ps (docs ++ more) drafts where
  keeps := h.keeps.trans h'.keeps
  inPlace := by
    refine List.forall_mem_append.2 ⟨fun doc hdoc => ?_, h'.inPlace⟩
    have hother : ∀ b ∈ more, ps ++ [doc.1] ≠ ps ++ [b.1] := by
      intro b hb heq
      exact hdistinct doc hdoc b hb (by simpa using heq)
    rcases h'.others _ hother with hheld | ⟨name, ending, -, heq, -⟩
    · rw [hheld]
      exact h.inPlace doc hdoc
    · -- a document is no draft
      have hname : doc.1 = temporary name ending := by simpa using heq
      exact absurd (hname ▸ head?_temporary name ending) (hvisible doc hdoc)
  others := by
    intro q hq
    obtain ⟨hq1, hq2⟩ := List.forall_mem_append.1 hq
    have hheld : x.held q = d.held q := (h.others q hq1).resolve_right fun ⟨_, _, hfalse, _⟩ => hfalse
    rcases h'.others q hq2 with hheld' | ⟨name, ending, hname, heq, hfree⟩
    · exact .inl (hheld'.trans hheld)
    · exact .inr ⟨name, ending, hname, heq, h.free hq1 hfree⟩

theorem reached_withDraft (hd : d.Orderly) {name : Text} {ending : Nat} (h : d.Spare dir (temporary name ending) ps)
    (content : Text) (mode : Nat) (hname : drafts name) :
      Reached d (withDraft d name ending ps content mode) ps [] drafts where
  keeps := (h.isRenewed hd content mode).toKeepsDirs
  inPlace := List.forall_mem_nil _
  others q _ := by
    by_cases hq : q = ps ++ [temporary name ending]
    · exact .inr ⟨name, ending, hname, hq, hq ▸ h.free⟩
    · obtain ⟨es, hget, hnone⟩ := h.exists_dir hd.here
      exact .inl (Entry.held_set hget (fun fs => by simp [hnone]) (fun _ _ => rfl) hq)

section

variable {name text : Text} (hd : d.Orderly) (h : Replaced d dir name text x ps)

include hd h

/-- The directory of a document, in which none has its name. -/
theorem Replaced.exists_dir : ∃ es, d.root.get? ps = some (.dir es) ∧ ∀ fs, Table.find? name es ≠ some (.dir fs) := by
  obtain ⟨es, -, hget⟩ := h.leads.exists_dir hd.here
  refine ⟨es, hget, fun fs => ?_⟩
  rw [← Entry.get?_concat hget]
  exact h.noDir fs

theorem Replaced.orderly (hname : Path.IsName name) : x.Orderly := by
  obtain ⟨es, hget, hnone⟩ := h.exists_dir hd
  rw [h.eq]
  exact hd.withEntry hget hnone hname (Entry.orderly_file _ _)

theorem Replaced.isRenewed : d.IsRenewed x := by
  obtain ⟨es, hget, hnone⟩ := h.exists_dir hd
  rw [h.eq]
  exact Disk.isRenewed_withEntry hget hnone _ _

end

theorem Replaced.reached (hd : d.Orderly) {doc : Text × Json} (h : Replaced d dir doc.1 (documentText doc.2) x ps) :
    Reached d x ps [doc] drafts where
  keeps := (h.isRenewed hd).toKeepsDirs
  inPlace := by
    obtain ⟨es, hget, -⟩ := h.exists_dir hd
    rw [List.forall_mem_singleton, h.eq]
    exact (Entry.held_eq_some rfl).2 (Entry.get?_set_self hget)
  others q hq := by
    obtain ⟨es, hget, hnone⟩ := h.exists_dir hd
    rw [h.eq]
    exact .inl (Entry.held_set hget hnone (fun _ _ => rfl) (hq doc (List.mem_singleton_self doc)))

theorem Stage.reached (hd : d.Orderly) (hps : ∀ qs, d.LeadsTo dir qs → qs = ps) {name : Text} (h : Stage d dir name x)
    (hname : drafts name) : Reached d x ps [] drafts := by
  cases h with
  | before => exact .of_made (.refl hd)
  | draft h content mode =>
    obtain rfl := hps _ h.leads
    exact reached_withDraft hd h content mode hname

theorem Remains.reached (hd : d.Orderly) (hps : ∀ qs, d.LeadsTo dir qs → qs = ps) {name : Text}
    {refused : Operation → Option Fault} (h : Remains d dir name refused x)
    (hname : refused .remove ≠ none → drafts name) : Reached d x ps [] drafts := by
  rcases h with rfl | ⟨hrefused, ending, qs, content, mode, h, rfl⟩
  · exact .of_made (.refl hd)
  · obtain rfl := hps _ h.leads
    exact reached_withDraft hd h content mode (hname hrefused)

/-! ## One document after another -/

/-- The name of the document after the first `j`. -/
def NextIs (docs : List (Text × Json)) (j : Nat) (name : Text) : Prop := ∃ doc, docs[j]? = some doc ∧ name = doc.1

/-- A course in which the first `i` of some documents were written, one after the other. -/
structure Stepwise (c : Circumstances) (d : Disk) (docs : List (Text × Json)) (r : Course) (ps : List Text) (i : Nat) :
    Prop where
  done : r.fault = none → i = docs.length
  failed : ∀ f, r.fault = some f → ∃ doc cause, docs[i]? = some doc ∧ f = .during ("write " ++ doc.1) cause
  /-- On the way the first documents are in place, and there may be a draft of the next one. -/
  later : ∀ x ∈ r.later, ∃ j ≤ i, Reached d x ps (docs.take j) (NextIs docs j)
  /-- In the end there is a draft only of a document that failed, if its removal was refused. -/
  final : Reached d r.disk ps (docs.take i) fun name => NextIs docs i name ∧ c.refused name .remove ≠ none

theorem Stepwise.le {c : Circumstances} {r : Course} {i : Nat} (h : Stepwise c d docs r ps i) : i ≤ docs.length := by
  cases hfault : r.fault with
  | none => exact (h.done hfault).le
  | some f =>
    obtain ⟨doc, -, hdoc, -⟩ := h.failed f hfault
    exact (List.getElem?_eq_some_iff.1 hdoc).1.le

section

variable {c : Circumstances} {doc : Text × Json} (hd : d.Orderly) (hps : ∀ qs, d.LeadsTo dir qs → qs = ps)
  (hname : Path.IsName doc.1)

include hd hps hname

/-- A document that cannot be written is the last one tried. -/
theorem stepwise_of_fault {f : Fault} (hfault : (replaceBy c dir doc d).fault = some f) :
    Stepwise c d (doc :: docs) (replaceBy c dir doc d) ps 0 := by
  obtain ⟨hlater, hfailed, -⟩ := keeps_replaceBy c dir hd hname
  obtain ⟨cause, hcause, hremains⟩ := hfailed f hfault
  constructor
  case done =>
    intro hnone
    cases hfault.symm.trans hnone
  case failed =>
    intro g hg
    obtain rfl := Option.some.inj (hfault.symm.trans hg)
    exact ⟨doc, cause, rfl, hcause⟩
  case later =>
    intro x hx
    rcases hlater x hx with hstage | ⟨hnone, -⟩
    · exact ⟨0, le_rfl, hstage.reached hd hps ⟨doc, rfl, rfl⟩⟩
    · cases hfault.symm.trans hnone
  case final => exact hremains.reached hd hps fun hrefused => ⟨⟨doc, rfl, rfl⟩, hrefused⟩

/-- A document that is written comes before the others, which are written from the disk with this one. -/
theorem Stepwise.cons (hvisible : doc.1.head? ≠ some 46) (hfresh : doc.1 ∉ docs.map Prod.fst)
    (hnone : (replaceBy c dir doc d).fault = none) {rest : Course} {i : Nat}
    (hrest : Stepwise c (replaceBy c dir doc d).disk docs rest ps i) :
    Stepwise c d (doc :: docs) { rest with later := (replaceBy c dir doc d).later ++ rest.later } ps (i + 1) := by
  obtain ⟨hlater, -, hdone⟩ := keeps_replaceBy c dir hd hname
  obtain ⟨qs, hreplaced⟩ := hdone hnone
  obtain rfl := hps _ hreplaced.leads
  have hreached : ∀ {x more drafts}, (∀ b ∈ more, b ∈ docs) → Reached (replaceBy c dir doc d).disk x qs more drafts →
      Reached d x qs (doc :: more) drafts := by
    intro x more drafts hmore h
    refine (hreplaced.reached hd).trans h (List.forall_mem_singleton.2 fun b hb heq => ?_)
      (List.forall_mem_singleton.2 hvisible)
    exact hfresh (heq ▸ List.mem_map_of_mem (hmore b hb))
  constructor
  case done => exact fun hnone => congrArg Nat.succ (hrest.done hnone)
  case failed => exact hrest.failed
  case later =>
    refine List.forall_mem_append.2 ⟨fun x hx => ?_, fun x hx => ?_⟩
    · rcases hlater x hx with hstage | ⟨-, qs', hx⟩
      · exact ⟨0, Nat.zero_le _, hstage.reached hd hps ⟨doc, rfl, rfl⟩⟩
      · obtain rfl := hps _ hx.leads
        exact ⟨1, Nat.le_add_left 1 i, hx.reached hd⟩
    · obtain ⟨j, hj, hx⟩ := hrest.later x hx
      exact ⟨j + 1, Nat.succ_le_succ hj, hreached (fun b hb => List.mem_of_mem_take hb) hx⟩
  case final => exact hreached (fun b hb => List.mem_of_mem_take hb) hrest.final

end

theorem stepwise_forEach (c : Circumstances) (hd : d.Orderly) (hps : ∀ qs, d.LeadsTo dir qs → qs = ps)
    (hnames : ∀ doc ∈ docs, Path.IsName doc.1 ∧ doc.1.head? ≠ some 46) (hdistinct : (docs.map Prod.fst).Nodup) :
    ∃ i, (0 < i → d.LeadsTo dir ps) ∧ Stepwise c d docs (Course.forEach (replaceBy c dir) docs d) ps i := by
  induction docs generalizing d with
  | nil =>
    exact ⟨0, fun h => absurd h (Nat.lt_irrefl 0), fun _ => rfl, fun f hf => (nomatch hf), fun x hx => (nomatch hx),
      .of_made (.refl hd)⟩
  | cons doc docs ih =>
    obtain ⟨⟨hname, hvisible⟩, hnames⟩ := List.forall_mem_cons.1 hnames
    obtain ⟨hfresh, hdistinct⟩ := List.nodup_cons.1 hdistinct
    rw [Course.forEach, Course.andThen]
    split
    · rename_i f hfault
      exact ⟨0, fun h => absurd h (Nat.lt_irrefl 0), stepwise_of_fault hd hps hname hfault⟩
    · rename_i hnone
      obtain ⟨qs, hreplaced⟩ := (keeps_replaceBy c dir hd hname).done hnone
      obtain rfl := hps _ hreplaced.leads
      obtain ⟨i, -, hrest⟩ := ih (hreplaced.orderly hd hname)
        (fun qs hqs => hps qs (hqs.before (hreplaced.isRenewed hd) hd.here)) hnames hdistinct
      exact ⟨i + 1, fun _ => hreplaced.leads, hrest.cons hd hps hname hvisible hfresh hnone⟩

/-- A document is written as soon as it is reached, and until then it is as it was. -/
theorem Reached.document {j : Nat} (h : Reached d x ps (docs.take j) drafts)
    (hvisible : ∀ doc ∈ docs, doc.1.head? ≠ some 46) (hdistinct : (docs.map Prod.fst).Nodup) {doc : Text × Json}
    (hdoc : doc ∈ docs.drop j) :
    x.held (ps ++ [doc.1]) = d.held (ps ++ [doc.1]) := by
  have hother : ∀ b ∈ docs.take j, ps ++ [doc.1] ≠ ps ++ [b.1] := by
    intro b hb heq
    have hname : b.1 = doc.1 := by simpa using heq.symm
    rw [← List.take_append_drop j docs, List.map_append, List.nodup_append] at hdistinct
    exact hdistinct.2.2 _ (List.mem_map_of_mem hb) _ (List.mem_map_of_mem hdoc) hname
  rcases h.others _ hother with hheld | ⟨name, ending, -, heq, -⟩
  · exact hheld
  · have hname : doc.1 = temporary name ending := by simpa using heq
    exact absurd (hname ▸ head?_temporary name ending) (hvisible doc (List.mem_of_mem_drop hdoc))

/-! ## Making the directory -/

theorem keeps_makeDirsWithin (c : Circumstances) (hd : d.Orderly) (fuel : Nat) (path : Text) :
    (makeDirsWithin c fuel path d).Keeps d.Made (fun _ x => d.Made x) d.Made := by
  induction fuel generalizing path with
  | zero => exact Course.keeps_stay (.refl hd)
  | succ fuel ih =>
    rw [makeDirsWithin]
    split
    · split
      · exact Course.keeps_stay (.refl hd)
      · exact Course.keeps_stop (.refl hd)
    · have hup : ∀ up : Text, (if up.isEmpty then Course.stay d else makeDirsWithin c fuel up d).Keeps
          d.Made (fun _ x => d.Made x) d.Made := by
        intro up
        split
        · exact Course.keeps_stay (.refl hd)
        · exact ih up
      refine (hup _).andThen (fun x hx => hx) fun x hx => ?_
      split
      · rename_i x' hmkdir
        exact Course.keeps_move (hx.trans (Disk.made_mkdir hx.orderly (orRefused_eq_ok.1 hmkdir).2))
      · split
        · split
          · exact Course.keeps_stay hx
          · exact Course.keeps_stop hx
        · exact Course.keeps_stop hx

/-! ## The save -/

theorem isVisible_documents (k : KnowledgeBase) (m : Manifest) : ∀ doc ∈ documents k m, doc.1.head? ≠ some 46 := by
  have hnames : ∀ name ∈ (documents k m).map Prod.fst, name.head? ≠ some 46 := by
    rw [names_documents]
    decide
  exact fun doc hdoc => hnames doc.1 (List.mem_map_of_mem hdoc)

/-- A course that wrote the first `i` of some documents in the directory at `ps` and tore nothing. -/
structure Untorn (c : Circumstances) (d : Disk) (docs : List (Text × Json)) (r : Course) (ps : List Text) (i : Nat) :
    Prop where
  /-- Without a fault every document was written. -/
  done : r.fault = none → i = docs.length
  /-- A fault is that of making the directory, before any document, or that of the first document not written. -/
  failed : ∀ f, r.fault = some f → (∃ cause, f = .during "create knowledge dir" cause ∧ i = 0) ∨
    ∃ doc cause, docs[i]? = some doc ∧ f = .during ("write " ++ doc.1) cause
  /-- At every moment a document is what it was or the complete new one. -/
  whole : ∀ x ∈ r.later, ∀ doc ∈ docs, x.held (ps ++ [doc.1]) = d.held (ps ++ [doc.1]) ∨
    x.held (ps ++ [doc.1]) = some (.file (documentText doc.2) 0o644)
  /-- At every moment the first documents are in place, and there may be a draft of the next one. -/
  later : ∀ x ∈ r.later, ∃ j ≤ i, Reached d x ps (docs.take j) (NextIs docs j)
  /-- In the end there is a draft only of a document that failed, if its removal was refused. -/
  final : Reached d r.disk ps (docs.take i) fun name => NextIs docs i name ∧ c.refused name .remove ≠ none
  /-- In the end the documents that were not written are as they were. -/
  waiting : ∀ doc ∈ docs.drop i, r.disk.held (ps ++ [doc.1]) = d.held (ps ++ [doc.1])
  /-- If no removal is refused, no draft is left, and whatever was not written is as it was. -/
  clean : (∀ doc ∈ docs, c.refused doc.1 .remove = none) → ∀ q, (∀ doc ∈ docs.take i, q ≠ ps ++ [doc.1]) →
    r.disk.held q = d.held q

/-- What was reached on the way and in the end says what became of every document. -/
theorem Untorn.of_reached {c : Circumstances} {r : Course} {i : Nat} (hvisible : ∀ doc ∈ docs, doc.1.head? ≠ some 46)
    (hdistinct : (docs.map Prod.fst).Nodup) (hdone : r.fault = none → i = docs.length)
    (hfailed : ∀ f, r.fault = some f → (∃ cause, f = .during "create knowledge dir" cause ∧ i = 0) ∨
      ∃ doc cause, docs[i]? = some doc ∧ f = .during ("write " ++ doc.1) cause)
    (hlater : ∀ x ∈ r.later, ∃ j ≤ i, Reached d x ps (docs.take j) (NextIs docs j))
    (hfinal : Reached d r.disk ps (docs.take i) fun name => NextIs docs i name ∧ c.refused name .remove ≠ none) :
    Untorn c d docs r ps i where
  done := hdone
  failed := hfailed
  whole := by
    intro x hx doc hdoc
    obtain ⟨j, -, hreached⟩ := hlater x hx
    rw [← List.take_append_drop j docs] at hdoc
    rcases List.mem_append.1 hdoc with hdoc | hdoc
    · exact .inr (hreached.inPlace doc hdoc)
    · exact .inl (hreached.document hvisible hdistinct hdoc)
  later := hlater
  final := hfinal
  waiting doc hdoc := hfinal.document hvisible hdistinct hdoc
  clean := by
    intro hremoved q hq
    rcases hfinal.others q hq with hheld | ⟨name, -, ⟨⟨doc, hdoc, rfl⟩, hrefused⟩, -⟩
    · exact hheld
    · exact absurd (hremoved doc (List.mem_of_getElem? hdoc)) hrefused

/-- Whatever is refused, a save tears nothing: it writes the first of the documents, all of them if there is no
fault, in the directory that its path leads to once it was made. -/
theorem saveBy_untorn (c : Circumstances) (hd : d.Orderly) (dir : Text) (k : KnowledgeBase) (m : Manifest) :
    ∃ ps i, i ≤ (documents k m).length ∧ (∀ qs, (makeDirs c dir d).disk.LeadsTo dir qs → qs = ps) ∧
      (0 < i → (makeDirs c dir d).disk.LeadsTo dir ps) ∧ Untorn c d (documents k m) (saveBy c d dir k m) ps i := by
  have hnames := isName_documents k m
  have hvisible := isVisible_documents k m
  have hdistinct := nodup_documents k m
  obtain ⟨hlater, hfailed, hdone⟩ := (keeps_makeDirsWithin c hd (dir.length + 1) dir).during "create knowledge dir"
  obtain ⟨ps, hps⟩ : ∃ ps, ∀ qs, (makeDirs c dir d).disk.LeadsTo dir qs → qs = ps := by
    by_cases hleads : ∃ ps, (makeDirs c dir d).disk.LeadsTo dir ps
    · obtain ⟨ps, hps⟩ := hleads
      exact ⟨ps, fun qs hqs => hqs.unique hps⟩
    · exact ⟨[], fun qs hqs => absurd ⟨qs, hqs⟩ hleads⟩
  have hmaking : ∀ {drafts}, ∀ x ∈ (makeDirs c dir d).later, Reached d x ps [] drafts := fun x hx =>
    .of_made ((hlater x hx).elim id And.right)
  unfold saveBy
  rw [Course.andThen]
  split
  · rename_i f hfault
    obtain ⟨cause, hcause, hmade⟩ := hfailed f hfault
    refine ⟨ps, 0, Nat.zero_le _, hps, fun h => absurd h (Nat.lt_irrefl 0), .of_reached hvisible hdistinct ?_ ?_ ?_ ?_⟩
    · intro hnone
      rw [hfault] at hnone
      cases hnone
    · intro g hg
      obtain rfl := Option.some.inj (hfault.symm.trans hg)
      exact .inl ⟨cause, hcause, rfl⟩
    · exact fun x hx => ⟨0, le_rfl, hmaking x hx⟩
    · exact .of_made hmade
  · rename_i hnone
    have hmade := hdone hnone
    obtain ⟨i, hleads, hstep⟩ := stepwise_forEach c hmade.orderly hps
      (fun doc hdoc => ⟨hnames doc hdoc, hvisible doc hdoc⟩) hdistinct
    have hrest : ∀ {x written drafts}, Reached (makeDirs c dir d).disk x ps written drafts →
      Reached d x ps written drafts :=
      fun h => (Reached.of_made hmade).trans h (List.forall_mem_nil _) (List.forall_mem_nil _)
    refine ⟨ps, i, hstep.le, hps, hleads,
      .of_reached hvisible hdistinct hstep.done (fun f hf => .inr (hstep.failed f hf)) ?_
      (hrest hstep.final)⟩
    refine List.forall_mem_append.2 ⟨fun x hx => ⟨0, Nat.zero_le _, hmaking x hx⟩, fun x hx => ?_⟩
    obtain ⟨j, hj, hreached⟩ := hstep.later x hx
    exact ⟨j, hj, hrest hreached⟩

/-- A disk with a directory that holds an old document and, where another one should be, a directory. -/
def obstructed : Disk :=
  ⟨.dir [("kb", .dir [("fileImports.json", .dir [("x", .file "x" 0o644)]), ("fileSymbols.json", .file "old" 0o600)])],
  "/"⟩

theorem orderly_obstructed : obstructed.Orderly where
  tree := Entry.orderly_of_isPlain (by decide)
  cwd := by decide
  here := ⟨_, rfl⟩

/-- Where a directory is in the way of the second document, the first one is new. -/
theorem obstructed_untorn : obstructed.Orderly ∧
    ((saveBy .quiet obstructed "/kb" (KnowledgeBase.ofFiles []) oneManifest).fault.map Fault.message =
      some (Text.ofString "write fileImports.json: rename /kb/.fileImports.json.0 /kb/fileImports.json: file exists")) ∧
    ∃ ps i, i ≤ (documents (KnowledgeBase.ofFiles []) oneManifest).length ∧
      (∀ qs, (makeDirs .quiet "/kb" obstructed).disk.LeadsTo "/kb" qs → qs = ps) ∧
      (0 < i → (makeDirs .quiet "/kb" obstructed).disk.LeadsTo "/kb" ps) ∧
      Untorn .quiet obstructed (documents (KnowledgeBase.ofFiles []) oneManifest)
        (saveBy .quiet obstructed "/kb" (KnowledgeBase.ofFiles []) oneManifest) ps i :=
  ⟨orderly_obstructed, by decide +kernel,
    saveBy_untorn .quiet orderly_obstructed "/kb" (KnowledgeBase.ofFiles []) oneManifest⟩

/-- No space is left for the third document. -/
def full : Circumstances :=
  { Circumstances.quiet with
    refused := fun name op =>
      if name = "symbolReferences.json" ∧ op = .write 2 then some (.plain "no space left on device") else none }

example :
    ((saveBy full (linkToHere "here") "here/kb" (KnowledgeBase.ofFiles []) oneManifest).disk.filesBelow "/kb").map
      Prod.fst =
      [Text.ofString "fileImports.json", "fileSymbols.json"] := by decide +kernel

/-! ## Where nothing is refused -/

theorem makeDirsWithin_quiet (fuel : Nat) (d : Disk) (path : Text) :
    (makeDirsWithin .quiet fuel path d).outcome = (d.mkdirAllWithin fuel path).mapError .os := by
  induction fuel generalizing path with
  | zero => rfl
  | succ fuel ih =>
    rw [makeDirsWithin, Disk.mkdirAllWithin]
    cases d.stat path with
    | ok e => cases h : e.isDir <;> simp only [h] <;> rfl
    | error e =>
      have hup : ∀ up : Text, (if up.isEmpty then Course.stay d else makeDirsWithin .quiet fuel up d).outcome =
          (if up.isEmpty then .ok d else d.mkdirAllWithin fuel up).mapError .os := by
        intro up
        split
        · rfl
        · exact ih up
      simp only [Course.outcome_andThen, hup]
      cases (if (Disk.above path).isEmpty then Except.ok d else d.mkdirAllWithin fuel (Disk.above path)) with
      | error e => rfl
      | ok x =>
        dsimp only [Except.mapError, Except.bind]
        cases x.mkdir path with
        | ok x' => rfl
        | error e =>
          dsimp only [Circumstances.quiet, orRefused, Except.mapError]
          cases x.lstat path with
          | ok l => cases h : l.isDir <;> simp only [h] <;> rfl
          | error e => rfl

theorem forEach_quiet (hd : d.Orderly) (hnames : ∀ doc ∈ docs, Path.IsName doc.1 ∧ doc.1.head? ≠ some 46)
    (hfree : ∀ ps, d.LeadsTo dir ps → ∀ doc ∈ docs, d.root.get? (ps ++ [besides doc.1]) = none) :
    (Course.forEach (replaceBy .quiet dir) docs d).disk = (writeAll d dir docs).1 ∧
      (Course.forEach (replaceBy .quiet dir) docs d).fault = (writeAll d dir docs).2 := by
  induction docs generalizing d with
  | nil => exact ⟨rfl, rfl⟩
  | cons doc docs ih =>
    obtain ⟨name, v⟩ := doc
    obtain ⟨⟨hname, hvisible⟩, hnames⟩ := List.forall_mem_cons.1 hnames
    have hends := replaceBy_quiet hd hname fun ps hps => hfree ps hps _ (List.mem_cons_self ..)
    rw [Course.forEach, Course.andThen, writeAll]
    cases hwrite : write d dir name v with
    | error f =>
      rw [hwrite] at hends
      obtain ⟨hfault, hdisk⟩ := hends
      split
      · exact ⟨hdisk, hfault⟩
      · rename_i hnone
        rw [hfault] at hnone
        cases hnone
    | ok x =>
      rw [hwrite] at hends
      obtain ⟨hfault, rfl⟩ := hends
      obtain ⟨ps, hreplaced⟩ := (keeps_replaceBy .quiet dir hd hname).done hfault
      obtain ⟨es, hget, -⟩ := hreplaced.exists_dir hd
      simp only [hfault]
      refine ih (hreplaced.orderly hd hname) hnames fun qs hqs other hother => ?_
      -- the temporary names are as free as before
      have hbefore := hqs.before (hreplaced.isRenewed hd) hd.here
      obtain rfl := hbefore.unique hreplaced.leads
      have hne : besides other.1 ≠ name := by
        rw [besides_eq]
        rintro rfl
        exact hvisible (head?_temporary _ _)
      rw [hreplaced.eq, Disk.get?_withEntry_of_ne hget hne]
      exact hfree qs hbefore other (List.mem_cons_of_mem _ hother)

/-- If nothing is refused and no temporary name is taken, this is the save. -/
theorem saveBy_quiet (hd : d.Orderly) {k : KnowledgeBase} {m : Manifest}
    (hfree : ∀ x, d.mkdirAll dir = .ok x → ∀ ps, x.LeadsTo dir ps → ∀ doc ∈ documents k m,
      x.root.get? (ps ++ [besides doc.1]) = none) :
    (saveBy .quiet d dir k m).fault = (save d dir k m).2 ∧
      ∀ x, d.mkdirAll dir = .ok x → (saveBy .quiet d dir k m).disk = (save d dir k m).1 := by
  have hmake : (makeDirs .quiet dir d).outcome =
      (d.mkdirAll dir).mapError fun e => .during "create knowledge dir" (.os e) := by
    unfold makeDirs Disk.mkdirAll
    rw [Course.outcome_during, makeDirsWithin_quiet]
    cases d.mkdirAllWithin (dir.length + 1) dir <;> rfl
  unfold saveBy save Course.andThen
  cases hmkdir : d.mkdirAll dir with
  | error e =>
    rw [hmkdir] at hmake
    have hfault := Course.outcome_eq_error.1 hmake
    simp only [hfault]
    exact ⟨trivial, fun x hx => (nomatch hx)⟩
  | ok x =>
    rw [hmkdir] at hmake
    obtain ⟨hfault, hdisk⟩ := Course.outcome_eq_ok.1 hmake
    have hmade := (keeps_makeDirsWithin .quiet hd (dir.length + 1) dir).during "create knowledge dir"
    have hx : x.Orderly := hdisk ▸ (hmade.done hfault).orderly
    obtain ⟨hsame, hsame'⟩ :=
      forEach_quiet hx (fun doc hdoc => ⟨isName_documents k m doc hdoc, isVisible_documents k m doc hdoc⟩)
      (hfree x hmkdir)
    simp only [hfault, hdisk]
    exact ⟨hsame', fun _ _ => hsame⟩

end DocAtlas.Archive

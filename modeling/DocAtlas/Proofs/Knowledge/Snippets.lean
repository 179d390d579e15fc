/-
The snippets of detailed traces. A definition carries the lines of its range if its source was read when
the cache of sources had room, and nothing if the cache was full by then; a trace that is kept repeats what it
showed. So while the sources stay as they are, snippets depend on the detailed traces so far in one way only:
which sources were the first to be asked for.

`snippet_iff` says exactly when a definition carries its lines.
-/
import DocAtlas.Proofs.Files.Caching
import DocAtlas.Proofs.Files.Lines
import DocAtlas.Proofs.Knowledge.Answers

namespace DocAtlas

namespace SymbolFact

/-- The lines of a declaration are a range. -/
def HasRange (s : SymbolFact) : Prop := 1 ≤ s.startLine ∧ s.startLine ≤ s.endLine

instance (s : SymbolFact) : Decidable s.HasRange := inferInstanceAs (Decidable (_ ∧ _))

end SymbolFact

namespace Store

open FileCache

/-- The sources of the declarations that have a range, below a root. -/
def sourcesOf (root : Text) (decls : List (Text × SymbolFact)) : List Text :=
  (decls.filter fun decl => decl.2.HasRange).map fun decl => Path.join [root, decl.1]

/-- The sources a trace asks for. -/
def asks (root : Text) (k : KnowledgeBase) (q : TraceQuery) : List Text :=
  if q.detailed then sourcesOf root (k.declarations q.symbol) else []

/-- The sources some traces ask for, in order. -/
def asksAll (s : Store) (qs : List TraceQuery) : List Text := qs.flatMap (asks s.root s.base)

/-- What a definition shows when some sources have been asked for. -/
structure Shows (contents : Text → Option Text) (limit : Int) (root : Text) (asked : List Text) (x : Definition) :
    Prop where
  known : x.symbol.HasRange → Path.join [root, x.file] ∈ asked
  lines : x.symbol.HasRange → Taken contents limit asked (Path.join [root, x.file]) →
    x.snippet = ((contents (Path.join [root, x.file])).bind fun content =>
      Text.lineRange content x.symbol.startLine.toNat x.symbol.endLine.toNat).getD []
  nothing : ¬(x.symbol.HasRange ∧ Taken contents limit asked (Path.join [root, x.file])) → x.snippet = []

variable {contents : Text → Option Text} {limit : Int} {root : Text} {asked : List Text} {d : Disk}

theorem Shows.append {x : Definition} (h : Shows contents limit root asked x) (more : List Text) :
    Shows contents limit root (asked ++ more) x where
  known hrange := List.mem_append_left _ (h.known hrange)
  lines hrange htaken := h.lines hrange ((taken_append (h.known hrange) more).1 htaken)
  nothing hnot := h.nothing fun ⟨hrange, htaken⟩ => hnot ⟨hrange, (taken_append (h.known hrange) more).2 htaken⟩

/-- One definition. -/
theorem detail_shows {c : FileCache} (hc : KeepsFirst contents limit asked c) (hlimit : 0 < limit) (symbol : Text)
    (decl : Text × SymbolFact)
    (hsource : (d.readFile (Path.join [root, decl.1])).toOption = contents (Path.join [root, decl.1])) :
    Shows contents limit root (asked ++ sourcesOf root [decl]) (detail d root symbol c decl).1 ∧
      KeepsFirst contents limit (asked ++ sourcesOf root [decl]) (detail d root symbol c decl).2.2 := by
  obtain ⟨file, sym⟩ := decl
  have hdetail : (detail d root symbol c (file, sym)).1 =
      ⟨file, sym, ((c.fetchLines d (Path.join [root, file]) sym.startLine sym.endLine).result.toOption).getD []⟩ ∧
      (detail d root symbol c (file, sym)).2.2 =
        (c.fetchLines d (Path.join [root, file]) sym.startLine sym.endLine).cache := by
    unfold detail
    simp only
    cases (c.fetchLines d (Path.join [root, file]) sym.startLine sym.endLine).result <;> exact ⟨rfl, rfl⟩
  rw [hdetail.1, hdetail.2]
  by_cases hrange : sym.HasRange
  · have hasks : sourcesOf root [(file, sym)] = [Path.join [root, file]] := by simp [sourcesOf, hrange]
    obtain ⟨hcache, hresult⟩ := hc.fetch hlimit hsource
    obtain ⟨hsame, hlines⟩ := fetchLines_of_range c d (Path.join [root, file]) hrange.1 hrange.2
    rw [hasks, hsame, hlines]
    refine ⟨⟨fun _ => by simp, fun _ htaken => ?_, fun hnot => ?_⟩, hcache⟩
    · have hfetched : (c.fetch d (Path.join [root, file])).result.toOption = contents (Path.join [root, file]) :=
        Option.ext fun content => (hresult content).trans (and_iff_left htaken)
      simp only [hfetched]
    · have hfetched : (c.fetch d (Path.join [root, file])).result.toOption = none :=
        Option.eq_none_iff_forall_ne_some.2 fun content heq => hnot ⟨hrange, ((hresult content).1 heq).2⟩
      simp only [hfetched]
      rfl
  · have hasks : sourcesOf root [(file, sym)] = [] := by simp [sourcesOf, hrange]
    have hnone : sym.startLine < 1 ∨ sym.endLine < sym.startLine := by
      unfold SymbolFact.HasRange at hrange
      omega
    rw [hasks, List.append_nil, fetchLines_of_noRange hnone]
    exact ⟨⟨fun h => absurd h hrange, fun h => absurd h hrange, fun _ => rfl⟩, hc⟩

/-- The definitions of a trace, one after the other. -/
theorem detailAll_shows {c : FileCache} (root : Text) (hc : KeepsFirst contents limit asked c) (hlimit : 0 < limit)
    (symbol : Text) {decls : List (Text × SymbolFact)}
    (hsources : ∀ decl ∈ decls,
      (d.readFile (Path.join [root, decl.1])).toOption = contents (Path.join [root, decl.1])) :
    (∀ x ∈ (detailAll d root symbol c decls).1, Shows contents limit root (asked ++ sourcesOf root decls) x) ∧
      KeepsFirst contents limit (asked ++ sourcesOf root decls) (detailAll d root symbol c decls).2.2 := by
  induction decls generalizing c asked with
  | nil =>
    have hnil : sourcesOf root [] = [] := rfl
    rw [hnil, List.append_nil]
    exact ⟨fun x hx => absurd hx List.not_mem_nil, hc⟩
  | cons decl decls ih =>
    obtain ⟨hsource, hsources⟩ := List.forall_mem_cons.1 hsources
    obtain ⟨hfirst, hcache⟩ := detail_shows hc hlimit symbol decl hsource
    obtain ⟨hrest, hcache⟩ := ih hcache hsources
    have hasks : sourcesOf root (decl :: decls) = sourcesOf root [decl] ++ sourcesOf root decls := by
      unfold sourcesOf
      rw [← List.map_append, ← List.filter_append, List.singleton_append]
    rw [hasks, ← List.append_assoc]
    exact ⟨List.forall_mem_cons.2 ⟨hfirst.append _, hrest⟩, hcache⟩

/-! ## Traces -/

/-- On a disk the sources of a store are what `contents` says. -/
def Unchanged (contents : Text → Option Text) (s : Store) (d : Disk) : Prop :=
  ∀ file ∈ Table.keys s.base.symbols, (d.readFile (Path.join [s.root, file])).toOption =
  contents (Path.join [s.root, file])

/-- A store that was asked for some sources: its cache holds the first of them, and its traces show what they do. -/
structure Sourced (contents : Text → Option Text) (limit : Int) (asked : List Text) (s : Store) : Prop where
  files : KeepsFirst contents limit asked s.files
  traces : s.traces.All fun q t => asks s.root s.base q ⊆ asked ∧
    (q.detailed = true → ∀ x ∈ t.definitions.getD [], Shows contents limit s.root asked x)

variable {s : Store}

theorem mem_keys_of_declaration {k : KnowledgeBase} {symbol : Text} {decl : Text × SymbolFact}
    (h : decl ∈ k.declarations symbol) :
    decl.1 ∈ Table.keys k.symbols := by
  obtain ⟨e, he, hdecl⟩ := List.mem_flatMap.1 h
  obtain ⟨s, -, rfl⟩ := List.mem_map.1 hdecl
  exact List.mem_map_of_mem he

/-- The definitions of a new trace. -/
theorem define_shows (hs : s.Sourced contents limit asked) (hlimit : 0 < limit) (hd : s.Unchanged contents d)
    (q : TraceQuery) :
    (q.detailed = true → ∀ x ∈ (s.define d q).1, Shows contents limit s.root (asked ++ asks s.root s.base q) x) ∧
      KeepsFirst contents limit (asked ++ asks s.root s.base q) (s.define d q).2.2 := by
  unfold define asks
  by_cases hq : q.detailed = true
  · rw [if_pos hq, if_pos hq]
    obtain ⟨hshows, hcache⟩ := detailAll_shows s.root hs.files hlimit q.symbol fun decl hdecl =>
      hd decl.1 (mem_keys_of_declaration hdecl)
    exact ⟨fun _ => hshows, hcache⟩
  · rw [if_neg hq, if_neg hq, List.append_nil]
    exact ⟨fun h => absurd h hq, hs.files⟩

/-- A trace asks for its sources and shows what was taken of them. -/
theorem trace_sourced (hs : s.Sourced contents limit asked) (hlimit : 0 < limit) (hd : s.Unchanged contents d)
    (q : TraceQuery) :
    (s.trace d q).2.2.Sourced contents limit (asked ++ asks s.root s.base q) ∧
      (s.trace d q).2.2.base = s.base ∧ (s.trace d q).2.2.root = s.root ∧
      ∀ t, (s.trace d q).1 = .ok t → q.detailed = true →
        ∀ x ∈ t.definitions.getD [], Shows contents limit s.root (asked ++ asks s.root s.base q) x := by
  have hmore : s.traces.All fun q' t => asks s.root s.base q' ⊆ asked ++ asks s.root s.base q ∧
      (q'.detailed = true → ∀ x ∈ t.definitions.getD [],
      Shows contents limit s.root (asked ++ asks s.root s.base q) x) :=
    fun e he => ⟨fun p hp => List.mem_append_left _ ((hs.traces e he).1 hp),
      fun hq x hx => ((hs.traces e he).2 hq x hx).append _⟩
  cases hget : s.traces.get? q with
  | some found =>
    obtain ⟨t, traces⟩ := found
    obtain ⟨⟨hknown, -⟩, -⟩ := hs.traces.get? hget
    obtain ⟨⟨-, hshows⟩, htraces⟩ := hmore.get? hget
    rw [trace_kept hget]
    refine ⟨⟨hs.files.append hknown, htraces⟩, rfl, rfl, fun t' ht' => ?_⟩
    cases ht'
    exact hshows
  | none =>
    by_cases hnone : s.base.declarations q.symbol = []
    · have hasks : asks s.root s.base q = [] := by
        unfold asks
        rw [hnone]
        exact ite_self _
      rw [trace_undeclared hget hnone, hasks, List.append_nil]
      exact ⟨hs, rfl, rfl, fun t ht => by cases ht⟩
    · obtain ⟨hshows, hcache⟩ := define_shows hs hlimit hd q
      rw [trace_new hget hnone]
      refine ⟨⟨hcache, hmore.add ⟨List.subset_append_right _ _, hshows⟩⟩, rfl, rfl, fun t ht => ?_⟩
      cases ht
      exact hshows

/-- The store after some traces, each on the disk as it was then. -/
def afterTraces (s : Store) (qs : List (Disk × TraceQuery)) : Store := s.after (qs.map fun e => .trace e.1 e.2)

theorem afterTraces_sourced (hs : s.Sourced contents limit asked) (hlimit : 0 < limit) {qs : List (Disk × TraceQuery)}
    (hqs : ∀ e ∈ qs, s.Unchanged contents e.1) :
    (s.afterTraces qs).Sourced contents limit (asked ++ qs.flatMap fun e => asks s.root s.base e.2) ∧
      (s.afterTraces qs).base = s.base ∧ (s.afterTraces qs).root = s.root := by
  induction qs generalizing s asked with
  | nil =>
    rw [List.flatMap_nil, List.append_nil]
    exact ⟨hs, rfl, rfl⟩
  | cons e qs ih =>
    obtain ⟨he, hqs⟩ := List.forall_mem_cons.1 hqs
    obtain ⟨hs', hbase, hroot, -⟩ := trace_sourced hs hlimit he e.2
    have hafter : s.afterTraces (e :: qs) = (s.trace e.1 e.2).2.2.afterTraces qs := rfl
    have hunchanged : ∀ e' ∈ qs, (s.trace e.1 e.2).2.2.Unchanged contents e'.1 := by
      intro e' he'
      unfold Unchanged
      rw [hbase, hroot]
      exact hqs e' he'
    obtain ⟨hs'', hbase', hroot'⟩ := ih hs' hunchanged
    rw [hbase, hroot] at hs''
    rw [hafter, List.flatMap_cons, ← List.append_assoc]
    exact ⟨hs'', hbase'.trans hbase, hroot'.trans hroot⟩

theorem fileLimit_pos (settings : StoreSettings) : 0 < settings.fileLimit := by
  unfold StoreSettings.fileLimit
  split
  · assumption
  · decide

/-- A store that was just opened was asked for nothing. -/
theorem sourced_of_open {d₀ : Disk} {dir : Text} {settings : StoreSettings} {log : List LogRecord}
    (h : open_ d₀ dir settings = .ok (s, log)) : s.Sourced contents settings.fileLimit [] := by
  unfold open_ at h
  obtain ⟨found, -, h⟩ := exists_of_bind h
  cases h
  exact ⟨keepsFirst_empty (fileLimit_pos settings), fun e he => absurd he List.not_mem_nil⟩

/-- What a detailed trace shows after other traces. -/
theorem shows_of_trace {d₀ : Disk} {dir : Text} {settings : StoreSettings} {log : List LogRecord}
    (h : open_ d₀ dir settings = .ok (s, log)) {qs : List (Disk × TraceQuery)}
    (hqs : ∀ e ∈ qs, s.Unchanged contents e.1) (hd : s.Unchanged contents d) {symbol : Text} {t : Trace}
    (ht : ((s.afterTraces qs).trace d ⟨symbol, true⟩).1 = .ok t) {x : Definition} (hx : x ∈ t.definitions.getD []) :
    Shows contents settings.fileLimit s.root (s.asksAll (qs.map Prod.snd ++ [⟨symbol, true⟩])) x := by
  obtain ⟨hs, hbase, hroot⟩ := afterTraces_sourced (sourced_of_open h) (fileLimit_pos settings) hqs
  have hd' : (s.afterTraces qs).Unchanged contents d := by
    unfold Unchanged
    rw [hbase, hroot]
    exact hd
  obtain ⟨-, -, -, hshows⟩ := trace_sourced hs (fileLimit_pos settings) hd' ⟨symbol, true⟩
  have hshown := hshows t ht rfl x hx
  rw [hbase, hroot, List.nil_append] at hshown
  unfold asksAll
  rw [List.flatMap_append, List.flatMap_map]
  simpa using hshown

/-- A cache that takes all files of the base loses no snippet. -/
theorem snippet_of_few_files {d₀ : Disk} {dir : Text} {settings : StoreSettings} {log : List LogRecord}
    (h : open_ d₀ dir settings = .ok (s, log)) (hfew : (s.base.symbols.length : Int) ≤ settings.fileLimit)
    {qs : List (Disk × TraceQuery)} (hqs : ∀ e ∈ qs, s.Unchanged contents e.1) (hd : s.Unchanged contents d)
    {symbol : Text} {t : Trace} (ht : ((s.afterTraces qs).trace d ⟨symbol, true⟩).1 = .ok t) {x : Definition}
    (hx : x ∈ t.definitions.getD []) (hrange : x.symbol.HasRange) :
    x.snippet = ((contents (Path.join [s.root, x.file])).bind fun content =>
      Text.lineRange content x.symbol.startLine.toNat x.symbol.endLine.toNat).getD [] := by
  have hshows := shows_of_trace h hqs hd ht hx
  refine hshows.lines hrange (taken_of_few ((Table.keys s.base.symbols).map fun file => Path.join [s.root, file])
    ?_ (by simpa [Table.keys] using hfew) (hshows.known hrange))
  intro p hp
  obtain ⟨q, -, hq⟩ := List.mem_flatMap.1 hp
  unfold asks at hq
  split at hq
  · obtain ⟨decl, hdecl, rfl⟩ := List.mem_map.1 hq
    exact List.mem_map.2 ⟨decl.1, mem_keys_of_declaration (List.mem_of_mem_filter hdecl), rfl⟩
  · cases hq

/-- While the sources do not change, a definition of a detailed trace carries the lines of its range exactly if
its source is among the first that detailed traces asked for, as many as the cache takes, or if there is nothing
in the lines. -/
theorem snippet_iff {d₀ : Disk} {dir : Text} {settings : StoreSettings} {log : List LogRecord}
    (h : open_ d₀ dir settings = .ok (s, log)) {qs : List (Disk × TraceQuery)}
    (hqs : ∀ e ∈ qs, s.Unchanged contents e.1) (hd : s.Unchanged contents d) {symbol : Text} {t : Trace}
    (ht : ((s.afterTraces qs).trace d ⟨symbol, true⟩).1 = .ok t) {x : Definition} (hx : x ∈ t.definitions.getD [])
    (hrange : x.symbol.HasRange) {content lines : Text}
    (hcontent : contents (Path.join [s.root, x.file]) = some content)
    (hlines : Text.lineRange content x.symbol.startLine.toNat x.symbol.endLine.toNat = some lines) :
    x.snippet = lines ↔ Taken contents settings.fileLimit
      (s.asksAll (qs.map Prod.snd ++ [⟨symbol, true⟩])) (Path.join [s.root, x.file]) ∨ lines = [] := by
  have hshows := shows_of_trace h hqs hd ht hx
  by_cases htaken : Taken contents settings.fileLimit
      (s.asksAll (qs.map Prod.snd ++ [⟨symbol, true⟩])) (Path.join [s.root, x.file])
  · have hsnippet := hshows.lines hrange htaken
    rw [hcontent, Option.bind_some, hlines, Option.getD_some] at hsnippet
    exact iff_of_true hsnippet (.inl htaken)
  · rw [hshows.nothing fun hboth => htaken hboth.2, or_iff_right htaken]
    exact eq_comm

/-! ## Two sources in a cache for one -/

/-- A disk with a base of two files that declare the same name, and their sources above it. -/
def twoSources : Disk :=
  ⟨.dir [("a.js", .file "let f = 1;\n" 0o644), ("b.js", .file "let f = 2;\n" 0o644),
    ("k", .dir
      [("fileImports.json", .file "\x7b\x7d" 0o644),
       ("fileSymbols.json", .file
       ("\x7b\"a.js\":[\x7b\"kind\":\"variable\",\"name\":\"f\",\"startLine\":1,\"endLine\":1\x7d]," ++
         "\"b.js\":[\x7b\"kind\":\"variable\",\"name\":\"f\",\"startLine\":1,\"endLine\":1\x7d]\x7d") 0o644),
       ("symbolReferences.json", .file "\x7b\x7d" 0o644)])], "/"⟩

def variableF : SymbolFact := ⟨"variable", "f", 1, 1, false, [], [], false, false, [], [], []⟩

def twoSourcesBase : KnowledgeBase :=
  { KnowledgeBase.empty with symbols := [("a.js", some [variableF]), ("b.js", some [variableF])] }

/-- A cache for one file. -/
def oneFile : StoreSettings := ⟨[], 0, 1⟩

theorem load_twoSources : Archive.load twoSources "/k" = .ok (twoSourcesBase, none) :=
  load_of_toOption (by decide +kernel)

def twoSourcesTrace : Trace :=
  ⟨"f", some [⟨"a.js", variableF, "let f = 1;"⟩, ⟨"b.js", variableF, []⟩], some [], some []⟩

theorem trace_twoSources :
    ((fresh "/k" oneFile twoSourcesBase none).trace twoSources ⟨"f", true⟩).1 = .ok twoSourcesTrace := by
  have h : ((fresh "/k" oneFile twoSourcesBase none).trace twoSources ⟨"f", true⟩).1.toOption =
    some twoSourcesTrace := by
    decide
  cases htrace : ((fresh "/k" oneFile twoSourcesBase none).trace twoSources ⟨"f", true⟩).1 with
  | error f => rw [htrace] at h; cases h
  | ok t => rw [htrace] at h; exact congrArg Except.ok (Option.some.inj h)

/-- The source asked for first is shown. -/
theorem firstSource_shown : ∃ s log t x, open_ twoSources "/k" oneFile = .ok (s, log) ∧
    (s.trace twoSources ⟨"f", true⟩).1 = .ok t ∧ x ∈ t.definitions.getD [] ∧ x.file = "a.js" ∧
    x.snippet = "let f = 1;" := by
  obtain ⟨log, hopen⟩ := open_of_load oneFile load_twoSources
  have hx : (⟨"a.js", variableF, "let f = 1;"⟩ : Definition) ∈ twoSourcesTrace.definitions.getD [] :=
    List.mem_cons_self ..
  refine ⟨_, log, _, _, hopen, trace_twoSources, hx, rfl, ?_⟩
  have hsources : (fresh "/k" oneFile twoSourcesBase none).Unchanged (fun p => (twoSources.readFile p).toOption)
    twoSources :=
    fun _ _ => rfl
  have hcontent : (twoSources.readFile (Path.join ["/", "a.js"])).toOption = some "let f = 1;\n" := by decide
  refine (snippet_iff hopen (List.forall_mem_nil _) hsources trace_twoSources hx (by decide) hcontent
    (by decide)).2 (.inl ?_)
  exact ⟨[], ["/b.js"], by decide, by decide⟩

/-- A source for which there is no room any more is left out. -/
theorem secondSource_not_shown :
    ¬ ∀ (d₀ : Disk) (dir : Text) (settings : StoreSettings) (s : Store) (log : List LogRecord)
    (contents : Text → Option Text) (qs : List (Disk × TraceQuery)) (d : Disk) (symbol : Text) (t : Trace)
    (x : Definition) (content lines : Text), open_ d₀ dir settings = .ok (s, log) →
    (∀ e ∈ qs, s.Unchanged contents e.1) → s.Unchanged contents d →
      ((s.afterTraces qs).trace d ⟨symbol, true⟩).1 = .ok t → x ∈ t.definitions.getD [] → x.symbol.HasRange →
      contents (Path.join [s.root, x.file]) = some content →
      Text.lineRange content x.symbol.startLine.toNat x.symbol.endLine.toNat = some lines → x.snippet = lines := by
  intro h
  obtain ⟨log, hopen⟩ := open_of_load oneFile load_twoSources
  have hx : (⟨"b.js", variableF, []⟩ : Definition) ∈ twoSourcesTrace.definitions.getD [] := by simp [twoSourcesTrace]
  have hsnippet := h _ _ _ _ log (fun p => (twoSources.readFile p).toOption) [] twoSources "f" _ _ "let f = 2;\n"
    "let f = 2;" hopen
    (by simp) (fun _ _ => rfl) trace_twoSources hx (by decide) (by decide) (by decide)
  exact absurd hsnippet (by decide)

end Store

end DocAtlas

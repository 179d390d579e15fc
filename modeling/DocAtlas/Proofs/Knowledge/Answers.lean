/-
What a store answers. A store keeps recent traces, so an answer could be that of a base loaded before,
or of one that could not be loaded. `answers_lastLoad` says it never is: after any requests, each answer
is that of the base which the last successful load read, said here without the store (`Answers`).

What a base says of a symbol is what its documents record under that name: of each file the items in
the order they are recorded, the files in order.
-/
import DocAtlas.Knowledge.Store
import DocAtlas.Proofs.Files.Paths
import DocAtlas.Proofs.Knowledge.Loading

namespace DocAtlas

/-! ## What a base records -/

namespace KnowledgeBase

variable {α : Type}

/-- The items of a table that count, by file: the files in order, and of each that has such items all of them as
they are recorded. -/
structure Grouped (p : α → Bool) (t : Table (Listing α)) (groups : List (InFile α)) : Prop where
  ordered : (groups.map InFile.file).Pairwise Text.Before
  complete : ∀ file items, ⟨file, items⟩ ∈ groups ↔ items = some ((listOf t file).filter p) ∧
    (listOf t file).filter p ≠ []

/-- The trace that a base has of a symbol, without snippets. -/
structure Traced (k : KnowledgeBase) (symbol : Text) (t : Trace) : Prop where
  named : t.symbol = symbol
  definitions : ∃ definitions, t.definitions = some definitions ∧
    (definitions.map Definition.file).Pairwise (fun f g => Text.le f g = true) ∧
    ∀ file, definitions.filter (fun d => d.file == file) =
      ((listOf k.symbols file).filter (fun s => s.name == symbol)).map fun s => ⟨file, s, []⟩
  calls : ∃ groups, t.calls = some groups ∧ Grouped (fun c => c.name == symbol) k.calls groups
  imports : ∃ groups, t.imports = some groups ∧
    Grouped (fun i => ∃ s ∈ i.specifiers.getD [], s.localName = symbol ∨ s.imported = symbol) k.imports groups

/-- Some file declares a symbol. -/
def Declares (k : KnowledgeBase) (symbol : Text) : Prop := ∃ file, ∃ s ∈ listOf k.symbols file, s.name = symbol

/-! ### Reading the tables -/

theorem listOf_cons (key file : Text) (l : Listing α) (t : Table (Listing α)) :
    listOf ((key, l) :: t) file = if key = file then l.getD [] else listOf t file := by
  unfold listOf
  rw [Table.find?_cons]
  split
  · cases l <;> rfl
  · rfl

theorem listOf_of_mem {t : Table (Listing α)} (ht : Table.Sorted t) {e : Text × Listing α} (he : e ∈ t) :
    listOf t e.1 = e.2.getD [] := by
  unfold listOf
  rw [Table.find?_of_mem ht he]
  cases e.2 <;> rfl

/-- A list that is not empty is recorded. -/
theorem exists_mem_of_listOf {t : Table (Listing α)} {file : Text} {x : α} (h : x ∈ listOf t file) :
    ∃ l, (file, some l) ∈ t ∧ x ∈ l := by
  unfold listOf at h
  cases hf : Table.find? file t with
  | none => rw [hf] at h; simp at h
  | some l =>
    rw [hf] at h
    cases l with
    | none => simp at h
    | some l => exact ⟨l, Table.mem_of_find? hf, h⟩

theorem grouped_select (p : α → Bool) {t : Table (Listing α)} (ht : Table.Sorted t) : Grouped p t (select p t) := by
  have hgroup : ∀ {e : Text × Listing α} {g : InFile α},
      (if ((e.2.getD []).filter p).isEmpty then none else some (⟨e.1, some ((e.2.getD []).filter p)⟩ : InFile α)) =
      some g ↔
        (e.2.getD []).filter p ≠ [] ∧ g = ⟨e.1, some ((e.2.getD []).filter p)⟩ := by
    intro e g
    split
    · rename_i h
      simp [List.isEmpty_iff.1 h]
    · rename_i h
      exact ⟨fun heq => ⟨fun hnil => h (List.isEmpty_iff.2 hnil), (Option.some.inj heq).symm⟩,
        fun heq => congrArg some heq.2.symm⟩
  constructor
  · unfold select
    rw [List.pairwise_map, List.pairwise_filterMap]
    refine ht.imp fun {e f} hbefore g hg g' hg' => ?_
    obtain ⟨-, rfl⟩ := hgroup.1 hg
    obtain ⟨-, rfl⟩ := hgroup.1 hg'
    exact hbefore
  · intro file items
    unfold select
    rw [List.mem_filterMap]
    constructor
    · rintro ⟨e, he, hg⟩
      obtain ⟨hne, heq⟩ := hgroup.1 hg
      cases heq
      rw [listOf_of_mem ht he]
      exact ⟨rfl, hne⟩
    · rintro ⟨rfl, hne⟩
      obtain ⟨x, hx⟩ := List.exists_mem_of_ne_nil _ hne
      obtain ⟨l, he, -⟩ := exists_mem_of_listOf (List.mem_filter.1 hx).1
      have hl : listOf t file = l := listOf_of_mem ht he
      rw [hl] at hne ⊢
      exact ⟨_, he, hgroup.2 ⟨hne, rfl⟩⟩

/-- The items of one file among those of all. -/
theorem filter_flatMap_listOf {p : α → Bool} {t : Table (Listing α)} (ht : Table.Sorted t) (file : Text) :
    (t.flatMap fun e => ((e.2.getD []).filter p).map fun x => (e.1, x)).filter (fun d => d.1 == file) =
      ((listOf t file).filter p).map fun x => (file, x) := by
  induction t with
  | nil => rfl
  | cons e t ih =>
    obtain ⟨key, l⟩ := e
    obtain ⟨hfirst, ht⟩ := Table.sorted_cons.1 ht
    rw [List.flatMap_cons, List.filter_append, ih ht, listOf_cons]
    by_cases h : key = file
    · subst h
      have hrest : listOf t key = [] := by
        refine List.eq_nil_iff_forall_not_mem.2 fun x hx => ?_
        obtain ⟨l', hl', -⟩ := exists_mem_of_listOf hx
        exact (hfirst _ hl').2 rfl
      simp [hrest, List.filter_map, Function.comp_def]
    · simp [h, List.filter_map, Function.comp_def]

theorem declarations_filter {k : KnowledgeBase} (hk : Table.Sorted k.symbols) (symbol file : Text) :
    (k.declarations symbol).filter (fun d => d.1 == file) =
      ((listOf k.symbols file).filter (fun s => s.name == symbol)).map fun s => (file, s) :=
  filter_flatMap_listOf hk file

theorem pairwise_declarations {k : KnowledgeBase} (hk : Table.Sorted k.symbols) (symbol : Text) :
    ((k.declarations symbol).map Prod.fst).Pairwise (fun f g => Text.le f g = true) := by
  unfold declarations
  rw [List.pairwise_map, List.pairwise_flatMap]
  constructor
  · intro e _
    rw [List.pairwise_map]
    exact List.pairwise_of_forall fun _ _ => Text.le_refl _
  · refine hk.imp fun {e f} hbefore d hd d' hd' => ?_
    obtain ⟨s, -, rfl⟩ := List.mem_map.1 hd
    obtain ⟨s', -, rfl⟩ := List.mem_map.1 hd'
    exact hbefore.1

theorem declarations_eq_nil {k : KnowledgeBase} (hk : Table.Sorted k.symbols) {symbol : Text} :
    k.declarations symbol = [] ↔ ¬k.Declares symbol := by
  constructor
  · rintro h ⟨file, s, hs, hname⟩
    have := declarations_filter hk symbol file
    rw [h, List.filter_nil, eq_comm, List.map_eq_nil_iff, List.filter_eq_nil_iff] at this
    exact this s hs (by simpa using hname)
  · intro h
    refine List.eq_nil_iff_forall_not_mem.2 fun d hd => h ⟨d.1, d.2, ?_⟩
    have hfilter : d ∈ (k.declarations symbol).filter (fun e => e.1 == d.1) :=
      List.mem_filter.2 ⟨hd, beq_self_eq_true d.1⟩
    rw [declarations_filter hk] at hfilter
    obtain ⟨s, hs, heq⟩ := List.mem_map.1 hfilter
    obtain ⟨hmem, hname⟩ := List.mem_filter.1 hs
    rw [← heq]
    exact ⟨hmem, by simpa using hname⟩

/-- The trace of a symbol without snippets is the one the base has. -/
theorem traced_traceWith {k : KnowledgeBase} (hk : k.Ordered) (symbol : Text) :
    k.Traced symbol (k.traceWith symbol ((k.declarations symbol).map fun (file, s) => ⟨file, s, []⟩)) where
  named := rfl
  definitions := by
    refine ⟨_, rfl, ?_, fun file => ?_⟩
    · rw [List.map_map]
      exact pairwise_declarations hk.symbols symbol
    · rw [List.filter_map]
      have hfilter := congrArg (List.map fun d : Text × SymbolFact => (⟨d.1, d.2, []⟩ : Definition))
        (declarations_filter hk.symbols symbol file)
      rw [List.map_map] at hfilter
      exact hfilter
  calls := ⟨_, rfl, grouped_select _ hk.calls⟩
  imports := by
    refine ⟨_, rfl, ?_⟩
    have hbinds : (fun i : ImportFact =>
        decide (∃ s ∈ i.specifiers.getD [], s.localName = symbol ∨ s.imported = symbol)) =
          fun i => bindsName i symbol := by
      funext i
      rw [Bool.eq_iff_iff]
      simp [bindsName]
    rw [hbinds]
    exact grouped_select _ hk.imports

end KnowledgeBase

/-! ## Recent traces -/

namespace TraceCache

variable {c : TraceCache} {P : TraceQuery → Trace → Prop}

/-- All traces in a cache have a property. -/
def All (P : TraceQuery → Trace → Prop) (c : TraceCache) : Prop := ∀ e ∈ c.traces, P e.1 e.2

theorem All.get? (hc : c.All P) {q : TraceQuery} {t : Trace} {c' : TraceCache} (h : c.get? q = some (t, c')) :
    P q t ∧ c'.All P := by
  obtain ⟨e, he, heq⟩ := Option.map_eq_some_iff.1 h
  cases heq
  have hmem := List.mem_of_find?_eq_some he
  have hq : e.1 = q := by simpa using List.find?_some he
  refine ⟨hq ▸ hc e hmem, fun f hf => ?_⟩
  rcases List.mem_cons.1 hf with rfl | hf
  · exact hc _ hmem
  · exact hc f (List.mem_of_mem_filter hf)

theorem All.add (hc : c.All P) {q : TraceQuery} {t : Trace} (h : P q t) : (c.add q t).All P := by
  intro f hf
  rcases List.mem_cons.1 (List.mem_of_mem_take hf) with rfl | hf
  · exact h
  · exact hc f (List.mem_of_mem_filter hf)

end TraceCache

/-! ## Requests -/

namespace Store

/-- What a store is asked for. Loading again and snippets see a disk as it is then. -/
inductive Request where
  | reload (d : Disk)
  | files
  | view (path : Text)
  | trace (d : Disk) (q : TraceQuery)

/-- What it answers. -/
inductive Answer where
  | reloaded (outcome : Except Fault Unit)
  | files (names : List Text)
  | view (v : Option FileView)
  | trace (t : Except Fault Trace)

/-- Serves a request. A failing load leaves the store as it is. -/
def serve (s : Store) : Request → Answer × Store
  | .reload d =>
    match s.reload d with
    | .ok (s', _) => (.reloaded (.ok ()), s')
    | .error f => (.reloaded (.error f), s)
  | .files => (.files s.fileNames, s)
  | .view path => (.view (s.view? path), s)
  | .trace d q =>
    let (t, _, s') := s.trace d q
    (.trace t, s')

/-- The store after some requests. -/
def after (s : Store) (rs : List Request) : Store := rs.foldl (fun s r => (s.serve r).2) s

/-- What the last successful load read, starting from a base. -/
def lastLoad (dir : Text) (k : KnowledgeBase) (rs : List Request) : KnowledgeBase :=
  rs.foldl
    (fun k r =>
      match r with
      | .reload d =>
        match Archive.load d dir with
        | .ok (k', _) => k'
        | .error _ => k
      | _ => k)
    k

/-- What a base answers, without a store. -/
def Answers (dir : Text) (k : KnowledgeBase) : Request → Answer → Prop
  | .reload d, .reloaded outcome => outcome = (Archive.load d dir).map fun _ => ()
  | .files, .files names => names.Pairwise Text.Before ∧ ∀ f, f ∈ names ↔ (Table.find? f k.symbols).isSome = true
  | .view path, .view v => v = (Table.find? (Path.clean path) k.symbols).map fun symbols =>
      { file := Path.clean path
        symbols
        imports := some (KnowledgeBase.listOf k.imports (Path.clean path))
        exports := some (KnowledgeBase.listOf k.exports (Path.clean path))
        references := some (KnowledgeBase.listOf k.references (Path.clean path))
        calls := some (KnowledgeBase.listOf k.calls (Path.clean path)) }
  | .trace _ q, .trace t => q.detailed = false →
      (k.Declares q.symbol → ∃ found, t = .ok found ∧ k.Traced q.symbol found) ∧
      (¬k.Declares q.symbol → t = .error (.symbolNotFound q.symbol))
  | _, _ => False

/-- A store that holds a base: its tables in order, and every trace kept without snippets is the base's own. -/
structure Holds (dir : Text) (k : KnowledgeBase) (s : Store) : Prop where
  dir : s.dir = dir
  base : s.base = k
  ordered : k.Ordered
  traces : s.traces.All fun q t => q.detailed = false → k.Declares q.symbol ∧ k.Traced q.symbol t

variable {dir : Text} {k : KnowledgeBase} {s : Store}

/-- A store of a base that was asked for nothing. -/
def fresh (dir : Text) (settings : StoreSettings) (k : KnowledgeBase) (m : Option Manifest) : Store :=
  { dir
    settings
    base := k
    manifest := m
    root := rootOf dir settings m
    traces := ⟨settings.traceCapacity, []⟩
    files := FileCache.empty settings.fileLimit }

theorem open_of_load {d : Disk} (settings : StoreSettings) {m : Option Manifest} (h : Archive.load d dir = .ok (k, m)) :
    ∃ log, open_ d dir settings = .ok (fresh dir settings k m, log) := by
  unfold open_
  rw [h]
  exact ⟨_, rfl⟩

theorem open_of_load_error {d : Disk} {settings : StoreSettings} {f : Fault} (h : Archive.load d dir = .error f) :
    open_ d dir settings = .error f := by
  unfold open_
  rw [h]
  rfl

theorem holds_of_open {d : Disk} {settings : StoreSettings} {log : List LogRecord}
    (h : open_ d dir settings = .ok (s, log)) : ∃ k m, Archive.load d dir = .ok (k, m) ∧ s.Holds dir k := by
  cases hload : Archive.load d dir with
  | error f =>
    rw [open_of_load_error hload] at h
    cases h
  | ok found =>
    obtain ⟨k, m⟩ := found
    obtain ⟨log', hopen⟩ := open_of_load settings hload
    rw [hopen] at h
    cases h
    exact ⟨k, m, rfl, rfl, rfl, Archive.ordered_of_load hload, fun e he => absurd he List.not_mem_nil⟩

/-- Loading again. -/
theorem reload_holds (hs : s.Holds dir k) (d : Disk) :
    Answers dir k (.reload d) (s.serve (.reload d)).1 ∧
    (s.serve (.reload d)).2.Holds dir (lastLoad dir k [.reload d]) := by
  have hreload : s.reload d = open_ d dir s.settings := congrArg (open_ d · s.settings) hs.dir
  cases hload : Archive.load d dir with
  | error f =>
    have hserve : s.serve (.reload d) = (.reloaded (.error f), s) := by
      simp only [serve, hreload, open_of_load_error hload]
    have hlast : lastLoad dir k [.reload d] = k := by
      simp only [lastLoad, List.foldl_cons, List.foldl_nil, hload]
    rw [hserve, hlast]
    refine ⟨?_, hs⟩
    simp only [Answers, hload]
    rfl
  | ok found =>
    obtain ⟨k', m⟩ := found
    obtain ⟨log, hopen⟩ := open_of_load s.settings hload
    obtain ⟨k'', m', hload', hs'⟩ := holds_of_open hopen
    rw [hload] at hload'
    cases hload'
    have hserve : s.serve (.reload d) = (.reloaded (.ok ()), fresh dir s.settings k' m) := by
      simp only [serve, hreload, hopen]
    have hlast : lastLoad dir k [.reload d] = k' := by
      simp only [lastLoad, List.foldl_cons, List.foldl_nil, hload]
    rw [hserve, hlast]
    refine ⟨?_, hs'⟩
    simp only [Answers, hload]
    rfl

/-- The definitions of a new trace, with the log of getting their snippets and the files held afterwards. -/
def define (d : Disk) (s : Store) (q : TraceQuery) : List Definition × List LogRecord × FileCache :=
  if q.detailed then detailAll d s.root q.symbol s.files (s.base.declarations q.symbol)
  else ((s.base.declarations q.symbol).map fun (file, symbol) => ⟨file, symbol, []⟩, [], s.files)

theorem trace_kept {d : Disk} {q : TraceQuery} {t : Trace} {traces : TraceCache}
    (h : s.traces.get? q = some (t, traces)) :
    s.trace d q = (.ok t, [], { s with traces }) := by
  unfold trace
  rw [h]

theorem trace_undeclared {d : Disk} {q : TraceQuery} (h : s.traces.get? q = none)
    (hnone : s.base.declarations q.symbol = []) :
    s.trace d q = (.error (.symbolNotFound q.symbol), [], s) := by
  unfold trace
  rw [h, hnone]

theorem trace_new {d : Disk} {q : TraceQuery} (h : s.traces.get? q = none) (hsome : s.base.declarations q.symbol ≠ []) :
    s.trace d q = (.ok (s.base.traceWith q.symbol (s.define d q).1), (s.define d q).2.1,
      { s with
        traces := s.traces.add q (s.base.traceWith q.symbol (s.define d q).1)
        files := (s.define d q).2.2 }) := by
  unfold trace define
  rw [h]
  cases hdecls : s.base.declarations q.symbol with
  | nil => exact absurd hdecls hsome
  | cons decl decls => rfl

/-- A trace, kept or new. -/
theorem trace_holds (hs : s.Holds dir k) (d : Disk) (q : TraceQuery) :
    Answers dir k (.trace d q) (s.serve (.trace d q)).1 ∧ (s.serve (.trace d q)).2.Holds dir k := by
  simp only [serve, Answers]
  cases hget : s.traces.get? q with
  | some found =>
    obtain ⟨t, traces⟩ := found
    obtain ⟨ht, htraces⟩ := hs.traces.get? hget
    rw [trace_kept hget]
    exact ⟨fun hq => ⟨fun _ => ⟨t, rfl, (ht hq).2⟩, fun hnone => absurd (ht hq).1 hnone⟩,
      { hs with traces := htraces }⟩
  | none =>
    have hdeclares : s.base.declarations q.symbol = [] ↔ ¬k.Declares q.symbol :=
      hs.base ▸ KnowledgeBase.declarations_eq_nil hs.ordered.symbols
    by_cases hsome : k.Declares q.symbol
    · rw [trace_new hget (mt hdeclares.1 (not_not.2 hsome))]
      have htraced : q.detailed = false → k.Traced q.symbol (s.base.traceWith q.symbol (s.define d q).1) := by
        intro hq
        unfold define
        rw [hs.base, hq]
        exact KnowledgeBase.traced_traceWith hs.ordered q.symbol
      exact ⟨fun hq => ⟨fun _ => ⟨_, rfl, htraced hq⟩, fun hnone => absurd hsome hnone⟩,
        { hs with traces := hs.traces.add fun hq => ⟨hsome, htraced hq⟩ }⟩
    · rw [trace_undeclared hget (hdeclares.2 hsome)]
      exact ⟨fun _ => ⟨fun h => absurd h hsome, fun _ => rfl⟩, hs⟩

/-- One request is answered by the base that is held, and what is held afterwards is the last load. -/
theorem serve_holds (hs : s.Holds dir k) :
    ∀ r, Answers dir k r (s.serve r).1 ∧ (s.serve r).2.Holds dir (lastLoad dir k [r])
  | .reload d => reload_holds hs d
  | .files => by
    refine ⟨?_, hs⟩
    simp only [serve, Answers]
    have hfiles : s.fileNames = Table.keys k.symbols := congrArg KnowledgeBase.files hs.base
    rw [hfiles]
    exact ⟨Table.pairwise_keys hs.ordered.symbols, fun f => Table.isSome_find?.symm⟩
  | .view path => by
    refine ⟨?_, hs⟩
    have hpath : KnowledgeBase.recordedPath path = Path.clean path := Path.trimPrefix_clean path
    simp only [serve, Answers, view?, KnowledgeBase.view?, hs.base, hpath]
  | .trace d q => trace_holds hs d q

theorem after_holds (hs : s.Holds dir k) (rs : List Request) : (s.after rs).Holds dir (lastLoad dir k rs) := by
  induction rs generalizing s k with
  | nil => exact hs
  | cons r rs ih => exact ih (serve_holds hs r).2

/-- Every answer is that of the base the last successful load read, whatever was asked before. -/
theorem answers_lastLoad {d : Disk} {settings : StoreSettings} {log : List LogRecord}
    (h : open_ d dir settings = .ok (s, log)) :
    ∃ k m, Archive.load d dir = .ok (k, m) ∧
      ∀ (rs : List Request) (r : Request), Answers dir (lastLoad dir k rs) r ((s.after rs).serve r).1 := by
  obtain ⟨k, m, hload, hs⟩ := holds_of_open h
  exact ⟨k, m, hload, fun rs r => (serve_holds (after_holds hs rs) r).1⟩

/-! ## Small bases -/

/-- A disk with documents in the directory `/k`. -/
def saved (documents : List (Text × Text)) : Disk :=
  ⟨.dir [("k", .dir (documents.map fun p => (p.1, .file p.2 0o644)))], "/"⟩

/-- The documents of a base with one symbol. -/
def oneSymbol : Disk := saved
  [("fileImports.json", "\x7b\x7d"),
   ("fileSymbols.json",
    "\x7b\"a.js\":[\x7b\"kind\":\"function\",\"name\":\"f\",\"startLine\":1,\"endLine\":1\x7d]\x7d"),
   ("symbolReferences.json", "\x7b\x7d")]

def oneSymbolBase : KnowledgeBase :=
  { KnowledgeBase.empty with
    symbols := [("a.js", some [⟨"function", "f", 1, 1, false, [], [], false, false, [], [], []⟩])] }

theorem load_of_toOption {d : Disk} {found : KnowledgeBase × Option Manifest}
    (h : (Archive.load d dir).toOption = some found) :
    Archive.load d dir = .ok found := by
  cases hload : Archive.load d dir with
  | error f => rw [hload] at h; cases h
  | ok x => rw [hload] at h; exact congrArg Except.ok (Option.some.inj h)

/-- A trace after the documents went away and a load failed. -/
theorem oneSymbol_answers : ∃ s log, open_ oneSymbol "/k" .default = .ok (s, log) ∧
    Answers "/k" oneSymbolBase (.trace oneSymbol ⟨"f", false⟩)
      ((s.after [.trace oneSymbol ⟨"f", false⟩, .reload (saved [])]).serve (.trace oneSymbol ⟨"f", false⟩)).1 := by
  have hload : Archive.load oneSymbol "/k" = .ok (oneSymbolBase, none) := load_of_toOption (by decide +kernel)
  obtain ⟨log, hopen⟩ := open_of_load .default hload
  obtain ⟨k, m, hk, hanswers⟩ := answers_lastLoad hopen
  obtain ⟨rfl, rfl⟩ := Prod.mk.inj (Except.ok.inj (hload.symm.trans hk))
  refine ⟨_, log, hopen, ?_⟩
  have hlast : lastLoad "/k" oneSymbolBase [.trace oneSymbol ⟨"f", false⟩, .reload (saved [])] = oneSymbolBase := by
    have hfails : (Archive.load (saved []) "/k").toOption = none := by decide
    simp only [lastLoad, List.foldl_cons, List.foldl_nil]
    cases hgone : Archive.load (saved []) "/k" with
    | error f => rfl
    | ok found => rw [hgone] at hfails; cases hfails
  rw [← hlast]
  exact hanswers _ _

/-- The documents of a base with an import in a file that is missing from the symbols. -/
def importOnly : Disk := saved
  [("fileImports.json",
    "\x7b\"a.js\":[\x7b\"source\":\"./b\",\"specifiers\":[],\"startLine\":1,\"endLine\":1\x7d]\x7d"),
   ("fileSymbols.json", "\x7b\x7d"), ("symbolReferences.json", "\x7b\x7d")]

/-- What is recorded of a file that the symbols do not list is not shown. -/
theorem importOnly_not_viewed :
    ¬ ∀ (d : Disk) (dir : Text) (settings : StoreSettings) (s : Store) (log : List LogRecord),
    open_ d dir settings = .ok (s, log) → ∀ path, KnowledgeBase.listOf s.base.imports (Path.clean path) ≠ [] →
      (s.view? path).isSome = true := by
  intro h
  have hload : Archive.load importOnly "/k" =
      .ok (⟨[], [], [("a.js", some [⟨"./b", some [], 1, 1⟩])], [], [], []⟩, none) :=
    load_of_toOption (by decide +kernel)
  obtain ⟨log, hopen⟩ := open_of_load .default hload
  exact absurd (h importOnly "/k" .default _ log hopen "a.js" (by decide)) (by decide)

end Store

end DocAtlas

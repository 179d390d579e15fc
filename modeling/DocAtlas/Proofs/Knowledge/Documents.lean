/-
The documents of a knowledge base, written and read back. Facts can be stored if their texts are UTF-8 and their
numbers fit in 64 bits; then every document can be written as it is, and is read as what was written.
-/
import DocAtlas.Proofs.Json.Records
import DocAtlas.Proofs.Knowledge.Loading
import DocAtlas.Proofs.Time.Instants

namespace DocAtlas

open Json (Carries Fits64 IsStored RecordField)

/-! ## Facts -/

namespace SymbolFact

/-- A declaration that can be stored. -/
structure IsStorable (s : SymbolFact) : Prop where
  kind : s.kind.isUtf8 = true
  name : s.name.isUtf8 = true
  startLine : Fits64 s.startLine
  endLine : Fits64 s.endLine
  declaration : s.declaration.isUtf8 = true
  params : ∀ t ∈ s.params, t.isUtf8 = true
  superClass : s.superClass.isUtf8 = true
  methods : ∀ t ∈ s.methods, t.isUtf8 = true
  properties : ∀ t ∈ s.properties, t.isUtf8 = true

theorem carries_members {s : SymbolFact} (h : s.IsStorable) : Carries fields s.members blank s :=
  (Carries.text rfl h.kind).append <|
  (Carries.text rfl h.name).append <|
  (Carries.int rfl h.startLine).append <|
  (Carries.int rfl h.endLine).append <|
  (Carries.bool rfl s.exported).append <|
  (Carries.unlessEmpty rfl h.declaration rfl).append <|
  (Carries.unlessNone rfl h.params rfl).append <|
  (Carries.ifTrue rfl s.async rfl).append <|
  (Carries.ifTrue rfl s.generator rfl).append <|
  (Carries.unlessEmpty rfl h.superClass rfl).append <|
  (Carries.unlessNone rfl h.methods rfl).append <|
  (Carries.unlessNone rfl h.properties rfl).append .nil

theorem IsStorable.isStored {s : SymbolFact} (h : s.IsStorable) : IsStored toJson ofJson? s :=
  Carries.isStored rfl rfl (by decide) (carries_members h)

end SymbolFact

namespace Specifier

/-- A binding that can be stored. -/
structure IsStorable (s : Specifier) : Prop where
  type : s.type.isUtf8 = true
  localName : s.localName.isUtf8 = true
  imported : s.imported.isUtf8 = true

theorem IsStorable.isStored {s : Specifier} (h : s.IsStorable) : IsStored toJson ofJson? s :=
  Carries.isStored rfl rfl (by decide) <|
    (Carries.text rfl h.type).append <|
    (Carries.text rfl h.localName).append <|
    (Carries.text rfl h.imported).append .nil

end Specifier

namespace ImportFact

/-- An import that can be stored. -/
structure IsStorable (i : ImportFact) : Prop where
  source : i.source.isUtf8 = true
  specifiers : ∀ s ∈ i.specifiers.getD [], s.IsStorable
  startLine : Fits64 i.startLine
  endLine : Fits64 i.endLine

theorem IsStorable.isStored {i : ImportFact} (h : i.IsStorable) : IsStored toJson ofJson? i :=
  Carries.isStored rfl rfl (by decide) <|
    (Carries.text rfl h.source).append <|
    (Carries.whole rfl (IsStored.listing fun s hs => (h.specifiers s hs).isStored)).append <|
    (Carries.int rfl h.startLine).append <|
    (Carries.int rfl h.endLine).append .nil

end ImportFact

namespace ExportFact

/-- An export that can be stored. -/
structure IsStorable (e : ExportFact) : Prop where
  name : e.name.isUtf8 = true
  localName : e.localName.isUtf8 = true
  source : e.source.isUtf8 = true
  line : Fits64 e.line

theorem IsStorable.isStored {e : ExportFact} (h : e.IsStorable) : IsStored toJson ofJson? e :=
  Carries.isStored rfl rfl (by decide) <|
    (Carries.text rfl h.name).append <|
    (Carries.unlessEmpty rfl h.localName rfl).append <|
    (Carries.ifTrue rfl e.isDefault rfl).append <|
    (Carries.unlessEmpty rfl h.source rfl).append <|
    (Carries.int rfl h.line).append .nil

end ExportFact

namespace CallFact

/-- A call that can be stored. -/
structure IsStorable (c : CallFact) : Prop where
  name : c.name.isUtf8 = true
  arguments : ∀ t ∈ c.arguments.getD [], t.isUtf8 = true
  context : c.context.isUtf8 = true
  line : Fits64 c.line
  endLine : Fits64 c.endLine

theorem IsStorable.isStored {c : CallFact} (h : c.IsStorable) : IsStored toJson ofJson? c :=
  Carries.isStored rfl rfl (by decide) <|
    (Carries.text rfl h.name).append <|
    (Carries.whole rfl (Json.isStored_texts h.arguments)).append <|
    (Carries.text rfl h.context).append <|
    (Carries.int rfl h.line).append <|
    (Carries.int rfl h.endLine).append .nil

end CallFact

namespace Reference

/-- A reference that can be stored. -/
structure IsStorable (r : Reference) : Prop where
  type : r.type.isUtf8 = true
  source : r.source.isUtf8 = true
  localName : r.localName.isUtf8 = true
  imported : r.imported.isUtf8 = true
  name : r.name.isUtf8 = true
  line : Fits64 r.line

theorem IsStorable.isStored {r : Reference} (h : r.IsStorable) : IsStored toJson ofJson? r :=
  Carries.isStored rfl rfl (by decide) <|
    (Carries.text rfl h.type).append <|
    (Carries.unlessEmpty rfl h.source rfl).append <|
    (Carries.unlessEmpty rfl h.localName rfl).append <|
    (Carries.unlessEmpty rfl h.imported rfl).append <|
    (Carries.unlessEmpty rfl h.name rfl).append <|
    (Carries.int rfl h.line).append .nil

end Reference

namespace IndexedSymbol

/-- An entry that can be stored. -/
structure IsStorable (s : IndexedSymbol) : Prop where
  symbol : s.symbol.IsStorable
  definedIn : s.definedIn.isUtf8 = true

/-- Members of a symbol are members of its entry as well. -/
theorem carries_ofSymbol {ms : List (Text × Json)} {r r' : SymbolFact} (h : Carries SymbolFact.fields ms r r')
    (file : Text) (more : List (RecordField IndexedSymbol)) :
    Carries (SymbolFact.fields.map ofSymbolField ++ more) ms ⟨r, file⟩ ⟨r', file⟩ := by
  have hfind : ∀ key, (SymbolFact.fields.find? fun f => f.name == key).isSome = true →
      ∃ f, (SymbolFact.fields.find? fun f => f.name == key) = some f ∧
        ((SymbolFact.fields.map ofSymbolField ++ more).find? fun f => f.name == key) = some (ofSymbolField f) := by
    intro key hkey
    obtain ⟨f, hf⟩ := Option.isSome_iff_exists.1 hkey
    refine ⟨f, hf, ?_⟩
    have hmap : ((SymbolFact.fields.map ofSymbolField).find? fun f => f.name == key) = some (ofSymbolField f) := by
      rw [List.find?_map]
      exact congrArg (Option.map ofSymbolField) hf
    rw [List.find?_append, hmap]
    rfl
  have hset : ∀ (s : SymbolFact) (m : Text × Json), (SymbolFact.fields.find? fun f => f.name == m.1).isSome = true →
      Json.setMember (SymbolFact.fields.map ofSymbolField ++ more) ⟨s, file⟩ m =
        (Json.setMember SymbolFact.fields s m).map fun s => ⟨s, file⟩ := by
    intro s m hm
    obtain ⟨f, hf, hlifted⟩ := hfind m.1 hm
    unfold Json.setMember RecordField.named?
    rw [hf, hlifted]
    rfl
  refine ⟨fun m hm => ?_, h.values, ?_⟩
  · obtain ⟨f, -, hlifted⟩ := hfind m.1 (h.named m hm)
    rw [hlifted]
    rfl
  · have hread := h.read
    have hnamed := h.named
    clear h
    induction ms generalizing r with
    | nil =>
      cases hread
      rfl
    | cons m ms ih =>
      obtain ⟨hm, hms⟩ := List.forall_mem_cons.1 hnamed
      rw [List.foldlM_cons] at hread ⊢
      obtain ⟨s, hs, hread⟩ := Option.bind_eq_some_iff.1 hread
      rw [hset r m hm, hs]
      exact ih hread hms

theorem IsStorable.isStored {s : IndexedSymbol} (h : s.IsStorable) : IsStored toJson ofJson? s :=
  Carries.isStored rfl rfl (by decide) <|
    (carries_ofSymbol (SymbolFact.carries_members h.symbol) [] _).append <|
    (Carries.text rfl h.definedIn).append .nil

end IndexedSymbol

namespace FileFacts

/-- Facts of a file that can be stored. -/
structure IsStorable (f : FileFacts) : Prop where
  path : f.path.isUtf8 = true
  symbols : ∀ s ∈ f.symbols, s.IsStorable
  imports : ∀ i ∈ f.imports, i.IsStorable
  exports : ∀ e ∈ f.exports, e.IsStorable
  calls : ∀ c ∈ f.calls, c.IsStorable

theorem IsStorable.references {f : FileFacts} (h : f.IsStorable) : ∀ r ∈ Reference.ofFile f, r.IsStorable := by
  intro r hr
  rcases List.mem_append.1 hr with hr | hr
  · obtain ⟨i, hi, hr⟩ := List.mem_flatMap.1 hr
    obtain ⟨s, hs, rfl⟩ := List.mem_map.1 hr
    have himport := h.imports i hi
    have hspecifier := himport.specifiers s hs
    exact ⟨show Text.isUtf8 "import" = true by decide, himport.source, hspecifier.localName, hspecifier.imported, rfl,
      himport.startLine⟩
  · obtain ⟨s, hs, rfl⟩ := List.mem_map.1 hr
    have hsymbol := h.symbols s (List.mem_filter.1 hs).1
    exact ⟨show Text.isUtf8 "extends" = true by decide, rfl, rfl, rfl, hsymbol.superClass, hsymbol.startLine⟩

end FileFacts

/-! ## Bases -/

namespace KnowledgeBase

/-- The keys are in UTF-8, and what stands under them satisfies a condition. -/
def Holds {α : Type} (p : α → Prop) (t : Table α) : Prop := ∀ e ∈ t, e.1.isUtf8 = true ∧ p e.2

/-- Lists whose items satisfy a condition. -/
def EachItem {α : Type} (p : α → Prop) (xs : Listing α) : Prop := ∀ x ∈ xs.getD [], p x

/-- A base that can be stored. -/
structure IsStorable (k : KnowledgeBase) : Prop where
  index : Holds IndexedSymbol.IsStorable k.index
  symbols : Holds (EachItem SymbolFact.IsStorable) k.symbols
  imports : Holds (EachItem ImportFact.IsStorable) k.imports
  exports : Holds (EachItem ExportFact.IsStorable) k.exports
  references : Holds (EachItem Reference.IsStorable) k.references
  calls : Holds (EachItem CallFact.IsStorable) k.calls

/-- The base of the facts of files, gathered one after the other. -/
def ofFiles (fs : List FileFacts) : KnowledgeBase := ofGathered (fs.foldl Gathered.add [])

/-- Gathering files makes the table of their facts under their paths. -/
theorem gathered_eq_ofPairs (fs : List FileFacts) :
    fs.foldl Gathered.add [] = Table.ofPairs (fs.map fun f => (f.path, f)) := by
  rw [Table.ofPairs, List.foldl_map]
  rfl

/-- Each gathered entry is the facts of one of the files, under its path. -/
theorem mem_gathered {fs : List FileFacts} {e : Text × FileFacts} (he : e ∈ fs.foldl Gathered.add []) :
    e.2 ∈ fs ∧ e.1 = e.2.path := by
  rw [gathered_eq_ofPairs] at he
  obtain ⟨f, hf, rfl⟩ := List.mem_map.1 (Table.mem_of_mem_ofPairs he)
  exact ⟨hf, rfl⟩

theorem sorted_gathered (fs : List FileFacts) : Table.Sorted (fs.foldl Gathered.add []) :=
  gathered_eq_ofPairs fs ▸ Table.sorted_ofPairs _

/-- The tables of a base that was built are in order. -/
theorem ordered_ofFiles (fs : List FileFacts) : (ofFiles fs).Ordered := by
  have hg := sorted_gathered fs
  have hcollect : ∀ {α : Type} (part : FileFacts → List α), (collect part (fs.foldl Gathered.add [])).Sorted :=
    fun _ => (Table.sorted_map _).2 hg
  exact ⟨Table.sorted_ofPairs _, hcollect _, hcollect _, hcollect _, hcollect _, hcollect _⟩

theorem holds_collect {α : Type} {p : α → Prop} {part : FileFacts → List α} {fs : List FileFacts}
    (hfs : ∀ f ∈ fs, f.IsStorable) (hpart : ∀ f : FileFacts, f.IsStorable → ∀ x ∈ part f, p x) :
      Holds (EachItem p) (collect part (fs.foldl Gathered.add [])) := by
  intro e he
  obtain ⟨f, hf, rfl⟩ := List.mem_map.1 he
  obtain ⟨hmem, hpath⟩ := mem_gathered hf
  have hfile := hfs f.2 hmem
  exact ⟨hpath ▸ hfile.path, hpart f.2 hfile⟩

/-- A base built from facts that can be stored can be stored. -/
theorem isStorable_ofFiles {fs : List FileFacts} (hfs : ∀ f ∈ fs, f.IsStorable) : (ofFiles fs).IsStorable where
  index e he := by
    obtain ⟨f, hf, he⟩ := List.mem_flatMap.1 (Table.mem_of_mem_ofPairs he)
    obtain ⟨hmem, hpath⟩ := mem_gathered hf
    have hfile := hfs f.2 hmem
    have hkey := hpath ▸ hfile.path
    obtain ⟨s, hs, rfl⟩ := List.mem_map.1 he
    have hsymbol := hfile.symbols s hs
    refine ⟨?_, hsymbol, hkey⟩
    change Text.isUtf8 (f.1 ++ [58] ++ s.name) = true
    rw [List.append_assoc, List.singleton_append, Text.isUtf8_append (by decide), hkey, hsymbol.name]
    rfl
  symbols := holds_collect hfs fun _ hf => hf.symbols
  imports := holds_collect hfs fun _ hf => hf.imports
  exports := holds_collect hfs fun _ hf => hf.exports
  references := holds_collect hfs fun _ hf => hf.references
  calls := holds_collect hfs fun _ hf => hf.calls

end KnowledgeBase

/-! ## Manifests -/

namespace Manifest

/-- The texts of a manifest are in UTF-8. -/
structure HasUtf8 (m : Manifest) : Prop where
  runId : m.runId.isUtf8 = true
  generatedAt : m.generatedAt.isUtf8 = true
  root : m.root.isUtf8 = true
  files : ∀ t ∈ m.files.getD [], t.isUtf8 = true

/-- A manifest that can be stored: its instant is one. -/
structure IsStorable (m : Manifest) : Prop where
  runId : m.runId.isUtf8 = true
  generatedAt : ∃ p : Instant.Parts, p.IsValid ∧ m.generatedAt = p.text
  root : m.root.isUtf8 = true
  files : ∀ t ∈ m.files.getD [], t.isUtf8 = true

theorem IsStorable.hasUtf8 {m : Manifest} (h : m.IsStorable) : m.HasUtf8 := by
  obtain ⟨p, hp, hinstant⟩ := h.generatedAt
  exact ⟨h.runId, hinstant ▸ Instant.isUtf8_text hp, h.root, h.files⟩

theorem HasUtf8.isStored {m : Manifest} (h : m.HasUtf8) : IsStored toJson (Json.record? ⟨[], [], [], none⟩
    [RecordField.plain "runId" Json.text? fun x (m : Manifest) => { m with runId := x },
     .plain "generatedAt" Json.text? fun x m => { m with generatedAt := x },
     .plain "root" Json.text? fun x m => { m with root := x },
     .whole "files" Json.texts? fun x m => { m with files := x }]) m :=
  Carries.isStored rfl rfl (by decide) <|
    (Carries.text rfl h.runId).append <|
    (Carries.text rfl h.generatedAt).append <|
    (Carries.text rfl h.root).append <|
    (Carries.whole rfl (Json.isStored_texts h.files)).append .nil

end Manifest

/-! ## Documents -/

namespace Archive

variable {α : Type}

/-- A document that can be written, and is read as what was written. -/
structure IsKept (v : Json) (decode : Json → Except Fault α) (x : α) : Prop where
  writable : v.IsWritable
  decoded : decode v = .ok x

theorem isKept_lists {toJson : α → Json} {ofJson? : Json → Option α} {p : α → Prop} {t : Table (Listing α)}
    (ht : t.Sorted) (h : KnowledgeBase.Holds (KnowledgeBase.EachItem p) t) (hp : ∀ x, p x → IsStored toJson ofJson? x) :
    IsKept (Json.lists toJson t) (lists ofJson?) t := by
  have hitems : ∀ e ∈ t, IsStored (Json.listing toJson) (Json.list? ofJson?) e.2 := fun e he =>
    IsStored.listing fun x hx => hp x ((h e he).2 x hx)
  have hstored := Json.isStored_table ht (fun e he => (h e he).1) hitems
  refine ⟨hstored.writable, ?_⟩
  unfold lists Json.lists
  rw [hstored.read]

theorem isKept_index {t : Table IndexedSymbol} (ht : t.Sorted) (h : KnowledgeBase.Holds IndexedSymbol.IsStorable t) :
    IsKept (.obj (List.map (fun e => (e.1, e.2.toJson)) t)) index t := by
  have hstored := Json.isStored_table ht (fun e he => (h e he).1) fun e he => (h e he).2.isStored
  refine ⟨hstored.writable, ?_⟩
  unfold index
  rw [hstored.read]

theorem isKept_manifest {m : Manifest} (h : m.IsStorable) : IsKept m.toJson manifest m := by
  obtain ⟨p, hp, hinstant⟩ := h.generatedAt
  have hstored := h.hasUtf8.isStored
  have hinstants : instantsIn m.toJson = [.str m.generatedAt] := rfl
  have hcheck : checkInstant (.str m.generatedAt) = .ok () := by
    rw [hinstant, checkInstant]
    simp only [Instant.check_text hp]
  refine ⟨hstored.writable, ?_⟩
  have hchecks : (instantsIn m.toJson).forM checkInstant = .ok () := by
    rw [hinstants]
    change (checkInstant (.str m.generatedAt) >>= fun _ => pure ()) = _
    rw [hcheck]
    rfl
  unfold manifest
  rw [hchecks, hstored.read]
  rfl

/-- What is decoded from a manifest is that manifest, whether its instant is one or not. -/
theorem eq_of_manifest {m m' : Manifest} (hm : m.HasUtf8) (h : manifest m.toJson = .ok m') : m' = m := by
  obtain ⟨u, -, h⟩ := exists_of_bind h
  rw [hm.isStored.read] at h
  cases h
  rfl

end Archive

end DocAtlas

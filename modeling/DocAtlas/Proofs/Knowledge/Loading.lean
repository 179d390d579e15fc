/-
What loading a base reads. The tables of a loaded base are in order, whatever order the documents have.
-/
import DocAtlas.Knowledge.Archive
import DocAtlas.Proofs.Text.Tables

namespace DocAtlas

theorem exists_of_bind {ε α β : Type} {x : Except ε α} {f : α → Except ε β} {b : β} (h : x >>= f = .ok b) :
    ∃ a, x = .ok a ∧ f a = .ok b := by
  cases x with
  | error e => cases h
  | ok a => exact ⟨a, rfl, h⟩

namespace KnowledgeBase

/-- The tables of a base are in order, each file once. -/
structure Ordered (k : KnowledgeBase) : Prop where
  index : Table.Sorted k.index
  symbols : Table.Sorted k.symbols
  imports : Table.Sorted k.imports
  exports : Table.Sorted k.exports
  references : Table.Sorted k.references
  calls : Table.Sorted k.calls

end KnowledgeBase

namespace Json

/-- A table that is read is in order. -/
theorem sorted_of_table? {α : Type} {item : Json → Option α} {v : Json} {t : Table α} (h : table? item v = some t) :
    t.Sorted := by
  unfold table? at h
  split at h
  · cases h
    exact Table.sorted_nil
  · obtain ⟨ps, -, rfl⟩ := Option.map_eq_some_iff.1 h
    exact Table.sorted_ofPairs ps
  · cases h

end Json

namespace Archive

variable {α : Type} {d : Disk} {dir name : Text}

theorem sorted_of_lists {item : Json → Option α} {v : Json} {t : Table (Listing α)} (h : lists item v = .ok t) :
    t.Sorted := by
  unfold lists at h
  split at h
  · rename_i ht
    cases h
    exact Json.sorted_of_table? ht
  · cases h

theorem sorted_of_index {v : Json} {t : Table IndexedSymbol} (h : index v = .ok t) : t.Sorted := by
  unfold index at h
  split at h
  · rename_i ht
    cases h
    exact Json.sorted_of_table? ht
  · cases h

/-- What is read was decoded. -/
theorem decoded_of_read? {decode : Json → Except Fault α} {x : α} (h : read? d dir name decode = .ok (some x)) :
    ∃ v, decode v = .ok x := by
  unfold read? at h
  split at h
  · split at h <;> cases h
  · split at h
    · cases h
    · rename_i v _
      split at h
      · rename_i hx
        cases h
        exact ⟨v, hx⟩
      · cases h

theorem required_eq_ok {decode : Json → Except Fault α} {x : α} :
    required d dir name decode = .ok x ↔ read? d dir name decode = .ok (some x) := by
  constructor
  · intro h
    obtain ⟨o, ho, h⟩ := exists_of_bind h
    cases o with
    | none => cases h
    | some y =>
      cases h
      exact ho
  · intro h
    unfold required
    rw [h]
    rfl

/-- What a successful load reads: three documents that are there, and three that are empty if they are missing. -/
theorem load_eq_ok {k : KnowledgeBase} {m : Option Manifest} : load d dir = .ok (k, m) ↔
    ∃ calls exports entries,
      read? d dir "fileSymbols.json" (lists SymbolFact.ofJson?) = .ok (some k.symbols) ∧
      read? d dir "fileImports.json" (lists ImportFact.ofJson?) = .ok (some k.imports) ∧
      read? d dir "symbolReferences.json" (lists Reference.ofJson?) = .ok (some k.references) ∧
      read? d dir "functionCalls.json" (lists CallFact.ofJson?) = .ok calls ∧
      read? d dir "fileExports.json" (lists ExportFact.ofJson?) = .ok exports ∧
      read? d dir "symbolIndex.json" index = .ok entries ∧
      read? d dir "manifest.json" manifest = .ok m ∧
      k.calls = calls.getD [] ∧ k.exports = exports.getD [] ∧ k.index = entries.getD [] := by
  constructor
  · intro h
    unfold load at h
    obtain ⟨symbols, hsymbols, h⟩ := exists_of_bind h
    obtain ⟨imports, himports, h⟩ := exists_of_bind h
    obtain ⟨references, hreferences, h⟩ := exists_of_bind h
    obtain ⟨calls, hcalls, h⟩ := exists_of_bind h
    obtain ⟨exports, hexports, h⟩ := exists_of_bind h
    obtain ⟨entries, hentries, h⟩ := exists_of_bind h
    obtain ⟨m', hm, h⟩ := exists_of_bind h
    cases h
    exact ⟨calls, exports, entries, required_eq_ok.1 hsymbols, required_eq_ok.1 himports, required_eq_ok.1 hreferences,
      hcalls, hexports, hentries, hm, rfl, rfl, rfl⟩
  · rintro ⟨calls, exports, entries, hsymbols, himports, hreferences, hcalls, hexports, hentries, hm, h1, h2, h3⟩
    obtain ⟨index, symbols, imports, exports', references, calls'⟩ := k
    simp only at *
    subst h1 h2 h3
    unfold load
    rw [required_eq_ok.2 hsymbols, required_eq_ok.2 himports, required_eq_ok.2 hreferences, hcalls, hexports,
      hentries, hm]
    rfl

/-- The tables of a loaded base are in order. -/
theorem ordered_of_load {k : KnowledgeBase} {m : Option Manifest} (h : load d dir = .ok (k, m)) : k.Ordered := by
  obtain ⟨calls, exports, entries, hsymbols, himports, hreferences, hcalls, hexports, hentries, -, h1, h2, h3⟩ :=
    load_eq_ok.1 h
  have hlists : ∀ {β : Type} {item : Json → Option β} {name : Text} {o : Option (Table (Listing β))},
      read? d dir name (lists item) = .ok o → (o.getD []).Sorted := by
    intro β item name o ho
    cases o with
    | none => exact Table.sorted_nil
    | some t =>
      obtain ⟨v, hv⟩ := decoded_of_read? ho
      exact sorted_of_lists hv
  refine ⟨?_, hlists hsymbols, hlists himports, h2 ▸ hlists hexports, hlists hreferences, h1 ▸ hlists hcalls⟩
  rw [h3]
  cases entries with
  | none => exact Table.sorted_nil
  | some t =>
    obtain ⟨v, hv⟩ := decoded_of_read? hentries
    exact sorted_of_index hv

end Archive

end DocAtlas

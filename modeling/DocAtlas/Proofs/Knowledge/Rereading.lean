/-
What the documents of a base are read back as. A document is read without the stray bytes of its texts, so an object
keeps its members, each list its items, and the names of the members are read without stray bytes. A table that is
decoded from an object whose names are in order has these names as its keys, and as many items.
-/
import DocAtlas.Proofs.Knowledge.Archiving

namespace DocAtlas

/-! ## Names and items -/

/-- The number of items of all lists of a table. -/
def Table.items {α : Type} (t : Table (Listing α)) : Nat := (List.map (fun e => (e.2.getD []).length) t).sum

namespace Json

/-- The names of the members. -/
def memberNames : Json → List Text
  | obj members => members.map Prod.fst
  | _ => []

/-- The number of items of a list. -/
def size : Json → Nat
  | arr items => items.length
  | _ => 0

/-- The number of items of all lists among the members. -/
def itemCount : Json → Nat
  | obj members => (members.map fun m => m.2.size).sum
  | _ => 0

theorem memberNames_scrubbed (v : Json) : v.scrubbed.memberNames = v.memberNames.map Text.scrubbed := by
  cases v with
  | obj members => simp [scrubbed, mapTexts_obj, memberNames, Function.comp_def]
  | arr items => simp [scrubbed, mapTexts_arr, memberNames]
  | _ => rfl

/-- Of an object whose names are in UTF-8 the names stay. -/
theorem scrubbed_obj {members : List (Text × Json)} (h : ∀ m ∈ members, m.1.isUtf8 = true) :
    (obj members).scrubbed = obj (members.map fun m => (m.1, m.2.scrubbed)) := by
  unfold scrubbed
  rw [mapTexts_obj, List.map_congr_left fun m hm => by rw [scrubbed_of_isUtf8 (h m hm)]]

theorem size_scrubbed (v : Json) : v.scrubbed.size = v.size := by
  cases v with
  | obj members => simp [scrubbed, mapTexts_obj, size]
  | arr items => simp [scrubbed, mapTexts_arr, size]
  | _ => rfl

theorem itemCount_scrubbed (v : Json) : v.scrubbed.itemCount = v.itemCount := by
  cases v with
  | obj members =>
    have hsize : ∀ m : Text × Json, (m.2.mapTexts id Text.scrubbed).size = m.2.size := fun m => size_scrubbed m.2
    simp [scrubbed, mapTexts_obj, itemCount, Function.comp_def, hsize]
  | arr items => simp [scrubbed, mapTexts_arr, itemCount]
  | _ => rfl

section

variable {α β γ : Type}

/-- What is said of each part that is read is said of what it was read from. -/
theorem map_eq_of_mapM {f : α → Option β} {g : α → γ} {h : β → γ} (hf : ∀ x y, f x = some y → h y = g x) {xs : List α}
    {ys : List β} (hxs : xs.mapM f = some ys) : ys.map h = xs.map g := by
  induction xs generalizing ys with
  | nil =>
    cases hxs
    rfl
  | cons x xs ih =>
    rw [List.mapM_cons] at hxs
    obtain ⟨y, hy, hxs⟩ := Option.bind_eq_some_iff.1 hxs
    obtain ⟨ys', hys, hxs⟩ := Option.bind_eq_some_iff.1 hxs
    cases hxs
    rw [List.map_cons, List.map_cons, hf x y hy, ih hys]

variable {item : Json → Option α}

theorem length_of_list? {v : Json} {xs : Option (List α)} (h : list? item v = some xs) :
    (xs.getD []).length = v.size := by
  unfold list? at h
  split at h
  · cases h
    rfl
  · obtain ⟨ys, hys, rfl⟩ := Option.map_eq_some_iff.1 h
    have hunits := map_eq_of_mapM (g := fun _ => ()) (h := fun _ => ()) (fun _ _ _ => rfl) hys
    simpa [size] using congrArg List.length hunits
  · cases h

/-- A table decoded from names in order has them as its keys, and all items. -/
theorem of_table? {v : Json} {t : Table (Listing α)} (h : table? (list? item) v = some t)
    (hnames : v.memberNames.Pairwise Text.Before) : Table.keys t = v.memberNames ∧ t.items = v.itemCount := by
  unfold table? at h
  split at h
  · cases h
    exact ⟨rfl, rfl⟩
  · rename_i members
    obtain ⟨ps, hps, rfl⟩ := Option.map_eq_some_iff.1 h
    have hkeys : ps.map Prod.fst = members.map Prod.fst :=
      map_eq_of_mapM (fun m p hp => by obtain ⟨x, -, rfl⟩ := Option.map_eq_some_iff.1 hp; rfl) hps
    have hsizes : List.map (fun e => (e.2.getD []).length) ps = members.map fun m => m.2.size :=
      map_eq_of_mapM (fun m p hp => by obtain ⟨x, hx, rfl⟩ := Option.map_eq_some_iff.1 hp; exact length_of_list? hx) hps
    -- names that come in order are distinct, so no member takes the place of another
    have hsorted : Table.Sorted ps := List.pairwise_map.1 (hkeys ▸ hnames)
    rw [Table.ofPairs_of_sorted hsorted]
    exact ⟨hkeys, congrArg List.sum hsizes⟩
  · cases h

end

/-! ## Documents that can be written -/

/-- Members whose values can be written. -/
def HaveNumbers (ms : List (Text × Json)) : Prop := ∀ m ∈ ms, m.2.HasNumbers

@[simp] theorem hasNumbers_obj {members : List (Text × Json)} : (obj members).HasNumbers ↔ HaveNumbers members := by
  unfold HasNumbers HaveNumbers
  rw [all_obj]
  simp only [true_and, HasNumbers]

@[simp] theorem hasNumbers_arr {items : List Json} : (arr items).HasNumbers ↔ ∀ v ∈ items, v.HasNumbers := all_arr

@[simp] theorem hasNumbers_bool (b : Bool) : (bool b).HasNumbers := .bool b

@[simp] theorem hasNumbers_str (s : Text) : (str s).HasNumbers := .str trivial

@[simp] theorem hasNumbers_int (n : Int) : (int n).HasNumbers := .num (isNumber_ofInt n)

@[simp] theorem haveNumbers_nil : HaveNumbers [] := List.forall_mem_nil _

@[simp] theorem haveNumbers_cons {m : Text × Json} {ms : List (Text × Json)} :
    HaveNumbers (m :: ms) ↔ m.2.HasNumbers ∧ HaveNumbers ms := List.forall_mem_cons

@[simp] theorem haveNumbers_append {ms ms' : List (Text × Json)} :
    HaveNumbers (ms ++ ms') ↔ HaveNumbers ms ∧ HaveNumbers ms' := List.forall_mem_append

@[simp] theorem haveNumbers_unlessEmpty (key t : Text) : HaveNumbers (unlessEmpty key t) := by
  unfold unlessEmpty
  split <;> simp

@[simp] theorem haveNumbers_ifTrue (key : Text) (b : Bool) : HaveNumbers (ifTrue key b) := by
  unfold ifTrue
  split <;> simp

@[simp] theorem haveNumbers_unlessNone (key : Text) (ts : List Text) : HaveNumbers (unlessNone key ts) := by
  unfold unlessNone
  split <;> simp [strs]

section

variable {α : Type} {toJson : α → Json} (h : ∀ x, (toJson x).HasNumbers)

include h

theorem hasNumbers_listing (xs : Listing α) : (listing toJson xs).HasNumbers := by
  cases xs with
  | none => exact .null
  | some xs => exact hasNumbers_arr.2 (List.forall_mem_map.2 fun x _ => h x)

theorem hasNumbers_lists (t : Table (Listing α)) : (lists toJson t).HasNumbers :=
  hasNumbers_obj.2 (List.forall_mem_map.2 fun e _ => hasNumbers_listing h e.2)

end

end Json

open Json

theorem SymbolFact.hasNumbers_toJson (s : SymbolFact) : s.toJson.HasNumbers := by
  simp [toJson, members]

theorem Specifier.hasNumbers_toJson (s : Specifier) : s.toJson.HasNumbers := by
  simp [toJson]

theorem ImportFact.hasNumbers_toJson (i : ImportFact) : i.toJson.HasNumbers := by
  simp [toJson, hasNumbers_listing Specifier.hasNumbers_toJson]

theorem ExportFact.hasNumbers_toJson (e : ExportFact) : e.toJson.HasNumbers := by
  simp [toJson]

theorem CallFact.hasNumbers_toJson (c : CallFact) : c.toJson.HasNumbers := by
  simp [toJson, members, hasNumbers_listing hasNumbers_str]

theorem Reference.hasNumbers_toJson (r : Reference) : r.toJson.HasNumbers := by
  simp [toJson]

theorem IndexedSymbol.hasNumbers_toJson (s : IndexedSymbol) : s.toJson.HasNumbers := by
  simp [toJson, SymbolFact.members]

theorem Manifest.hasNumbers_toJson (m : Manifest) : m.toJson.HasNumbers := by
  simp [toJson, hasNumbers_listing hasNumbers_str]

/-- A manifest without the stray bytes of its texts. -/
def Manifest.scrubbed (m : Manifest) : Manifest :=
  ⟨m.runId.scrubbed, m.generatedAt.scrubbed, m.root.scrubbed, m.files.map (List.map Text.scrubbed)⟩

theorem Manifest.hasUtf8_scrubbed (m : Manifest) : m.scrubbed.HasUtf8 where
  runId := Text.isUtf8_scrubbed _
  generatedAt := Text.isUtf8_scrubbed _
  root := Text.isUtf8_scrubbed _
  files t ht := by
    obtain ⟨runId, generatedAt, root, files⟩ := m
    cases files with
    | none => cases ht
    | some files =>
      obtain ⟨f, -, rfl⟩ := List.mem_map.1 ht
      exact Text.isUtf8_scrubbed f

theorem Manifest.toJson_scrubbed (m : Manifest) : m.toJson.scrubbed = m.scrubbed.toJson := by
  have hlisting : (listing str m.files).scrubbed = listing str m.scrubbed.files := by
    unfold Manifest.scrubbed Json.scrubbed
    cases m.files with
    | none => rfl
    | some files =>
      simp only [listing, mapTexts_arr, Option.map_some, List.map_map]
      rfl
  have hnames : ∀ key ∈ [Text.ofString "runId", "generatedAt", "root", "files"], key.isUtf8 = true := by decide
  simp only [List.forall_mem_cons] at hnames
  obtain ⟨hrunId, hgeneratedAt, hroot, hfiles, -⟩ := hnames
  unfold toJson
  rw [scrubbed_obj (by simp [hrunId, hgeneratedAt, hroot, hfiles])]
  simp only [List.map_cons, List.map_nil, hlisting]
  rfl

/-! ## Documents on a disk -/

namespace Archive

variable {d : Disk} {dir name : Text} {v : Json}

/-- Every document of a base can be written. -/
theorem hasNumbers_documents (k : KnowledgeBase) (m : Manifest) : ∀ doc ∈ documents k m, doc.2.HasNumbers := by
  have hindex : k.indexJson.HasNumbers := hasNumbers_obj.2 (List.forall_mem_map.2 fun e _ => e.2.hasNumbers_toJson)
  simp only [documents, List.forall_mem_cons]
  exact ⟨hasNumbers_lists SymbolFact.hasNumbers_toJson _, hasNumbers_lists ImportFact.hasNumbers_toJson _,
    hasNumbers_lists Reference.hasNumbers_toJson _, hasNumbers_lists CallFact.hasNumbers_toJson _,
    hasNumbers_lists ExportFact.hasNumbers_toJson _, hindex, m.hasNumbers_toJson, List.forall_mem_nil _⟩

/-- What a document on a disk is read as. -/
def document? (d : Disk) (dir name : Text) : Option Json :=
  (d.readFile (Path.join [dir, name])).toOption.bind Json.parse?

theorem document?_of_leadsTo (hd : d.IsHere) {ps : List Text} (hps : d.LeadsTo dir ps) (hname : Path.IsName name)
    (hv : v.HasNumbers) {mode : Nat} (hfile : d.root.get? (ps ++ [name]) = some (.file (documentText v) mode)) :
    document? d dir name = some v.scrubbed := by
  unfold document?
  rw [Disk.readFile_of_leadsTo hd hname hps hfile]
  exact Json.parse?_pretty_scrubbed hv

/-- What is read of a document that is there was decoded from it. -/
theorem decoded_of_document? {α : Type} {decode : Json → Except Fault α} {o : Option α}
    (hv : document? d dir name = some v) (h : read? d dir name decode = .ok o) :
      ∃ x, o = some x ∧ decode v = .ok x := by
  obtain ⟨content, hcontent, hparse⟩ := Option.bind_eq_some_iff.1 hv
  unfold read? at h
  split at h
  · rename_i hread
    rw [hread] at hcontent
    cases hcontent
  · rename_i hread
    rw [hread] at hcontent
    cases hcontent
    rw [hparse] at h
    simp only at h
    split at h
    · rename_i hx
      cases h
      exact ⟨_, rfl, hx⟩
    · cases h

/-- A table of lists that is read has the names of its document as keys, if they are in order, and all items. -/
theorem lists_of_document? {α : Type} {item : Json → Option α} {o : Option (Table (Listing α))}
    (hv : document? d dir name = some v) (hnames : v.memberNames.Pairwise Text.Before)
    (h : read? d dir name (lists item) = .ok o) :
      Table.keys (o.getD []) = v.memberNames ∧ (o.getD []).items = v.itemCount := by
  obtain ⟨t, rfl, ht⟩ := decoded_of_document? hv h
  unfold lists at ht
  split at ht
  · rename_i hread
    cases ht
    exact Json.of_table? hread hnames
  · cases ht

/-- A manifest that is read is the one that was written, without stray bytes. -/
theorem manifest_of_document? {m : Manifest} {o : Option Manifest} (hv : document? d dir name = some m.scrubbed.toJson)
    (h : read? d dir name manifest = .ok o) : o = some m.scrubbed := by
  obtain ⟨m', rfl, hm'⟩ := decoded_of_document? hv h
  rw [eq_of_manifest m.hasUtf8_scrubbed hm']

end Archive

end DocAtlas

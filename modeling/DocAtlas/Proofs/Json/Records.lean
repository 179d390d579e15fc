/-
Records that are written are read back. A record is written member by member and read by setting the field of
each member, so what is read follows the members (`Carries`): a member sets its field, and a member that is
left out, its value being blank, leaves the field blank.
-/
import DocAtlas.Knowledge.FactsJson
import DocAtlas.Knowledge.FactsReader
import DocAtlas.Proofs.Json.Documents
import DocAtlas.Proofs.Text.Tables

namespace DocAtlas.Json

variable {α β : Type}

/-- A value that can be written, and read back as what it was. -/
structure IsStored (toJson : α → Json) (ofJson? : Json → Option α) (x : α) : Prop where
  writable : IsWritable (toJson x)
  read : ofJson? (toJson x) = some x

/-- A number that 64 bits hold. -/
def Fits64 (n : Int) : Prop := -(2 ^ 63) ≤ n ∧ n < 2 ^ 63

instance (n : Int) : Decidable (Fits64 n) := inferInstanceAs (Decidable (_ ∧ _))

/-! ## Lists and tables -/

/-- What is read part by part from what is written part by part. -/
theorem mapM_map_eq_some {write : α → β} {read : β → Option α} {xs : List α} (h : ∀ x ∈ xs, read (write x) = some x) :
    (xs.map write).mapM read = some xs := by
  induction xs with
  | nil => rfl
  | cons x xs ih =>
    obtain ⟨hx, hxs⟩ := List.forall_mem_cons.1 h
    rw [List.map_cons, List.mapM_cons, hx, ih hxs]
    rfl

theorem IsStored.listing {toJson : α → Json} {ofJson? : Json → Option α} {xs : Listing α}
    (h : ∀ x ∈ xs.getD [], IsStored toJson ofJson? x) : IsStored (listing toJson) (list? ofJson?) xs := by
  cases xs with
  | none => exact ⟨.null, rfl⟩
  | some xs =>
    refine ⟨.arr fun v hv => ?_, ?_⟩
    · obtain ⟨x, hx, rfl⟩ := List.mem_map.1 hv
      exact (h x hx).writable
    · change ((xs.map toJson).mapM ofJson?).map some = some (some xs)
      rw [mapM_map_eq_some fun x (hx : x ∈ xs) => (h x hx).read]
      rfl

/-- A list of texts in UTF-8. -/
theorem isStored_texts {ts : Listing Text} (h : ∀ t ∈ ts.getD [], t.isUtf8 = true) : IsStored (listing str) texts? ts :=
  IsStored.listing fun t ht => ⟨.str (h t ht), rfl⟩

/-- A sorted table is read from the object of its entries. -/
theorem isStored_table {toJson : α → Json} {ofJson? : Json → Option α} {t : Table α} (ht : t.Sorted)
    (hkeys : ∀ e ∈ t, e.1.isUtf8 = true) (h : ∀ e ∈ t, IsStored toJson ofJson? e.2) :
    IsStored (fun t : Table α => obj (List.map (fun e => (e.1, toJson e.2)) t)) (table? ofJson?) t := by
  constructor
  · constructor
    · intro m hm
      obtain ⟨e, he, rfl⟩ := List.mem_map.1 hm
      exact hkeys e he
    · intro m hm
      obtain ⟨e, he, rfl⟩ := List.mem_map.1 hm
      exact (h e he).writable
  · have hread : (List.map (fun e : Text × α => (e.1, toJson e.2)) t).mapM
        (fun m => (ofJson? m.2).map fun x => (m.1, x)) = some t :=
      mapM_map_eq_some fun e he => by rw [(h e he).read]; rfl
    unfold table?
    simp only
    rw [hread, Option.map_some, Table.ofPairs_of_sorted ht]

/-! ## Records -/

variable {fields : List (RecordField α)}

/-- Sets the field of a member. -/
def setMember (fields : List (RecordField α)) (r : α) (m : Text × Json) : Option α :=
  match RecordField.named? fields m.1 with
  | some f => f.set m.2 r
  | none => some r

/-- Members that can be written, and that make one record of another. -/
structure Carries (fields : List (RecordField α)) (ms : List (Text × Json)) (r r' : α) : Prop where
  /-- Each has the name of a field, in its letter case. -/
  named : ∀ m ∈ ms, (fields.find? fun f => f.name == m.1).isSome = true
  values : ∀ m ∈ ms, IsWritable m.2
  read : ms.foldlM (setMember fields) r = some r'

namespace Carries

variable {ms ms' : List (Text × Json)} {r r' r'' : α}

theorem nil : Carries fields [] r r := ⟨List.forall_mem_nil _, List.forall_mem_nil _, rfl⟩

theorem append (h : Carries fields ms r r') (h' : Carries fields ms' r' r'') : Carries fields (ms ++ ms') r r'' where
  named := List.forall_mem_append.2 ⟨h.named, h'.named⟩
  values := List.forall_mem_append.2 ⟨h.values, h'.values⟩
  read := by
    rw [List.foldlM_append, h.read]
    exact h'.read

/-- A record that its members make of the blank one. -/
theorem isStored {toJson : α → Json} {ofJson? : Json → Option α} {blank : α} (hwrite : toJson r = obj ms)
    (hread : ofJson? (obj ms) = record? blank fields (obj ms)) (hnames : fields.all (fun f => f.name.isUtf8) = true)
    (h : Carries fields ms blank r) : IsStored toJson ofJson? r where
  writable := by
    have hkeys : ∀ m ∈ ms, m.1.isUtf8 = true := by
      intro m hm
      obtain ⟨f, hf⟩ := Option.isSome_iff_exists.1 (h.named m hm)
      have hname : f.name = m.1 := by simpa using List.find?_some hf
      exact hname ▸ List.all_eq_true.1 hnames f (List.mem_of_find?_eq_some hf)
    exact hwrite ▸ .obj hkeys h.values
  read := by
    rw [hwrite, hread]
    exact h.read

/-- A member for a field of that name. -/
theorem member {key : Text} {v : Json} {f : RecordField α} (hfield : fields.find? (fun f => f.name == key) = some f)
    (hv : IsWritable v) (hset : f.set v r = some r') : Carries fields [(key, v)] r r' where
  named := List.forall_mem_singleton.2 (by rw [hfield]; rfl)
  values := List.forall_mem_singleton.2 hv
  read := by
    have hnamed : RecordField.named? fields key = some f := by
      unfold RecordField.named?
      rw [hfield]
      rfl
    rw [List.foldlM_cons, setMember, hnamed]
    simp only
    rw [hset]
    rfl

variable {key : Text}

theorem text {put : Text → α → α} (hfield : fields.find? (fun f => f.name == key) = some (.plain key text? put))
    {t : Text} (ht : t.isUtf8 = true) : Carries fields [(key, .str t)] r (put t r) := member hfield (.str ht) rfl

theorem int {put : Int → α → α} (hfield : fields.find? (fun f => f.name == key) = some (.plain key int? put)) {n : Int}
    (hn : Fits64 n) : Carries fields [(key, .int n)] r (put n r) :=
  member hfield (.int n) (by
    have hread := int?_int hn.1 hn.2
    unfold Json.int at hread ⊢
    simp only [RecordField.plain, hread, Option.map_some])

theorem bool {put : Bool → α → α} (hfield : fields.find? (fun f => f.name == key) = some (.plain key bool? put))
    (b : Bool) :
    Carries fields [(key, .bool b)] r (put b r) := member hfield (.bool b) rfl

theorem whole {read : Json → Option β} {put : β → α → α}
    (hfield : fields.find? (fun f => f.name == key) = some (.whole key read put)) {toJson : β → Json} {x : β}
    (hx : IsStored toJson read x) : Carries fields [(key, toJson x)] r (put x r) :=
  member hfield hx.writable (by simp only [RecordField.whole, hx.read, Option.map_some])

theorem unlessEmpty {put : Text → α → α} (hfield : fields.find? (fun f => f.name == key) = some (.plain key text? put))
    {t : Text} (ht : t.isUtf8 = true) (hblank : put [] r = r) :
      Carries fields (Json.unlessEmpty key t) r (put t r) := by
  unfold Json.unlessEmpty
  split
  · rename_i hnil
    rw [List.isEmpty_iff.1 hnil, hblank]
    exact nil
  · exact text hfield ht

theorem ifTrue {put : Bool → α → α} (hfield : fields.find? (fun f => f.name == key) = some (.plain key bool? put))
    (b : Bool) (hblank : put false r = r) : Carries fields (Json.ifTrue key b) r (put b r) := by
  unfold Json.ifTrue
  cases b with
  | false =>
    rw [hblank]
    exact nil
  | true => exact bool hfield true

theorem unlessNone {put : Option (List Text) → α → α}
    (hfield : fields.find? (fun f => f.name == key) = some (.whole key texts? put)) {ts : List Text}
    (hts : ∀ t ∈ ts, t.isUtf8 = true) (hblank : put (some []) r = r) :
    Carries fields (Json.unlessNone key ts) r (put (some ts) r) := by
  unfold Json.unlessNone
  split
  · rename_i hnil
    rw [List.isEmpty_iff.1 hnil, hblank]
    exact nil
  · exact whole hfield (show IsStored (listing str) texts? (some ts) from isStored_texts hts)

end Carries

end DocAtlas.Json

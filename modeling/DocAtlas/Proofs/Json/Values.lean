/-
The numbers and texts of a value, part by part. `All` says something of each of them and `mapTexts` changes each of
them; keys are texts too. Putting the members of objects in order keeps what is said of all of them, and reading
numbers as floating-point numbers is a change of each number, possible if each of them fits.
-/
import DocAtlas.Json.Float
import DocAtlas.Json.Sorted
import DocAtlas.Proofs.Text.Tables

namespace DocAtlas.Json

/-! ## Induction -/

/-- To prove something of every value, prove it of a value whose parts have it. -/
theorem ind {motive : Json → Prop} (null : motive null) (bool : ∀ b, motive (bool b)) (num : ∀ lit, motive (num lit))
    (str : ∀ s, motive (str s)) (arr : ∀ items, (∀ v ∈ items, motive v) → motive (arr items))
    (obj : ∀ members : List (Text × Json), (∀ m ∈ members, motive m.2) → motive (obj members)) (v : Json) : motive v :=
  @Json.rec motive (fun items => ∀ v ∈ items, motive v) (fun members => ∀ m ∈ members, motive m.2) (fun m => motive m.2)
    null bool num str arr obj
    (List.forall_mem_nil _) (fun _ _ hv hvs => List.forall_mem_cons.2 ⟨hv, hvs⟩)
    (List.forall_mem_nil _) (fun _ _ hm hms => List.forall_mem_cons.2 ⟨hm, hms⟩) (fun _ _ hv => hv) v

/-! ## Numbers and texts -/

/-- Every number of a value has one property and every text another. -/
inductive All (number text : Text → Prop) : Json → Prop where
  | null : All number text null
  | bool (b : Bool) : All number text (bool b)
  | num {lit : Text} (h : number lit) : All number text (num lit)
  | str {s : Text} (h : text s) : All number text (str s)
  | arr {items : List Json} (h : ∀ v ∈ items, All number text v) : All number text (arr items)
  | obj {members : List (Text × Json)} (hkeys : ∀ m ∈ members, text m.1) (h : ∀ m ∈ members, All number text m.2) :
      All number text (obj members)

section

variable {number number' text text' : Text → Prop} {v : Json}

theorem All.mono (h : v.All number text) (hnumber : ∀ t, number t → number' t) (htext : ∀ t, text t → text' t) :
    v.All number' text' := by
  induction h with
  | null => exact .null
  | bool b => exact .bool b
  | num h => exact .num (hnumber _ h)
  | str h => exact .str (htext _ h)
  | arr _ ih => exact .arr ih
  | obj hkeys _ ih => exact .obj (fun m hm => htext _ (hkeys m hm)) ih

theorem All.and (h : v.All number text) (h' : v.All number' text') :
    v.All (fun t => number t ∧ number' t) fun t => text t ∧ text' t := by
  induction h with
  | null => exact .null
  | bool b => exact .bool b
  | num h =>
    cases h' with
    | num h' => exact .num ⟨h, h'⟩
  | str h =>
    cases h' with
    | str h' => exact .str ⟨h, h'⟩
  | arr _ ih =>
    cases h' with
    | arr h' => exact .arr fun v hv => ih v hv (h' v hv)
  | obj hkeys _ ih =>
    cases h' with
    | obj hkeys' h' => exact .obj (fun m hm => ⟨hkeys m hm, hkeys' m hm⟩) fun m hm => ih m hm (h' m hm)

theorem all_arr {items : List Json} : (Json.arr items).All number text ↔ ∀ v ∈ items, v.All number text :=
  ⟨fun | .arr h => h, .arr⟩

theorem all_obj {members : List (Text × Json)} :
    (Json.obj members).All number text ↔ ∀ m ∈ members, text m.1 ∧ m.2.All number text :=
  ⟨fun | .obj hkeys h => fun m hm => ⟨hkeys m hm, h m hm⟩,
    fun h => .obj (fun m hm => (h m hm).1) fun m hm => (h m hm).2⟩

end

mutual

/-- The value with other numbers and texts. -/
def mapTexts (number text : Text → Text) : Json → Json
  | num lit => num (number lit)
  | str s => str (text s)
  | arr items => arr (mapEach number text items)
  | obj members => obj (mapIn number text members)
  | v => v

/-- The same for each value of a list. -/
def mapEach (number text : Text → Text) : List Json → List Json
  | [] => []
  | v :: vs => mapTexts number text v :: mapEach number text vs

/-- The same for each member of an object. -/
def mapIn (number text : Text → Text) : List (Text × Json) → List (Text × Json)
  | [] => []
  | (k, v) :: ms => (text k, mapTexts number text v) :: mapIn number text ms

end

section

variable {number text : Text → Text} {v : Json}

theorem mapEach_eq (items : List Json) : mapEach number text items = items.map (mapTexts number text) := by
  induction items with
  | nil => rfl
  | cons v vs ih => rw [mapEach, ih, List.map_cons]

theorem mapIn_eq (members : List (Text × Json)) :
    mapIn number text members = members.map fun m => (text m.1, m.2.mapTexts number text) := by
  induction members with
  | nil => rfl
  | cons m ms ih => rw [mapIn, ih, List.map_cons]

theorem mapTexts_arr (items : List Json) :
    (arr items).mapTexts number text = arr (items.map (mapTexts number text)) := by
  rw [mapTexts, mapEach_eq]

theorem mapTexts_obj (members : List (Text × Json)) :
    (obj members).mapTexts number text = obj (members.map fun m => (text m.1, m.2.mapTexts number text)) := by
  rw [mapTexts, mapIn_eq]

/-- What is true of the numbers and texts put in is true of all. -/
theorem All.mapTexts {p q p' q' : Text → Prop} (h : v.All p q) (hnumber : ∀ t, p t → p' (number t))
    (htext : ∀ t, q t → q' (text t)) :
    (v.mapTexts number text).All p' q' := by
  induction h with
  | null => exact .null
  | bool b => exact .bool b
  | num h => exact .num (hnumber _ h)
  | str h => exact .str (htext _ h)
  | arr _ ih =>
    rw [mapTexts_arr, all_arr]
    exact List.forall_mem_map.2 ih
  | obj hkeys _ ih =>
    rw [mapTexts_obj, all_obj]
    exact List.forall_mem_map.2 fun m hm => ⟨htext _ (hkeys m hm), ih m hm⟩

/-- A value whose numbers and texts stay as they are stays as it is. -/
theorem mapTexts_of_all (h : v.All (fun t => number t = t) fun t => text t = t) : v.mapTexts number text = v := by
  induction h with
  | null => rfl
  | bool b => rfl
  | num h => rw [Json.mapTexts, h]
  | str h => rw [Json.mapTexts, h]
  | arr _ ih =>
    rw [mapTexts_arr, List.map_congr_left ih]
    exact congrArg arr (List.map_id _)
  | obj hkeys _ ih =>
    rw [mapTexts_obj, List.map_congr_left (g := id) fun m hm => Prod.ext (hkeys m hm) (ih m hm), List.map_id]

end

/-! ## Members in order -/

section

variable {number text : Text → Prop} {v : Json}

theorem sortedEach_eq (items : List Json) : sortedEach items = items.map sorted := by
  induction items with
  | nil => rfl
  | cons v vs ih => rw [sortedEach, ih, List.map_cons]

theorem sortedIn_eq (members : List (Text × Json)) : sortedIn members = members.map fun m => (m.1, m.2.sorted) := by
  induction members with
  | nil => rfl
  | cons m ms ih => rw [sortedIn, ih, List.map_cons]

theorem sorted_arr (items : List Json) : (arr items).sorted = arr (items.map sorted) := by rw [sorted, sortedEach_eq]

theorem sorted_obj (members : List (Text × Json)) :
    (obj members).sorted = obj (Table.ofPairs (members.map fun m => (m.1, m.2.sorted))) := by
  rw [sorted, sortedIn_eq, sortMembers]

theorem All.sorted (h : v.All number text) : v.sorted.All number text := by
  induction h with
  | null => exact .null
  | bool b => exact .bool b
  | num h => exact .num h
  | str h => exact .str h
  | arr _ ih =>
    rw [sorted_arr, all_arr]
    exact List.forall_mem_map.2 ih
  | obj hkeys _ ih =>
    rw [sorted_obj, all_obj]
    intro m hm
    obtain ⟨m, hmem, rfl⟩ := List.mem_map.1 (Table.mem_of_mem_ofPairs hm)
    exact ⟨hkeys m hmem, ih m hmem⟩

/-- Under a key a table of members has what the last member with the key has. -/
theorem find?_ofPairs_lookup? {β : Type} (f : Json → β) (members : List (Text × Json)) (k : Text) :
    Table.find? k (Table.ofPairs (members.map fun m => (m.1, f m.2))) = (lookup? k members).map f := by
  rw [Table.find?_ofPairs, List.filter_map, List.getLast?_map, Option.map_map, lookup?, Option.map_map,
    ← List.head?_reverse, ← List.filter_reverse, List.head?_filter]
  rfl

theorem sorted_eq_obj {v : Json} : (∃ members, v.sorted = .obj members) ↔ ∃ members, v = .obj members := by
  cases v with
  | obj members => exact iff_of_true ⟨_, sorted_obj members⟩ ⟨members, rfl⟩
  | _ => simp [Json.sorted]

/-- The members of every object of a value are in order, each key once. -/
inductive InOrder : Json → Prop where
  | null : InOrder null
  | bool (b : Bool) : InOrder (bool b)
  | num (lit : Text) : InOrder (num lit)
  | str (s : Text) : InOrder (str s)
  | arr {items : List Json} (h : ∀ v ∈ items, InOrder v) : InOrder (arr items)
  | obj {members : List (Text × Json)} (hsorted : Table.Sorted members) (h : ∀ m ∈ members, InOrder m.2) :
    InOrder (obj members)

theorem inOrder_obj {members : List (Text × Json)} :
    (Json.obj members).InOrder ↔ Table.Sorted members ∧ ∀ m ∈ members, m.2.InOrder :=
  ⟨fun | .obj hsorted h => ⟨hsorted, h⟩, fun ⟨hsorted, h⟩ => .obj hsorted h⟩

theorem inOrder_sorted (v : Json) : v.sorted.InOrder := by
  induction v using ind with
  | null => exact .null
  | bool b => exact .bool b
  | num lit => exact .num lit
  | str s => exact .str s
  | arr items ih =>
    rw [sorted_arr]
    exact .arr (List.forall_mem_map.2 ih)
  | obj members ih =>
    rw [sorted_obj]
    refine .obj (Table.sorted_ofPairs _) fun m hm => ?_
    obtain ⟨m, hmem, rfl⟩ := List.mem_map.1 (Table.mem_of_mem_ofPairs hm)
    exact ih m hmem

end

/-! ## Numbers as floating-point numbers -/

/-- A number that is not too large. -/
def Fits (lit : Text) : Prop := (float? lit).isSome = true

instance (lit : Text) : Decidable (Fits lit) := inferInstanceAs (Decidable (_ = _))

/-- A number as documents write it. -/
def shortened (lit : Text) : Text := ((float? lit).map Binary64.documentText).getD lit

theorem floatsEach?_eq (items : List Json) : floatsEach? items = items.mapM floats? := by
  induction items with
  | nil => rfl
  | cons v vs ih => rw [floatsEach?, ih, List.mapM_cons]

theorem floatsIn?_eq (members : List (Text × Json)) :
    floatsIn? members = members.mapM fun m => (floats? m.2).map fun v => (m.1, v) := by
  induction members with
  | nil => rfl
  | cons m ms ih =>
    rw [floatsIn?, ih, List.mapM_cons]
    cases floats? m.2 <;> rfl

section

variable {α β : Type} {f : α → Option β} {xs : List α}

theorem mapM_eq_some {g : α → β} (h : ∀ x ∈ xs, f x = some (g x)) : xs.mapM f = some (xs.map g) := by
  induction xs with
  | nil => rfl
  | cons x xs ih =>
    obtain ⟨hx, hxs⟩ := List.forall_mem_cons.1 h
    rw [List.mapM_cons, hx, ih hxs]
    rfl

theorem isSome_of_mapM (h : (xs.mapM f).isSome = true) : ∀ x ∈ xs, (f x).isSome = true := by
  induction xs with
  | nil => exact List.forall_mem_nil _
  | cons x xs ih =>
    rw [List.mapM_cons] at h
    refine List.forall_mem_cons.2 ⟨?_, ih ?_⟩
    · cases hx : f x with
      | none =>
        rw [hx] at h
        cases h
      | some y => rfl
    · cases hxs : xs.mapM f with
      | none =>
        rw [hxs] at h
        cases hx : f x <;> rw [hx] at h <;> cases h
      | some ys => rfl

end

/-- Numbers are changed where each of them fits. -/
theorem floats?_of_all {v : Json} (h : v.All Fits fun _ => True) : v.floats? = some (v.mapTexts shortened id) := by
  induction h with
  | null => rfl
  | bool b => rfl
  | @num lit h =>
    obtain ⟨x, hx⟩ := Option.isSome_iff_exists.1 h
    rw [floats?, mapTexts, shortened, hx]
    rfl
  | str h => rfl
  | arr _ ih =>
    rw [floats?, floatsEach?_eq, mapM_eq_some ih, mapTexts_arr]
    rfl
  | obj _ _ ih =>
    rw [floats?, floatsIn?_eq, mapM_eq_some fun m hm => by rw [ih m hm]; rfl, mapTexts_obj]
    rfl

theorem all_of_floats? {v : Json} (h : v.floats?.isSome = true) : v.All Fits fun _ => True := by
  induction v using ind with
  | null => exact .null
  | bool b => exact .bool b
  | num lit =>
    rw [floats?, Option.isSome_map] at h
    exact .num h
  | str s => exact .str trivial
  | arr items ih =>
    rw [floats?, Option.isSome_map, floatsEach?_eq] at h
    exact .arr fun v hv => ih v hv (isSome_of_mapM h v hv)
  | obj members ih =>
    rw [floats?, Option.isSome_map, floatsIn?_eq] at h
    refine .obj (fun _ _ => trivial) fun m hm => ih m hm ?_
    have := isSome_of_mapM h m hm
    rwa [Option.isSome_map] at this

end DocAtlas.Json

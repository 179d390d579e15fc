/-
What a value stands for, numbers exactly and the members of an object without their order, the last of equal keys
counting. Putting members in order does not change it; changing numbers changes it unless each number that counts stays
what it is.
-/
import DocAtlas.Proofs.Json.Values

namespace DocAtlas

/-- What a value stands for. -/
inductive Meaning where
  | null
  | bool (b : Bool)
  | num (q : ℚ)
  | str (s : Text)
  | arr (items : List Meaning)
  | obj (members : List (Text × Meaning))

namespace Json

/-- The number a literal stands for. -/
def numberOf (lit : Text) : ℚ :=
  let (neg, digits, exp10) := decimalOf lit
  (if neg then -(digits : ℚ) else digits) * 10 ^ exp10

mutual

/-- What a value stands for. -/
def meaning : Json → Meaning
  | null => .null
  | bool b => .bool b
  | num lit => .num (numberOf lit)
  | str s => .str s
  | arr items => .arr (meaningEach items)
  | obj members => .obj (Table.ofPairs (meaningIn members))

/-- The same for each value of a list. -/
def meaningEach : List Json → List Meaning
  | [] => []
  | v :: vs => meaning v :: meaningEach vs

/-- The same for each member of an object. -/
def meaningIn : List (Text × Json) → List (Text × Meaning)
  | [] => []
  | (k, v) :: ms => (k, meaning v) :: meaningIn ms

end

/-- What the members of an object stand for. -/
def meanings (ms : List (Text × Json)) : Table Meaning := Table.ofPairs (ms.map fun m => (m.1, m.2.meaning))

theorem meaningEach_eq (items : List Json) : meaningEach items = items.map meaning := by
  induction items with
  | nil => rfl
  | cons v vs ih => rw [meaningEach, ih, List.map_cons]

theorem meaningIn_eq (ms : List (Text × Json)) : meaningIn ms = ms.map fun m => (m.1, m.2.meaning) := by
  induction ms with
  | nil => rfl
  | cons m ms ih => rw [meaningIn, ih, List.map_cons]

theorem meaning_arr (items : List Json) : (arr items).meaning = .arr (items.map meaning) := by
  rw [meaning, meaningEach_eq]

theorem meaning_obj (ms : List (Text × Json)) : (obj ms).meaning = .obj (meanings ms) := by
  rw [meaning, meaningIn_eq, meanings]

theorem exists_of_meaning_eq_obj {v : Json} {t : List (Text × Meaning)} (h : v.meaning = .obj t) :
    ∃ ms, v = .obj ms := by
  cases v with
  | obj ms => exact ⟨ms, rfl⟩
  | _ => simp [meaning] at h

/-! ## Members in order -/

theorem meanings_of_sorted {ms : List (Text × Json)} (h : Table.Sorted ms) :
    meanings ms = ms.map fun m => (m.1, m.2.meaning) :=
  Table.ofPairs_of_sorted ((Table.sorted_map _).2 h)

theorem meanings_put {ms : Table Json} (h : Table.Sorted ms) (k : Text) (v : Json) :
    meanings (Table.put k v ms) = Table.put k v.meaning (meanings ms) := by
  rw [meanings_of_sorted (Table.sorted_put _ _ h), meanings_of_sorted h, Table.map_put meaning]

/-- The order of members under different keys does not matter. -/
theorem meanings_perm {ms ns : Table Json} (h : ms.Perm ns) (hms : Table.Sorted ms) : meanings ms = meanings ns :=
  Table.ofPairs_perm (h.map _) ((Table.pairwise_keys ((Table.sorted_map _).2 hms)).imp fun h => h.2)

theorem meaning_sorted (v : Json) : v.sorted.meaning = v.meaning := by
  induction v using ind with
  | null => rfl
  | bool b => rfl
  | num lit => rfl
  | str s => rfl
  | arr items ih =>
    rw [sorted_arr, meaning_arr, meaning_arr, List.map_map]
    exact congrArg Meaning.arr (List.map_congr_left ih)
  | obj ms ih =>
    have hmap : ms.map (fun m => (m.1, m.2.sorted.meaning)) = ms.map fun m => (m.1, m.2.meaning) :=
      List.map_congr_left fun m hm => by rw [ih m hm]
    rw [sorted_obj, meaning_obj, meaning_obj, meanings, Table.map_ofPairs, List.map_map,
      Table.ofPairs_of_sorted (Table.sorted_ofPairs _)]
    exact congrArg (fun ps => Meaning.obj (Table.ofPairs ps)) hmap

/-- Numbers are changed and members put in order, one after the other in either order. -/
theorem sorted_mapTexts (number : Text → Text) (v : Json) :
    (v.mapTexts number id).sorted = v.sorted.mapTexts number id := by
  induction v using ind with
  | null => rfl
  | bool b => rfl
  | num lit => rfl
  | str s => rfl
  | arr items ih =>
    rw [mapTexts_arr, sorted_arr, sorted_arr, mapTexts_arr, List.map_map, List.map_map]
    exact congrArg arr (List.map_congr_left ih)
  | obj ms ih =>
    rw [mapTexts_obj, sorted_obj, sorted_obj, mapTexts_obj, List.map_map]
    refine congrArg obj (Eq.trans ?_ (Table.map_ofPairs (fun v : Json => v.mapTexts number id) _).symm)
    rw [List.map_map]
    exact congrArg Table.ofPairs (List.map_congr_left fun m hm => congrArg (Prod.mk m.1) (ih m hm))

/-- Changed numbers leave the meaning as it was exactly if each number that counts stands for what it stood for. -/
theorem meaning_mapTexts_iff {number : Text → Text} {v : Json} (h : v.InOrder) :
    (v.mapTexts number id).meaning = v.meaning ↔
    v.All (fun lit => numberOf (number lit) = numberOf lit) fun _ => True := by
  induction h with
  | null => exact iff_of_true rfl .null
  | bool b => exact iff_of_true rfl (.bool b)
  | num lit => exact ⟨fun h => .num (Meaning.num.inj h), fun | .num h => congrArg Meaning.num h⟩
  | str s => exact iff_of_true rfl (.str trivial)
  | arr _ ih =>
    rw [mapTexts_arr, meaning_arr, meaning_arr, Meaning.arr.injEq, List.map_map, List.map_inj_left, all_arr]
    exact forall₂_congr ih
  | @obj ms hsorted _ ih =>
    have hmapped : Table.Sorted (ms.map fun m => (id m.1, m.2.mapTexts number id)) := (Table.sorted_map _).2 hsorted
    rw [mapTexts_obj, meaning_obj, meaning_obj, Meaning.obj.injEq, meanings_of_sorted hsorted,
      meanings_of_sorted hmapped, List.map_map, List.map_inj_left, all_obj]
    refine forall₂_congr fun m hm => ?_
    rw [← ih m hm]
    simp

end Json

end DocAtlas

/-
Tables as maps. Setting a key changes what is found under that key alone; a table made by setting keys
is sorted, so each key stands in it once, and a sorted list of entries is the table of its entries.
-/
import DocAtlas.Text.Table
import Mathlib.Tactic

namespace DocAtlas

/-! ## The order of texts -/

namespace Text

theorem le_refl : ∀ s : Text, le s s = true
  | [] => rfl
  | a :: s => by simp [le, le_refl s]

theorem le_total : ∀ s t : Text, le s t = true ∨ le t s = true
  | [], _ => .inl rfl
  | _ :: _, [] => .inr rfl
  | a :: s, b :: t => by
    simp only [le, Bool.or_eq_true, Bool.and_eq_true, decide_eq_true_eq, beq_iff_eq]
    by_cases hab : a = b
    · exact (le_total s t).imp (fun h => .inr ⟨hab, h⟩) fun h => .inr ⟨hab.symm, h⟩
    · exact (UInt8.lt_or_lt_of_ne hab).imp .inl .inl

theorem le_antisymm : ∀ {s t : Text}, le s t = true → le t s = true → s = t
  | [], [], _, _ => rfl
  | [], _ :: _, _, h => by simp [le] at h
  | _ :: _, [], h, _ => by simp [le] at h
  | a :: s, b :: t, h1, h2 => by
    simp only [le, Bool.or_eq_true, Bool.and_eq_true, decide_eq_true_eq, beq_iff_eq] at h1 h2
    rcases h1 with h1 | ⟨rfl, h1⟩
    · rcases h2 with h2 | ⟨rfl, -⟩
      · exact absurd h2 (UInt8.lt_asymm h1)
      · exact absurd h1 (UInt8.lt_irrefl _)
    · rcases h2 with h2 | ⟨-, h2⟩
      · exact absurd h2 (UInt8.lt_irrefl _)
      · rw [le_antisymm h1 h2]

theorem le_trans : ∀ {s t u : Text}, le s t = true → le t u = true → le s u = true
  | [], _, _, _, _ => rfl
  | _ :: _, [], _, h, _ => by simp [le] at h
  | _ :: _, _ :: _, [], _, h => by simp [le] at h
  | a :: s, b :: t, c :: u, h1, h2 => by
    simp only [le, Bool.or_eq_true, Bool.and_eq_true, decide_eq_true_eq, beq_iff_eq] at h1 h2 ⊢
    rcases h1 with h1 | ⟨rfl, h1⟩
    · rcases h2 with h2 | ⟨rfl, -⟩
      · exact .inl (UInt8.lt_trans h1 h2)
      · exact .inl h1
    · rcases h2 with h2 | ⟨rfl, h2⟩
      · exact .inl h2
      · exact .inr ⟨rfl, le_trans h1 h2⟩

/-- Strictly before in byte order. -/
def Before (s t : Text) : Prop := le s t = true ∧ s ≠ t

instance (s t : Text) : Decidable (Before s t) := inferInstanceAs (Decidable (_ ∧ _))

theorem Before.trans {s t u : Text} (h1 : Before s t) (h2 : Before t u) : Before s u := by
  refine ⟨le_trans h1.1 h2.1, ?_⟩
  rintro rfl
  exact h1.2 (le_antisymm h1.1 h2.1)

theorem before_of_not_le {s t : Text} (h : le s t ≠ true) : Before t s := by
  refine ⟨(le_total s t).resolve_left h, ?_⟩
  rintro rfl
  exact h (le_refl t)

end Text

namespace Table

variable {α : Type}

/-! ## Finding -/

theorem find?_cons (k key : Text) (value : α) (t : Table α) :
    find? k ((key, value) :: t) = if key = k then some value else find? k t := by
  unfold find?
  rw [List.find?_cons]
  by_cases h : key = k
  · simp [h]
  · rw [if_neg h, beq_eq_false_iff_ne.2 h]

/-- Other values under the same keys are found under them. -/
theorem find?_map {β : Type} (f : α → β) (k : Text) (t : Table α) :
    find? k (List.map (fun e => (e.1, f e.2)) t) = (find? k t).map f := by
  induction t with
  | nil => rfl
  | cons e t ih =>
    rw [List.map_cons, find?_cons, ih, find?_cons]
    split <;> rfl

theorem mem_of_find? {k : Text} {x : α} {t : Table α} (h : find? k t = some x) : (k, x) ∈ t := by
  obtain ⟨e, he, rfl⟩ := Option.map_eq_some_iff.1 h
  have hk : e.1 = k := by simpa using List.find?_some he
  rw [← hk]
  exact List.mem_of_find?_eq_some he

theorem isSome_find? {k : Text} {t : Table α} : (find? k t).isSome = true ↔ k ∈ keys t := by
  unfold find? keys
  rw [Option.isSome_map, List.find?_isSome]
  simp

/-- Setting the value of a key changes what is found under that key alone. -/
theorem find?_put (key : Text) (value : α) (t : Table α) (k : Text) :
    find? k (put key value t) = if key = k then some value else find? k t := by
  induction t with
  | nil => rw [put, find?_cons]
  | cons e t ih =>
    obtain ⟨k', v⟩ := e
    rw [put]
    split
    · rename_i h
      subst h
      rw [find?_cons, find?_cons]
      split <;> rfl
    · rename_i hne
      split
      · rw [find?_cons, ih, find?_cons]
        by_cases h : k' = k
        · rw [if_pos h, if_pos h, if_neg fun heq => hne (h.trans heq.symm)]
        · rw [if_neg h, if_neg h]
      · rw [find?_cons]

theorem mem_keys_put {key : Text} {value : α} {t : Table α} {k : Text} :
    k ∈ keys (put key value t) ↔ k = key ∨ k ∈ keys t := by
  rw [← isSome_find?, ← isSome_find?, find?_put]
  by_cases h : key = k
  · simp [h]
  · rw [if_neg h]
    exact (or_iff_right (Ne.symm h)).symm

/-! ## Sorted tables -/

/-- The keys are in byte order, each once. -/
def Sorted (t : Table α) : Prop := List.Pairwise (fun p q => Text.Before p.1 q.1) t

@[simp] theorem sorted_nil : Sorted ([] : Table α) := List.Pairwise.nil

theorem sorted_cons {p : Text × α} {t : Table α} : Sorted (p :: t) ↔ (∀ q ∈ t, Text.Before p.1 q.1) ∧ Sorted t :=
  List.pairwise_cons

theorem find?_of_mem {k : Text} {x : α} {t : Table α} (ht : Sorted t) (h : (k, x) ∈ t) : find? k t = some x := by
  induction t with
  | nil => cases h
  | cons p t ih =>
    obtain ⟨k', v⟩ := p
    obtain ⟨hfirst, ht⟩ := sorted_cons.1 ht
    rw [find?_cons]
    rcases List.mem_cons.1 h with h | h
    · cases h; simp
    · rw [if_neg (hfirst _ h).2, ih ht h]

theorem mem_put {key : Text} {value : α} {t : Table α} {e : Text × α} (h : e ∈ put key value t) :
    e = (key, value) ∨ e ∈ t := by
  induction t with
  | nil => exact .inl (List.mem_singleton.1 h)
  | cons p t ih =>
    obtain ⟨k', v⟩ := p
    rw [put] at h
    split at h
    · exact (List.mem_cons.1 h).imp_right (List.mem_cons_of_mem _)
    · split at h
      · rcases List.mem_cons.1 h with h | h
        · exact .inr (h ▸ List.mem_cons_self ..)
        · exact (ih h).imp_right (List.mem_cons_of_mem _)
      · exact List.mem_cons.1 h

theorem sorted_put (key : Text) (value : α) {t : Table α} (ht : Sorted t) : Sorted (put key value t) := by
  induction t with
  | nil => exact List.pairwise_singleton _ _
  | cons p t ih =>
    obtain ⟨k', v⟩ := p
    obtain ⟨hfirst, ht⟩ := sorted_cons.1 ht
    rw [put]
    split
    · rename_i h
      subst h
      exact sorted_cons.2 ⟨hfirst, ht⟩
    · rename_i hne
      split
      · rename_i hle
        refine sorted_cons.2 ⟨fun e he => ?_, ih ht⟩
        rcases mem_put he with rfl | he
        · exact ⟨hle, hne⟩
        · exact hfirst e he
      · rename_i hle
        have hbefore := Text.before_of_not_le hle
        refine sorted_cons.2 ⟨fun e he => ?_, sorted_cons.2 ⟨hfirst, ht⟩⟩
        rcases List.mem_cons.1 he with rfl | he
        · exact hbefore
        · exact hbefore.trans (hfirst e he)

/-- A key that is new is added, wherever its place is. -/
theorem perm_put {key : Text} (value : α) {t : Table α} (h : key ∉ keys t) :
    (put key value t).Perm ((key, value) :: t) := by
  induction t with
  | nil => exact .refl _
  | cons p t ih =>
    obtain ⟨k', v⟩ := p
    obtain ⟨hne, hrest⟩ := not_or.1 (List.mem_cons.not.1 h)
    rw [put, if_neg (Ne.symm hne)]
    split
    · exact ((ih hrest).cons _).trans (.swap _ _ _)
    · exact .refl _

/-- Of two values under one key the second counts. -/
theorem put_put (key : Text) (value value' : α) (t : Table α) :
    put key value' (put key value t) = put key value' t := by
  induction t with
  | nil => simp [put]
  | cons p t ih =>
    obtain ⟨k', v⟩ := p
    rw [put, put]
    split
    · rw [put, if_pos rfl]
    · rename_i hne
      split
      · rename_i hle
        rw [put, if_neg hne, if_pos hle, ih]
      · rw [put, if_pos rfl]

/-- Setting a key to the value it has changes nothing. -/
theorem put_self {key : Text} {value : α} {t : Table α} (ht : Sorted t) (h : find? key t = some value) :
    put key value t = t := by
  induction t with
  | nil => cases h
  | cons p t ih =>
    obtain ⟨k', v⟩ := p
    obtain ⟨hfirst, ht⟩ := sorted_cons.1 ht
    rw [find?_cons] at h
    rw [put]
    by_cases hk : k' = key
    · rw [if_pos hk] at h
      rw [if_pos hk, Option.some.inj h, hk]
    · rw [if_neg hk] at h
      rw [if_neg hk, if_pos (hfirst _ (mem_of_find? h)).1, ih ht h]

/-- A key that was new is taken away again. -/
theorem erase_put {key : Text} (value : α) {t : Table α} (h : find? key t = none) :
    erase key (put key value t) = t := by
  have hnew : ∀ e ∈ t, (e.1 != key) = true := by
    intro e he
    rw [bne_iff_ne]
    rintro rfl
    have := isSome_find?.2 (show e.1 ∈ keys t from List.mem_map_of_mem he)
    rw [h] at this
    cases this
  induction t with
  | nil => simp [put, erase]
  | cons p t ih =>
    obtain ⟨k', v⟩ := p
    obtain ⟨hk, hnew'⟩ := List.forall_mem_cons.1 hnew
    have hne : k' ≠ key := by simpa using hk
    rw [find?_cons, if_neg hne] at h
    rw [put, if_neg hne]
    split
    · exact (List.filter_cons_of_pos (p := fun e : Text × α => e.1 != key) hk).trans (congrArg _ (ih h hnew'))
    · unfold erase
      rw [List.filter_cons_of_neg (by simp), List.filter_eq_self.2 hnew]

theorem sorted_foldl_put (ps : List (Text × α)) {t : Table α} (ht : Sorted t) :
    Sorted (ps.foldl (fun t p => put p.1 p.2 t) t) := by
  induction ps generalizing t with
  | nil => exact ht
  | cons p ps ih => exact ih (sorted_put p.1 p.2 ht)

theorem sorted_ofPairs (ps : List (Text × α)) : Sorted (ofPairs ps) := sorted_foldl_put ps sorted_nil

/-- Setting keys one after the other: what is found is the last value set, or what was found before. -/
theorem find?_foldl_put (ps : List (Text × α)) (t : Table α) (k : Text) :
    find? k (ps.foldl (fun t p => put p.1 p.2 t) t) =
      ((ps.filter (·.1 == k)).getLast?.map Prod.snd).or (find? k t) := by
  induction ps generalizing t with
  | nil => rfl
  | cons p ps ih =>
    rw [List.foldl_cons, ih, find?_put]
    by_cases hk : p.1 = k
    · rw [List.filter_cons_of_pos (by simpa using hk), List.getLast?_cons, if_pos hk]
      cases (ps.filter (·.1 == k)).getLast? <;> rfl
    · rw [List.filter_cons_of_neg (by simpa using hk), if_neg hk]

theorem find?_ofPairs (ps : List (Text × α)) (k : Text) :
    find? k (ofPairs ps) = (ps.filter (·.1 == k)).getLast?.map Prod.snd := by
  rw [ofPairs, find?_foldl_put]
  exact Option.or_none

theorem mem_keys_ofPairs {ps : List (Text × α)} {k : Text} : k ∈ keys (ofPairs ps) ↔ k ∈ keys ps := by
  rw [← isSome_find?, find?_ofPairs, Option.isSome_map, List.getLast?_isSome, ne_eq, List.filter_eq_nil_iff]
  simp [keys]

theorem mem_of_mem_ofPairs {ps : List (Text × α)} {e : Text × α} (h : e ∈ ofPairs ps) : e ∈ ps := by
  have hfold : ∀ (ps : List (Text × α)) (t : Table α), e ∈ ps.foldl (fun t p => put p.1 p.2 t) t → e ∈ t ∨ e ∈ ps := by
    intro ps
    induction ps with
    | nil => exact fun t h => .inl h
    | cons p ps ih =>
      intro t h
      rcases ih _ h with h | h
      · rcases mem_put h with rfl | h
        · exact .inr (List.mem_cons_self ..)
        · exact .inl h
      · exact .inr (List.mem_cons_of_mem _ h)
  exact (hfold ps [] h).resolve_left List.not_mem_nil

/-- A key after all others goes to the end. -/
theorem put_of_before {key : Text} (value : α) {t : Table α} (ht : ∀ e ∈ t, Text.Before e.1 key) :
    put key value t = t ++ [(key, value)] := by
  induction t with
  | nil => rfl
  | cons p t ih =>
    obtain ⟨k', v⟩ := p
    obtain ⟨hfirst, ht⟩ := List.forall_mem_cons.1 ht
    rw [put, if_neg hfirst.2, if_pos hfirst.1, ih ht]
    rfl

/-- A sorted table is the table of its entries. -/
theorem ofPairs_of_sorted {t : Table α} (ht : Sorted t) : ofPairs t = t := by
  have hfold : ∀ (ps : List (Text × α)) (t : Table α), Sorted (t ++ ps) →
    ps.foldl (fun t p => put p.1 p.2 t) t = t ++ ps := by
    intro ps
    induction ps with
    | nil => simp
    | cons p ps ih =>
      intro t h
      have hlast : ∀ e ∈ t, Text.Before e.1 p.1 := fun e he =>
        (List.pairwise_append.1 h).2.2 e he p (List.mem_cons_self ..)
      rw [List.foldl_cons, put_of_before p.2 hlast, ih _ (by rwa [List.append_assoc])]
      simp
  exact hfold t [] ht

/-- The keys of a sorted table are in order, each once. -/
theorem pairwise_keys {t : Table α} (ht : Sorted t) : (keys t).Pairwise Text.Before := List.pairwise_map.2 ht

/-- A sorted table is determined by what is found in it. -/
theorem ext_find? {t t' : Table α} (ht : Sorted t) (ht' : Sorted t') (h : ∀ k, find? k t = find? k t') : t = t' := by
  have hmem : ∀ e, e ∈ t ↔ e ∈ t' := fun e =>
    ⟨fun he => mem_of_find? (h e.1 ▸ find?_of_mem ht he), fun he => mem_of_find? (h e.1 ▸ find?_of_mem ht' he)⟩
  have hnodup : ∀ {t : Table α}, Sorted t → t.Nodup := fun ht => ht.imp fun hpq heq => hpq.2 (congrArg Prod.fst heq)
  refine List.Perm.eq_of_pairwise (fun p q _ _ hpq hqp => ?_) ht ht'
    ((List.perm_ext_iff_of_nodup (hnodup ht) (hnodup ht')).2 hmem)
  exact absurd (Text.le_antisymm hpq.1 hqp.1) hpq.2

/-- Tables in which a key was set are equal if the values are, and what is under the other keys. -/
theorem put_inj {key : Text} {x y : α} {t t' : Table α} (ht : Sorted t) (ht' : Sorted t') :
    put key x t = put key y t' ↔ x = y ∧ ∀ k ≠ key, find? k t = find? k t' := by
  constructor
  · intro h
    have hfind : ∀ k, find? k (put key x t) = find? k (put key y t') := fun k => by rw [h]
    refine ⟨?_, fun k hk => ?_⟩
    · have := hfind key
      rw [find?_put, find?_put, if_pos rfl, if_pos rfl] at this
      exact Option.some.inj this
    · have := hfind k
      rwa [find?_put, find?_put, if_neg hk.symm, if_neg hk.symm] at this
  · rintro ⟨rfl, h⟩
    refine ext_find? (sorted_put _ _ ht) (sorted_put _ _ ht') fun k => ?_
    rw [find?_put, find?_put]
    by_cases hk : key = k
    · rw [if_pos hk, if_pos hk]
    · rw [if_neg hk, if_neg hk, h k (Ne.symm hk)]

/-- Tables with the same under a key are equal if they are after it was set. -/
theorem eq_of_put_eq {key : Text} {x y : α} {t t' : Table α} (ht : Sorted t) (ht' : Sorted t')
    (h : put key x t = put key y t') (hkey : find? key t = find? key t') : t = t' :=
  ext_find? ht ht' fun k => by
    by_cases hk : k = key
    · rw [hk, hkey]
    · exact ((put_inj ht ht').1 h).2 k hk

/-- Other values under the same keys. -/
theorem sorted_map {β : Type} (f : Text × α → β) {t : Table α} : Sorted (List.map (fun e => (e.1, f e)) t) ↔ Sorted t :=
  List.pairwise_map

/-! ## Tables of other values -/

/-- Setting a key, then taking other values, is setting the key to the other value. -/
theorem map_put {β : Type} (f : α → β) (key : Text) (value : α) (t : Table α) :
    List.map (fun e => (e.1, f e.2)) (put key value t) = put key (f value) (List.map (fun e => (e.1, f e.2)) t) := by
  induction t with
  | nil => rfl
  | cons e t ih =>
    obtain ⟨k, v⟩ := e
    rw [List.map_cons, put, put]
    split
    · rfl
    · split
      · rw [List.map_cons, ih]
      · rfl

theorem map_ofPairs {β : Type} (f : α → β) (ps : List (Text × α)) :
    List.map (fun e => (e.1, f e.2)) (ofPairs ps) = ofPairs (ps.map fun e => (e.1, f e.2)) := by
  have hfold : ∀ (ps : List (Text × α)) (t : Table α),
    List.map (fun e => (e.1, f e.2)) (ps.foldl (fun t p => put p.1 p.2 t) t) =
      (ps.map fun e => (e.1, f e.2)).foldl (fun t p => put p.1 p.2 t) (List.map (fun e => (e.1, f e.2)) t) := by
    intro ps
    induction ps with
    | nil => exact fun t => rfl
    | cons p ps ih =>
      intro t
      rw [List.foldl_cons, ih, map_put, List.map_cons, List.foldl_cons]
  exact hfold ps []

/-- Where one key has one value, every entry is found. -/
theorem find?_ofPairs_iff {ps : List (Text × α)} (h : ∀ p ∈ ps, ∀ q ∈ ps, p.1 = q.1 → p.2 = q.2) {k : Text} {x : α} :
    find? k (ofPairs ps) = some x ↔ (k, x) ∈ ps := by
  refine ⟨fun hx => mem_of_mem_ofPairs (mem_of_find? hx), fun hx => ?_⟩
  obtain ⟨y, hy⟩ := Option.isSome_iff_exists.1 (isSome_find?.2 (mem_keys_ofPairs.2 (List.mem_map_of_mem hx)))
  have heq : y = x := h (k, y) (mem_of_mem_ofPairs (mem_of_find? hy)) (k, x) hx rfl
  rw [hy, heq]

/-- Entries of which one key has one value make the same table in any order. -/
theorem ofPairs_congr {ps qs : List (Text × α)} (hperm : ps.Perm qs) (h : ∀ p ∈ ps, ∀ q ∈ ps, p.1 = q.1 → p.2 = q.2) :
    ofPairs ps = ofPairs qs := by
  have h' : ∀ p ∈ qs, ∀ q ∈ qs, p.1 = q.1 → p.2 = q.2 :=
    fun p hp q hq => h p (hperm.mem_iff.2 hp) q (hperm.mem_iff.2 hq)
  refine ext_find? (sorted_ofPairs ps) (sorted_ofPairs qs) fun k => Option.ext fun x => ?_
  rw [find?_ofPairs_iff h, find?_ofPairs_iff h', hperm.mem_iff]

/-- Entries under different keys make the same table in any order. -/
theorem ofPairs_perm {ps qs : List (Text × α)} (h : ps.Perm qs) (hnodup : (keys ps).Nodup) : ofPairs ps = ofPairs qs :=
  ofPairs_congr h fun _ hp _ hq hkey => congrArg Prod.snd (List.inj_on_of_nodup_map hnodup hp hq hkey)

end Table

end DocAtlas

/-
What a cache of files holds. It never puts a file away to make room for another: once it is full, files that
are not in it are refused, so it holds the first files that were asked for and could be read, up to its limit.

The invariant is `KeepsFirst`; a fetch is one step, and what it returns is decided by what was asked for so far.
-/
import DocAtlas.Files.FileCache
import DocAtlas.Proofs.Text.Tables

namespace DocAtlas

namespace Table

variable {α : Type}

theorem length_put {key : Text} (value : α) {t : Table α} (h : find? key t = none) :
    (put key value t).length = t.length + 1 := by
  induction t with
  | nil => rfl
  | cons e t ih =>
    obtain ⟨k, v⟩ := e
    rw [find?_cons] at h
    rw [put]
    split
    · rename_i heq
      rw [if_pos heq] at h
      cases h
    · rename_i hne
      rw [if_neg hne] at h
      split
      · rw [List.length_cons, ih h, List.length_cons]
      · rfl

end Table

namespace FileCache

section

variable (contents : Text → Option Text) (limit : Int)

/-- The different files among some paths that can be read. -/
def readable (asked : List Text) : Finset Text := (asked.filter fun p => (contents p).isSome).toFinset

/-- A path was asked for when fewer files than the limit had been read. -/
def Taken (asked : List Text) (path : Text) : Prop :=
  ∃ before later, asked = before ++ path :: later ∧ ((readable contents before).card : Int) < limit

/-- A cache that was asked for some paths: it holds the files that were taken. -/
structure KeepsFirst (asked : List Text) (c : FileCache) : Prop where
  bound : c.limit = limit
  files : ∀ path content, Table.find? path c.files = some content ↔ contents path = some content ∧
    Taken contents limit asked path
  count : (c.files.length : Int) = min limit (readable contents asked).card

end

variable {contents : Text → Option Text} {limit : Int} {asked : List Text} {c : FileCache} {d : Disk} {path : Text}

theorem mem_readable {p : Text} : p ∈ readable contents asked ↔ p ∈ asked ∧ (contents p).isSome = true := by
  unfold readable
  rw [List.mem_toFinset, List.mem_filter]

theorem readable_subset {more : List Text} (h : asked ⊆ more) :
    readable contents asked ⊆ readable contents more := fun _ hp =>
  mem_readable.2 ⟨h (mem_readable.1 hp).1, (mem_readable.1 hp).2⟩

theorem readable_concat (p : Text) : readable contents (asked ++ [p]) =
    if (contents p).isSome then insert p (readable contents asked) else readable contents asked := by
  ext q
  split <;> rename_i hp <;> simp only [mem_readable, List.mem_append, List.mem_singleton, Finset.mem_insert]
  · constructor
    · rintro ⟨hq | rfl, hsome⟩
      · exact .inr ⟨hq, hsome⟩
      · exact .inl rfl
    · rintro (rfl | ⟨hq, hsome⟩)
      · exact ⟨.inr rfl, hp⟩
      · exact ⟨.inl hq, hsome⟩
  · refine ⟨?_, fun ⟨hq, hsome⟩ => ⟨.inl hq, hsome⟩⟩
    rintro ⟨hq | rfl, hsome⟩
    · exact ⟨hq, hsome⟩
    · exact absurd hsome hp

theorem Taken.mem (h : Taken contents limit asked path) : path ∈ asked := by
  obtain ⟨before, later, rfl, -⟩ := h
  simp

/-- While there is room every path is taken. -/
theorem taken_of_mem (h : path ∈ asked) (hroom : ((readable contents asked).card : Int) < limit) :
    Taken contents limit asked path := by
  obtain ⟨before, later, rfl⟩ := List.append_of_mem h
  refine ⟨before, later, rfl, lt_of_le_of_lt ?_ hroom⟩
  exact_mod_cast Finset.card_le_card (readable_subset (List.subset_append_left _ _))

/-- A limit that no list of different paths exceeds takes every path. -/
theorem taken_of_few (all : List Text) (hall : ∀ p ∈ asked, p ∈ all) (hfew : (all.length : Int) ≤ limit)
    (h : path ∈ asked) :
    Taken contents limit asked path := by
  obtain ⟨before, later, rfl, hfirst⟩ := List.eq_append_cons_of_mem h
  refine ⟨before, later, rfl, ?_⟩
  have hsub : readable contents before ⊆ all.toFinset.erase path := by
    intro p hp
    have hmem := (mem_readable.1 hp).1
    refine Finset.mem_erase.2 ⟨fun heq => hfirst (heq ▸ hmem), List.mem_toFinset.2 (hall p ?_)⟩
    exact List.mem_append_left _ hmem
  have hcard := Finset.card_le_card hsub
  have herase := Finset.card_erase_lt_of_mem (List.mem_toFinset.2 (hall path h))
  have hlength := all.toFinset_card_le
  omega

/-- Asking for one more path takes that path at most. -/
theorem taken_concat {p : Text} : Taken contents limit (asked ++ [p]) path ↔
    Taken contents limit asked path ∨ path = p ∧ ((readable contents asked).card : Int) < limit := by
  constructor
  · rintro ⟨before, later, heq, hroom⟩
    rcases List.eq_nil_or_concat later with rfl | ⟨later, q, rfl⟩
    · obtain ⟨rfl, h⟩ := List.append_inj' heq rfl
      cases h
      exact .inr ⟨rfl, hroom⟩
    · rw [List.concat_eq_append, ← List.cons_append, ← List.append_assoc] at heq
      obtain ⟨rfl, -⟩ := List.append_inj' heq rfl
      exact .inl ⟨before, later, rfl, hroom⟩
  · rintro (⟨before, later, rfl, hroom⟩ | ⟨rfl, hroom⟩)
    · exact ⟨before, later ++ [p], by simp, hroom⟩
    · exact ⟨asked, [], rfl, hroom⟩

/-- Whether a path was taken is decided when it is first asked for. -/
theorem taken_append (h : path ∈ asked) (more : List Text) :
    Taken contents limit (asked ++ more) path ↔ Taken contents limit asked path := by
  induction more using List.reverseRecOn with
  | nil => rw [List.append_nil]
  | append_singleton more p ih =>
    rw [← List.append_assoc, taken_concat, ih]
    refine or_iff_left_of_imp fun ⟨_, hroom⟩ => taken_of_mem h (lt_of_le_of_lt ?_ hroom)
    exact_mod_cast Finset.card_le_card (readable_subset (List.subset_append_left _ _))

theorem keepsFirst_empty (hlimit : 0 < limit) : KeepsFirst contents limit [] (empty limit) where
  bound := rfl
  files path content := by
    constructor
    · intro h
      cases h
    · exact fun h => absurd h.2.mem List.not_mem_nil
  count := by simp [empty, readable, hlimit.le]

/-- A fetch of a path that was asked for again changes nothing. -/
theorem KeepsFirst.append (h : KeepsFirst contents limit asked c) {more : List Text} (hmore : more ⊆ asked) :
    KeepsFirst contents limit (asked ++ more) c where
  bound := h.bound
  files p content := by
    rw [h.files]
    refine and_congr_right fun _ => ⟨fun ht => (taken_append ht.mem more).2 ht, fun ht => ?_⟩
    have hmem : p ∈ asked := (List.mem_append.1 ht.mem).elim id (fun hp => hmore hp)
    exact (taken_append hmem more).1 ht
  count := by
    have hsame : readable contents (asked ++ more) = readable contents asked :=
      Finset.Subset.antisymm (readable_subset (List.append_subset.2 ⟨List.Subset.refl _, hmore⟩))
        (readable_subset (List.subset_append_left _ _))
    rw [hsame, h.count]

/-- What is held depends on the limit and the files alone, not on the counters. -/
theorem KeepsFirst.of_files_eq (h : KeepsFirst contents limit asked c) {c' : FileCache} (hlimit : c'.limit = c.limit)
    (hfiles : c'.files = c.files) : KeepsFirst contents limit asked c' where
  bound := hlimit.trans h.bound
  files := hfiles ▸ h.files
  count := hfiles ▸ h.count

theorem KeepsFirst.isFull_iff (h : KeepsFirst contents limit asked c) (hlimit : 0 < limit) :
    c.isFull = true ↔ limit ≤ (readable contents asked).card := by
  have hcount := h.count
  unfold isFull
  rw [h.bound]
  simp only [Bool.and_eq_true, decide_eq_true_eq]
  omega

/-- A readable path that is not held was not taken. -/
theorem KeepsFirst.not_taken (h : KeepsFirst contents limit asked c) (hmissing : Table.find? path c.files = none)
    {content : Text} (hcontent : contents path = some content) : ¬Taken contents limit asked path := fun htaken =>
  absurd (hmissing.symm.trans ((h.files path content).2 ⟨hcontent, htaken⟩)) (by simp)

/-- Loading a file into a cache with room. -/
theorem load_files (hsource : (d.readFile path).toOption = contents path) :
    (c.load d path).result.toOption = contents path ∧ (c.load d path).cache.limit = c.limit ∧
      (c.load d path).cache.files = match contents path with
        | some content => Table.put path content c.files
        | none => c.files := by
  rw [← hsource]
  unfold load Disk.readFile
  cases d.entry true "open" path with
  | error e => exact ⟨rfl, rfl, rfl⟩
  | ok e => cases e <;> exact ⟨rfl, rfl, rfl⟩

theorem find?_load (hsource : (d.readFile path).toOption = contents path) (hmissing : Table.find? path c.files = none)
    (q : Text) :
    Table.find? q (c.load d path).cache.files = if path = q then contents path else Table.find? q c.files := by
  rw [(load_files hsource).2.2]
  cases contents path with
  | none =>
    by_cases hq : path = q
    · rw [if_pos hq, ← hq]
      exact hmissing
    · exact (if_neg hq).symm
  | some content => exact Table.find?_put ..

/-! ## One fetch -/

theorem fetch_held {content : Text} (hheld : Table.find? path c.files = some content) :
    c.fetch d path = ⟨.ok content, [], { c with hits := c.hits + 1 }⟩ := by
  unfold FileCache.fetch
  rw [hheld]

theorem fetch_refused (hmissing : Table.find? path c.files = none) (hfull : c.isFull = true) :
    c.fetch d path = ⟨.error (.cacheFull c.files.length c.limit), [], { c with misses := c.misses + 1 }⟩ := by
  unfold FileCache.fetch
  rw [hmissing]
  exact if_pos hfull

theorem fetch_loaded (hmissing : Table.find? path c.files = none) (hroom : ¬c.isFull = true) :
    c.fetch d path = FileCache.load { c with misses := c.misses + 1 } d path := by
  unfold FileCache.fetch
  rw [hmissing]
  exact if_neg hroom

/-- A full cache stays as it is whatever it is asked for. -/
theorem KeepsFirst.refuse (h : KeepsFirst contents limit asked c) (hfull : limit ≤ (readable contents asked).card)
    (path : Text) :
    KeepsFirst contents limit (asked ++ [path]) c where
  bound := h.bound
  files q content := by
    rw [taken_concat, or_iff_left fun hq => absurd hq.2 (not_lt.2 hfull)]
    exact h.files q content
  count := by
    have hmore : (readable contents asked).card ≤ (readable contents (asked ++ [path])).card :=
      Finset.card_le_card (readable_subset (List.subset_append_left asked [path]))
    have hcount := h.count
    omega

/-- A cache with room takes the file, if it can be read. -/
theorem KeepsFirst.load (h : KeepsFirst contents limit asked c) (hroom : ((readable contents asked).card : Int) < limit)
    (hmissing : Table.find? path c.files = none) (hsource : (d.readFile path).toOption = contents path) :
    KeepsFirst contents limit (asked ++ [path]) (c.load d path).cache where
  bound := (load_files hsource).2.1.trans h.bound
  files q content := by
    rw [find?_load hsource hmissing]
    by_cases hq : path = q
    · subst hq
      rw [if_pos rfl]
      exact (and_iff_left ⟨asked, [], rfl, hroom⟩).symm
    · rw [if_neg hq, h.files, taken_concat, or_iff_left fun heq => hq heq.1.symm]
  count := by
    rw [(load_files hsource).2.2, readable_concat]
    have hcount := h.count
    cases hcontent : contents path with
    | none => exact hcount
    | some content =>
      have hfresh : path ∉ readable contents asked := fun hmem =>
        h.not_taken hmissing hcontent (taken_of_mem (mem_readable.1 hmem).1 hroom)
      simp only [Option.isSome_some, if_true, Finset.card_insert_of_notMem hfresh, Table.length_put _ hmissing]
      push_cast
      omega

/-- A fetch takes the path if there is room, and returns the content of a path that is taken. -/
theorem KeepsFirst.fetch (h : KeepsFirst contents limit asked c) (hlimit : 0 < limit)
    (hsource : (d.readFile path).toOption = contents path) :
    KeepsFirst contents limit (asked ++ [path]) (c.fetch d path).cache ∧
      ∀ content, (c.fetch d path).result.toOption = some content ↔
        contents path = some content ∧ Taken contents limit (asked ++ [path]) path := by
  cases hfile : Table.find? path c.files with
  | some content =>
    obtain ⟨hcontent, htaken⟩ := (h.files path content).1 hfile
    rw [fetch_held hfile, hcontent]
    exact ⟨(h.append (List.forall_mem_singleton.2 htaken.mem)).of_files_eq rfl rfl,
      fun _ => (and_iff_left ((taken_append htaken.mem [path]).2 htaken)).symm⟩
  | none =>
    by_cases hfull : c.isFull = true
    · have hkept := h.refuse ((h.isFull_iff hlimit).1 hfull) path
      rw [fetch_refused hfile hfull]
      exact ⟨hkept.of_files_eq rfl rfl,
        fun _ => ⟨fun heq => (by cases heq), fun heq => absurd heq.2 (hkept.not_taken hfile heq.1)⟩⟩
    · have hroom : ((readable contents asked).card : Int) < limit := not_le.1 (mt (h.isFull_iff hlimit).2 hfull)
      have hcounted : KeepsFirst contents limit asked { c with misses := c.misses + 1 } := h.of_files_eq rfl rfl
      rw [fetch_loaded hfile hfull]
      refine ⟨hcounted.load hroom hfile hsource, fun _ => ?_⟩
      rw [(load_files hsource).1]
      exact (and_iff_left ⟨asked, [], rfl, hroom⟩).symm

end FileCache

end DocAtlas

/-
What a search selects, said without the walk: a file or link that is let through itself, below
directories that are all let through. Links may stand anywhere in the tree; they are never followed.
-/
import DocAtlas.Files.Discovery
import DocAtlas.Proofs.Files.Resolving
import DocAtlas.Proofs.Files.Visits

namespace DocAtlas

/-- A property of all proper beginnings of a list that is not empty: of the empty one, and of the others. -/
theorem forall_properPrefix_cons {α : Type} {P : List α → Prop} {a : α} {as : List α} :
    (∀ ks, ks <+: a :: as → ks ≠ a :: as → P ks) ↔ P [] ∧ ∀ ks, ks <+: as → ks ≠ as → P (a :: ks) := by
  constructor
  · intro h
    refine ⟨h [] List.nil_prefix (List.cons_ne_nil a as).symm, fun ks hks hne => h (a :: ks) ?_ ?_⟩
    · exact List.cons_prefix_cons.2 ⟨rfl, hks⟩
    · exact fun heq => hne (List.cons.inj heq).2
  · rintro ⟨hnil, hcons⟩ ks hks hne
    rcases List.prefix_cons_iff.1 hks with rfl | ⟨ls, rfl, hls⟩
    · exact hnil
    · exact hcons ls hls fun heq => hne (congrArg (a :: ·) heq)

namespace Discovery

variable {r : DiscoveryRules} {rules : List IgnoreRule}

/-- The names `ms` lead from the entry at `ns` to something that a search which comes to the entry selects. -/
structure Selects (r : DiscoveryRules) (rules : List IgnoreRule) (ns : List Text) (e : Entry) (ms : List Text) :
    Prop where
  leaf : ∃ f, e.get? ms = some f ∧ f.isDir = false
  entered : ∀ ks, ks <+: ms → ks ≠ ms → isExcluded r.excludes rules (Text.joinWith [Path.slash] (ns ++ ks)) true = false
  kept : isExcluded r.excludes rules (Text.joinWith [Path.slash] (ns ++ ms)) false = false
  included : isIncluded r.includes (Text.joinWith [Path.slash] (ns ++ ms)) = true

theorem mem_selectIn {rel at_ : Text} {es : List (Text × Entry)} :
    rel ∈ selectIn r rules at_ es ↔ ∃ p ∈ es, rel ∈ selectAt r rules (below at_ p.1) p.2 := by
  induction es with
  | nil => simp [selectIn]
  | cons p es ih =>
    rw [selectIn, List.mem_append, ih]
    simp

/-- Below a directory something is selected if the directory is let through and it is selected below one of
the entries. -/
theorem selects_dir {ns : List Text} {es : List (Text × Entry)} (hes : (Entry.dir es).Orderly) {ms : List Text} :
    Selects r rules ns (.dir es) ms ↔
      isExcluded r.excludes rules (Text.joinWith [Path.slash] ns) true = false ∧
        ∃ p ∈ es, ∃ ks, ms = p.1 :: ks ∧ Selects r rules (ns ++ [p.1]) p.2 ks := by
  have hassoc : ∀ n ks, ns ++ [n] ++ ks = ns ++ n :: ks := by simp
  constructor
  · rintro ⟨⟨f, hf, hleaf⟩, hentered, hkept, hincluded⟩
    cases ms with
    | nil =>
      rw [Entry.get?_nil] at hf
      cases hf
      cases hleaf
    | cons n ks =>
      obtain ⟨d, hd, hget⟩ := Option.bind_eq_some_iff.1 hf
      obtain ⟨hhere, hentered⟩ := forall_properPrefix_cons.1 hentered
      rw [List.append_nil] at hhere
      refine ⟨hhere, (n, d), Table.mem_of_find? hd, ks, rfl, ⟨f, hget, hleaf⟩, ?_, ?_, ?_⟩
      · intro ks' hks' hne
        rw [hassoc]
        exact hentered ks' hks' hne
      · rw [hassoc]; exact hkept
      · rw [hassoc]; exact hincluded
  · rintro ⟨hhere, p, hp, ks, rfl, ⟨f, hf, hleaf⟩, hentered, hkept, hincluded⟩
    rw [hassoc] at hkept hincluded
    refine ⟨⟨f, ?_, hleaf⟩, forall_properPrefix_cons.2 ⟨?_, ?_⟩, hkept, hincluded⟩
    · rw [Entry.get?_dir, (hes.entry hp).2.1]
      exact hf
    · rw [List.append_nil]; exact hhere
    · intro ks' hks' hne
      rw [← hassoc]
      exact hentered ks' hks' hne

/-- Something without entries is selected itself or not at all. -/
theorem selects_leaf {ns : List Text} {e : Entry} (hdir : e.isDir = false) (hnone : ∀ n ks, e.get? (n :: ks) = none)
    {ms : List Text} :
    Selects r rules ns e ms ↔ ms = [] ∧ isExcluded r.excludes rules (Text.joinWith [Path.slash] ns) false = false ∧
      isIncluded r.includes (Text.joinWith [Path.slash] ns) = true := by
  constructor
  · rintro ⟨⟨f, hf, -⟩, -, hkept, hincluded⟩
    cases ms with
    | cons n ks => rw [hnone] at hf; cases hf
    | nil =>
      rw [List.append_nil] at hkept hincluded
      exact ⟨rfl, hkept, hincluded⟩
  · rintro ⟨rfl, hkept, hincluded⟩
    refine ⟨⟨e, Entry.get?_nil e, hdir⟩, fun ks hks hne => absurd (List.prefix_nil.1 hks) hne, ?_, ?_⟩
    · rw [List.append_nil]; exact hkept
    · rw [List.append_nil]; exact hincluded

/-- What is selected at an entry and below it. -/
theorem mem_selectAt {e : Entry} (he : e.Orderly) {ns : List Text} (hns : ∀ n ∈ ns, Path.IsName n) {rel : Text} :
    rel ∈ selectAt r rules (Text.joinWith [Path.slash] ns) e ↔
      ∃ ms, rel = Text.joinWith [Path.slash] (ns ++ ms) ∧ Selects r rules ns e ms := by
  induction e using Entry.ind generalizing ns rel with
  | file content mode => simp [selectAt, selects_leaf (e := .file content mode) rfl fun _ _ => rfl, and_comm]
  | link target => simp [selectAt, selects_leaf (e := .link target) rfl fun _ _ => rfl, and_comm]
  | dir es ih =>
    have hentry : ∀ p ∈ es, rel ∈ selectAt r rules (below (Text.joinWith [Path.slash] ns) p.1) p.2 ↔
        ∃ ks, rel = Text.joinWith [Path.slash] (ns ++ p.1 :: ks) ∧ Selects r rules (ns ++ [p.1]) p.2 ks := by
      intro p hp
      obtain ⟨hname, -, horderly⟩ := he.entry hp
      have hns' : ∀ n ∈ ns ++ [p.1], Path.IsName n := by simpa [or_imp, forall_and] using ⟨hns, hname⟩
      rw [below_joinWith hns, ih p hp horderly hns']
      simp
    simp only [selects_dir he, selectAt]
    split
    · rename_i hhere
      simp [hhere]
    · rename_i hhere
      rw [Bool.not_eq_true] at hhere
      rw [mem_selectIn]
      constructor
      · rintro ⟨p, hp, hrel⟩
        obtain ⟨ks, rfl, hks⟩ := (hentry p hp).1 hrel
        exact ⟨p.1 :: ks, rfl, hhere, p, hp, ks, rfl, hks⟩
      · rintro ⟨ms, rfl, -, p, hp, ks, rfl, hks⟩
        exact ⟨p, hp, (hentry p hp).2 ⟨ks, rfl, hks⟩⟩

/-- What a search of a directory finds: all and only what its rules select below the root, the root
itself being entered in any case. -/
theorem mem_discover {d : Disk} (hd : d.Orderly) {root : List Text} (hroot : ∀ e ∈ root, Path.IsName e)
    {r : DiscoveryRules} {paths : List Text} (h : discover d (Path.rooted root) r = .ok paths) {path : Text} :
    path ∈ paths ↔ ∃ es, d.lstat (Path.rooted root) = .ok (.dir es) ∧ ∃ p ∈ es, ∃ ks,
      path = Path.rooted (root ++ p.1 :: ks) ∧ Selects r (ignoresOf d r (Path.rooted root)) [p.1] p.2 ks := by
  obtain ⟨-, -, rfl⟩ := discover_eq_ok.1 h
  unfold listed
  split
  · rename_i es hes
    obtain ⟨at_, hat⟩ := Disk.exists_get?_of_entry hd hes
    have horderly := hd.tree.get? hat
    rw [Text.sort, List.mem_mergeSort, List.mem_map]
    simp only [hes, Except.ok.injEq, Entry.dir.injEq, exists_eq_left']
    constructor
    · rintro ⟨rel, hrel, rfl⟩
      obtain ⟨p, hp, hrel⟩ := mem_selectIn.1 hrel
      obtain ⟨hname, hfind, hentry⟩ := horderly.entry hp
      have hns : ∀ n ∈ [p.1], Path.IsName n := by simpa using hname
      obtain ⟨ks, rfl, hks⟩ := (mem_selectAt hentry hns).1 hrel
      obtain ⟨f, hf, -⟩ := hks.leaf
      have hall : ∀ n ∈ p.1 :: ks, Path.IsName n := List.forall_mem_cons.2 ⟨hname, hentry.isName hf⟩
      exact ⟨p, hp, ks, Path.join_rooted hroot hall (List.cons_ne_nil _ _), hks⟩
    · rintro ⟨p, hp, ks, rfl, hks⟩
      obtain ⟨hname, hfind, hentry⟩ := horderly.entry hp
      have hns : ∀ n ∈ [p.1], Path.IsName n := by simpa using hname
      obtain ⟨f, hf, -⟩ := hks.leaf
      have hall : ∀ n ∈ p.1 :: ks, Path.IsName n := List.forall_mem_cons.2 ⟨hname, hentry.isName hf⟩
      exact ⟨_, mem_selectIn.2 ⟨p, hp, (mem_selectAt hentry hns).2 ⟨ks, rfl, hks⟩⟩,
        Path.join_rooted hroot hall (List.cons_ne_nil _ _)⟩
  · rename_i hnone
    simp only [List.not_mem_nil, false_iff, not_exists, not_and]
    exact fun es hes => absurd hes (hnone es)

/-- The way from the root leads back to what was found. -/
theorem join_relativeTo {d : Disk} (hd : d.Orderly) {root : List Text} (hroot : ∀ e ∈ root, Path.IsName e)
    {r : DiscoveryRules} {paths : List Text} (h : discover d (Path.rooted root) r = .ok paths) {p : Text}
    (hp : p ∈ paths) :
    Path.join [Path.rooted root, Path.relativeTo (Path.rooted root) p] = p := by
  obtain ⟨es, hes, q, hq, ks, rfl, hks⟩ := (mem_discover hd hroot h).1 hp
  obtain ⟨at_, hat⟩ := Disk.exists_get?_of_entry hd hes
  obtain ⟨hname, -, hentry⟩ := (hd.tree.get? hat).entry hq
  obtain ⟨f, hf, -⟩ := hks.leaf
  have hall : ∀ n ∈ q.1 :: ks, Path.IsName n := List.forall_mem_cons.2 ⟨hname, hentry.isName hf⟩
  rw [Path.relativeTo_rooted hroot hall (List.cons_ne_nil _ _), Path.join_rooted hroot hall (List.cons_ne_nil _ _)]

/-! ## Nothing twice -/

theorem selectIn_eq {at_ : Text} (es : List (Text × Entry)) :
    selectIn r rules at_ es = es.flatMap fun p => selectAt r rules (below at_ p.1) p.2 := by
  induction es with
  | nil => rfl
  | cons p es ih => rw [selectIn, List.flatMap_cons, ih]

/-- What is selected below different entries of a directory is different. -/
theorem nodup_selectIn {ns : List Text} (hns : ∀ n ∈ ns, Path.IsName n) {es : List (Text × Entry)}
    (hes : (Entry.dir es).Orderly)
    (h : ∀ p ∈ es, (selectAt r rules (below (Text.joinWith [Path.slash] ns) p.1) p.2).Nodup) :
    (selectIn r rules (Text.joinWith [Path.slash] ns) es).Nodup := by
  rw [selectIn_eq, List.nodup_flatMap]
  refine ⟨h, (hes [] es (Entry.get?_nil _)).2.imp_of_mem fun {p q} hp hq hbefore rel hrelp hrelq => hbefore.2 ?_⟩
  -- the name after `ns` tells below which entry a path is
  have hname : ∀ p ∈ es, rel ∈ selectAt r rules (below (Text.joinWith [Path.slash] ns) p.1) p.2 →
      ∃ ks, rel = Text.joinWith [Path.slash] (ns ++ p.1 :: ks) ∧ ∀ n ∈ ns ++ p.1 :: ks, Path.IsName n := by
    intro p hp hrel
    obtain ⟨hname, -, horderly⟩ := hes.entry hp
    have hns' : ∀ n ∈ ns ++ [p.1], Path.IsName n := by simpa [or_imp, forall_and] using ⟨hns, hname⟩
    rw [below_joinWith hns] at hrel
    obtain ⟨ks, rfl, hks⟩ := (mem_selectAt horderly hns').1 hrel
    obtain ⟨f, hf, -⟩ := hks.leaf
    refine ⟨ks, by simp, ?_⟩
    simpa [or_imp, forall_and] using ⟨hns, hname, horderly.isName hf⟩
  obtain ⟨ks, hks, hall⟩ := hname p hp hrelp
  obtain ⟨ls, hls, hall'⟩ := hname q hq hrelq
  exact (List.cons.inj (List.append_cancel_left (Path.joinWith_injective hall hall' (hks.symm.trans hls)))).1

theorem nodup_selectAt {e : Entry} (he : e.Orderly) {ns : List Text} (hns : ∀ n ∈ ns, Path.IsName n) :
    (selectAt r rules (Text.joinWith [Path.slash] ns) e).Nodup := by
  induction e using Entry.ind generalizing ns with
  | file content mode => rw [selectAt]; split <;> simp
  | link target => rw [selectAt]; split <;> simp
  | dir es ih =>
    rw [selectAt]
    split
    · exact List.nodup_nil
    · refine nodup_selectIn hns he fun p hp => ?_
      obtain ⟨hname, -, horderly⟩ := he.entry hp
      rw [below_joinWith hns]
      exact ih p hp horderly (by simpa [or_imp, forall_and] using ⟨hns, hname⟩)

/-- A search that ends well finds no path twice, and the ways to them from the root are different. -/
theorem nodup_discover {d : Disk} (hd : d.Orderly) {root : List Text} (hroot : ∀ e ∈ root, Path.IsName e)
    {r : DiscoveryRules} {paths : List Text} (h : discover d (Path.rooted root) r = .ok paths) :
    (paths.map (Path.relativeTo (Path.rooted root))).Nodup := by
  obtain ⟨-, -, rfl⟩ := discover_eq_ok.1 h
  unfold listed
  split
  · rename_i es hes
    obtain ⟨at_, hat⟩ := Disk.exists_get?_of_entry hd hes
    have horderly := hd.tree.get? hat
    have hnodup : (selectIn r (ignoresOf d r (Path.rooted root)) [] es).Nodup := by
      have hnil : ∀ n ∈ ([] : List Text), Path.IsName n := List.forall_mem_nil _
      refine nodup_selectIn hnil horderly fun p hp => ?_
      obtain ⟨hname, -, hentry⟩ := horderly.entry hp
      have hns : ∀ n ∈ [p.1], Path.IsName n := by simpa using hname
      exact nodup_selectAt hentry hns
    -- the way from the root back to what was selected is what was selected
    have hback : ∀ rel ∈ selectIn r (ignoresOf d r (Path.rooted root)) [] es,
        Path.relativeTo (Path.rooted root) (Path.join [Path.rooted root, rel]) = rel := by
      intro rel hrel
      obtain ⟨p, hp, hrel⟩ := mem_selectIn.1 hrel
      obtain ⟨hname, -, hentry⟩ := horderly.entry hp
      have hns : ∀ n ∈ [p.1], Path.IsName n := by simpa using hname
      obtain ⟨ks, rfl, hks⟩ := (mem_selectAt hentry hns).1 hrel
      obtain ⟨f, hf, -⟩ := hks.leaf
      have hall : ∀ n ∈ p.1 :: ks, Path.IsName n := List.forall_mem_cons.2 ⟨hname, hentry.isName hf⟩
      exact (congrArg _ (Path.join_rooted hroot hall (List.cons_ne_nil _ _))).trans
        (Path.relativeTo_rooted hroot hall (List.cons_ne_nil _ _))
    have hsame := (List.map_congr_left hback).trans (List.map_id' _)
    refine (((List.mergeSort_perm _ _).map _).nodup_iff).2 ?_
    rw [List.map_map]
    exact hsame.symm ▸ hnodup
  · exact List.nodup_nil

theorem pairwise_discover {d : Disk} {root : Text} {r : DiscoveryRules} {paths : List Text}
    (h : discover d root r = .ok paths) :
    paths.Pairwise fun p q => Text.le p q = true := by
  obtain ⟨-, -, rfl⟩ := discover_eq_ok.1 h
  unfold listed
  split
  · apply List.pairwise_mergeSort
    · intro p q t
      exact Text.le_trans
    · intro p q
      rw [Bool.or_eq_true]
      exact Text.le_total p q
  · exact List.Pairwise.nil

end Discovery

end DocAtlas

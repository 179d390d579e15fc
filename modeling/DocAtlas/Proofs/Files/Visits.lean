/-
What a search finds on a disk without links: files below the root of the search, each once. The
selection walks the tree as listing its files does and leaves some of them out, so it is a sublist
of their paths, and different files have different paths.
-/
import DocAtlas.Files.Discovery
import DocAtlas.Proofs.Files.Trees

namespace DocAtlas.Discovery

/-- The paths are those of files below a directory, each once. -/
structure Visits (d : Disk) (root : List Text) (paths : List Text) : Prop where
  nodup : paths.Nodup
  file : ∀ p ∈ paths, ∃ ns content mode, ns ≠ [] ∧ p = Path.rooted (root ++ ns) ∧
    d.root.get? (root ++ ns) = some (.file content mode)

theorem Visits.take {d : Disk} {root paths : List Text} (h : Visits d root paths) (n : Nat) :
    Visits d root (paths.take n) :=
  ⟨h.nodup.sublist (List.take_sublist n paths), fun p hp => h.file p (List.mem_of_mem_take hp)⟩

theorem below_joinWith {ns : List Text} (hns : ∀ n ∈ ns, Path.IsName n) (n : Text) :
    below (Text.joinWith [Path.slash] ns) n = Text.joinWith [Path.slash] (ns ++ [n]) := by
  unfold below
  cases ns with
  | nil => rfl
  | cons m ns =>
    have hne := Path.joinWith_ne_nil (List.cons_ne_nil m ns) hns
    rw [if_neg (by simpa using hne), Path.joinWith_concat (List.cons_ne_nil m ns), List.append_assoc]
    rfl

variable {r : DiscoveryRules} {rules : List IgnoreRule}

/-- If what is selected at each entry of a directory are files there, so is what is selected below the directory. -/
theorem selectIn_sublist {es : List (Text × Entry)} {ns : List Text} (hns : ∀ n ∈ ns, Path.IsName n)
    (hes : ∀ p ∈ es, Path.IsName p.1)
    (h : ∀ p ∈ es, ∀ ms, (∀ m ∈ ms, Path.IsName m) →
      (selectAt r rules (Text.joinWith [Path.slash] ms) p.2).Sublist
        (((p.2.filesAt ms).map Prod.fst).map (Text.joinWith [Path.slash]))) :
    (selectIn r rules (Text.joinWith [Path.slash] ns) es).Sublist
      (((Entry.filesIn ns es).map Prod.fst).map (Text.joinWith [Path.slash])) := by
  induction es with
  | nil => simp [selectIn]
  | cons p es ih =>
    obtain ⟨n, e⟩ := p
    obtain ⟨hn, hes⟩ := List.forall_mem_cons.1 hes
    obtain ⟨hfirst, h⟩ := List.forall_mem_cons.1 h
    rw [selectIn, Entry.filesIn, List.map_append, List.map_append, below_joinWith hns]
    exact (hfirst _ (by simpa [or_imp, forall_and] using ⟨hns, hn⟩)).append (ih hes h)

/-- What is selected at an entry are paths of files there, in the order the files are listed in. -/
theorem selectAt_sublist {e : Entry} (he : e.isPlain = true) {ns : List Text} (hns : ∀ n ∈ ns, Path.IsName n) :
    (selectAt r rules (Text.joinWith [Path.slash] ns) e).Sublist
      (((e.filesAt ns).map Prod.fst).map (Text.joinWith [Path.slash])) := by
  induction e using Entry.ind generalizing ns with
  | file content mode =>
    rw [selectAt, Entry.filesAt]
    split <;> simp
  | link target => cases he
  | dir es ih =>
    have hentries := (Entry.arePlain_iff.1 he).1
    rw [selectAt, Entry.filesAt]
    split
    · exact List.nil_sublist _
    · exact selectIn_sublist hns (fun p hp => (hentries p hp).1) fun p hp ms hms => ih p hp (hentries p hp).2 hms

/-- The paths a search of a root lists. A root that is no directory itself is not walked. -/
def listed (d : Disk) (root : Text) (r : DiscoveryRules) : List Text :=
  match d.lstat root with
  | .ok (.dir es) => Text.sort ((selectIn r (ignoresOf d r root) [] es).map fun rel => Path.join [root, rel])
  | _ => []

/-- A search ends well if its globs are well-formed and its root leads to a directory. -/
theorem discover_eq_ok {d : Disk} {root : Text} {r : DiscoveryRules} {paths : List Text} :
    discover d root r = .ok paths ↔ r.invalid? = none ∧ d.isDir root = true ∧ paths = listed d root r := by
  unfold discover listed Disk.isDir
  cases r.invalid? with
  | some p => simp
  | none =>
    simp only [true_and]
    cases d.stat root with
    | error e => simp
    | ok e =>
      simp only
      cases hdir : e.isDir
      · simp
      · rw [if_neg (by simp)]
        cases d.lstat root with
        | error e => simp [eq_comm]
        | ok l => cases l <;> simp [eq_comm]

/-- Without links an absolute path leads to what stands under its names. -/
theorem get?_of_lstat {d : Disk} (hd : d.Plain) {root : List Text} (hroot : ∀ e ∈ root, Path.IsName e) {e : Entry}
    (h : d.lstat (Path.rooted root) = .ok e) : d.root.get? root = some e := by
  unfold Disk.lstat Disk.entry at h
  split at h
  · rename_i at_ e' hresolve
    cases h
    exact ((Disk.resolve_rooted hd false hroot at_ _).1 hresolve).2
  · cases h
  · cases h

/-- What is selected in a directory are files below it, by the names that lead to them, each once. -/
theorem exists_names (r : DiscoveryRules) (rules : List IgnoreRule) {d : Disk} (hd : d.Plain) {root : List Text}
    {es : List (Text × Entry)} (hget : d.root.get? root = some (.dir es)) :
    ∃ names : List (List Text), selectIn r rules [] es = names.map (Text.joinWith [Path.slash]) ∧ names.Nodup ∧
      ∀ ns ∈ names, (∀ n ∈ ns, Path.IsName n) ∧ ns ≠ [] ∧
        ∃ content mode, d.root.get? (root ++ ns) = some (.file content mode) := by
  have hplain := (Entry.isPlain_of_get? hd.noLinks hget).1
  have hentries := (Entry.arePlain_iff.1 hplain).1
  obtain ⟨hnodup, hfiles⟩ := Entry.filesAt_spec hplain []
  have hsub : (selectIn r rules [] es).Sublist
    (((Entry.filesIn [] es).map Prod.fst).map (Text.joinWith [Path.slash])) :=
    selectIn_sublist (List.forall_mem_nil _) (fun p hp => (hentries p hp).1) fun p hp ms hms =>
      selectAt_sublist (hentries p hp).2 hms
  obtain ⟨names, hnames, hselect⟩ := List.sublist_map_iff.1 hsub
  refine ⟨names, hselect, hnodup.sublist hnames, fun ns hns => ?_⟩
  obtain ⟨f, hf, rfl⟩ := List.mem_map.1 (hnames.subset hns)
  obtain ⟨ns, h1, h2⟩ := hfiles f hf
  rw [List.nil_append] at h1
  rw [h1]
  refine ⟨(Entry.isPlain_of_get? hplain h2).2, ?_, f.2.1, f.2.2, ?_⟩
  · rintro rfl
    cases h2
  · rw [Entry.get?_append, hget]
    exact h2

/-- A search that ends well finds files below its root, each once. -/
theorem discover_visits {d : Disk} (hd : d.Plain) {root : List Text} (hroot : ∀ e ∈ root, Path.IsName e)
    {r : DiscoveryRules} {paths : List Text} (h : discover d (Path.rooted root) r = .ok paths) :
      Visits d root paths := by
  obtain ⟨-, -, rfl⟩ := discover_eq_ok.1 h
  unfold listed
  split
  swap
  · exact ⟨List.nodup_nil, List.forall_mem_nil _⟩
  rename_i es hes
  obtain ⟨names, hselect, hnodup, hname⟩ :=
    exists_names r (ignoresOf d r (Path.rooted root)) hd (get?_of_lstat hd hroot hes)
  have hpaths : (selectIn r (ignoresOf d r (Path.rooted root)) [] es).map
      (fun rel => Path.join [Path.rooted root, rel]) = names.map fun ns => Path.rooted (root ++ ns) := by
    rw [hselect, List.map_map]
    exact List.map_congr_left fun ns hns => Path.join_rooted hroot (hname ns hns).1 (hname ns hns).2.1
  have hperm := List.mergeSort_perm (names.map fun ns => Path.rooted (root ++ ns)) Text.le
  rw [hpaths]
  constructor
  · refine hperm.nodup_iff.2 (hnodup.map_on fun ms hms ns hns heq => ?_)
    have hall : ∀ ks ∈ names, ∀ e ∈ root ++ ks, Path.IsName e := fun ks hks e he =>
      (List.mem_append.1 he).elim (hroot e) ((hname ks hks).1 e)
    have helements := congrArg Path.elements heq
    rw [Path.elements_rooted (hall ms hms), Path.elements_rooted (hall ns hns)] at helements
    exact List.append_cancel_left helements
  · intro p hp
    obtain ⟨ns, hns, rfl⟩ := List.mem_map.1 (hperm.subset hp)
    obtain ⟨-, hne, content, mode, hf⟩ := hname ns hns
    exact ⟨ns, content, mode, hne, rfl, hf⟩

end DocAtlas.Discovery

/-
What a search lists, said by the rules alone: everything below the root that is no directory, that an include
matches and that nothing passes over, neither itself nor one of the directories around it below the root. The
walk leaves whole directories out and comes to the rest in the order of names; the list is in byte order of
paths, each once.
-/
import DocAtlas.Proofs.Files.Selection

namespace DocAtlas

namespace Discovery

/-- An exclude or an ignore rule is about the path. -/
def PassesOver (r : DiscoveryRules) (rules : List IgnoreRule) (rel : Text) : Prop :=
  (∃ p ∈ r.excludes, Glob.isMatch p rel = true) ∨ IgnoreRule.isIgnored rules rel = true

/-- A directory is passed over by what is about its path, with a slash behind it or without. -/
def PassesOverDir (r : DiscoveryRules) (rules : List IgnoreRule) (rel : Text) : Prop :=
  PassesOver r rules rel ∨ PassesOver r rules (rel ++ "/")

instance (r : DiscoveryRules) (rules : List IgnoreRule) (rel : Text) : Decidable (PassesOver r rules rel) :=
  inferInstanceAs (Decidable (_ ∨ _))

instance (r : DiscoveryRules) (rules : List IgnoreRule) (rel : Text) : Decidable (PassesOverDir r rules rel) :=
  inferInstanceAs (Decidable (_ ∨ _))

/-- An include is about the path, or there are none. -/
def Includes (r : DiscoveryRules) (rel : Text) : Prop := r.includes = [] ∨ ∃ p ∈ r.includes, Glob.isMatch p rel = true

/-- The rules choose what stands at some names below an entry. -/
structure Chosen (r : DiscoveryRules) (rules : List IgnoreRule) (e : Entry) (names : List Text) : Prop where
  below : names ≠ []
  leaf : ∃ f, e.get? names = some f ∧ f.isDir = false
  included : Includes r (Text.joinWith [Path.slash] names)
  kept : ¬ PassesOver r rules (Text.joinWith [Path.slash] names)
  reached : ∀ dir, dir <+: names → dir ≠ [] → dir ≠ names → ¬ PassesOverDir r rules (Text.joinWith [Path.slash] dir)

section Rules

variable {r : DiscoveryRules} {rules : List IgnoreRule}

theorem anyMatch_iff {patterns : List Text} {rel : Text} :
    Glob.anyMatch patterns rel = true ↔ ∃ p ∈ patterns, Glob.isMatch p rel = true := List.any_eq_true

theorem isExcluded_leaf {rel : Text} : isExcluded r.excludes rules rel false = false ↔ ¬ PassesOver r rules rel := by
  rw [PassesOver, ← anyMatch_iff, isExcluded]
  simp

theorem isExcluded_dir {rel : Text} : isExcluded r.excludes rules rel true = false ↔ ¬ PassesOverDir r rules rel := by
  rw [PassesOverDir, PassesOver, PassesOver, ← anyMatch_iff, ← anyMatch_iff, isExcluded]
  cases Glob.anyMatch r.excludes rel <;> cases Glob.anyMatch r.excludes (rel ++ "/") <;> simp

theorem isIncluded_iff {rel : Text} : isIncluded r.includes rel = true ↔ Includes r rel := by
  rw [Includes, ← anyMatch_iff, isIncluded, Bool.or_eq_true, List.isEmpty_iff]

/-- What a search selects below an entry of a directory is what the rules choose below the directory. -/
theorem chosen_iff {es : List (Text × Entry)} (hes : (Entry.dir es).Orderly) {names : List Text} :
    Chosen r rules (.dir es) names ↔ ∃ p ∈ es, ∃ ks, names = p.1 :: ks ∧ Selects r rules [p.1] p.2 ks := by
  constructor
  · rintro ⟨hbelow, ⟨f, hf, hleaf⟩, hincluded, hkept, hreached⟩
    obtain ⟨n, ks, rfl⟩ := List.exists_cons_of_ne_nil hbelow
    rw [Entry.get?_dir] at hf
    obtain ⟨e, he, hf⟩ := Option.bind_eq_some_iff.1 hf
    refine ⟨(n, e), Table.mem_of_find? he, ks, rfl, ⟨f, hf, hleaf⟩, ?_, isExcluded_leaf.2 hkept,
      isIncluded_iff.2 hincluded⟩
    intro dir hdir hne
    refine isExcluded_dir.2 (hreached (n :: dir) (List.cons_prefix_cons.2 ⟨rfl, hdir⟩) (List.cons_ne_nil n dir) ?_)
    exact fun heq => hne (List.cons.inj heq).2
  · rintro ⟨p, hp, ks, rfl, ⟨f, hf, hleaf⟩, hentered, hkept, hincluded⟩
    refine ⟨List.cons_ne_nil _ _, ⟨f, ?_, hleaf⟩, isIncluded_iff.1 hincluded, isExcluded_leaf.1 hkept, ?_⟩
    · rw [Entry.get?_dir, (hes.entry hp).2.1]
      exact hf
    · intro dir hdir hnil hne
      rcases List.prefix_cons_iff.1 hdir with rfl | ⟨ls, rfl, hls⟩
      · exact absurd rfl hnil
      · exact isExcluded_dir.1 (hentered ls hls fun heq => hne (congrArg (p.1 :: ·) heq))

/-- Below something that is no directory the rules choose nothing. -/
theorem not_chosen {e : Entry} (he : e.isDir = false) (names : List Text) : ¬ Chosen r rules e names := by
  rintro ⟨hbelow, ⟨f, hf, -⟩, -, -, -⟩
  obtain ⟨n, ks, rfl⟩ := List.exists_cons_of_ne_nil hbelow
  cases e with
  | dir es => cases he
  | file content mode => cases hf
  | link target => cases hf

theorem invalid?_eq_none : r.invalid? = none ↔ ∀ p ∈ r.includes ++ r.excludes, Glob.isValid p = true := by
  unfold DiscoveryRules.invalid?
  rw [List.find?_eq_none]
  simp

end Rules

/-- The paths of a search are in order, each once. -/
theorem pairwise_before {d : Disk} (hd : d.Orderly) {root : List Text} (hroot : ∀ e ∈ root, Path.IsName e)
    {r : DiscoveryRules} {paths : List Text} (h : discover d (Path.rooted root) r = .ok paths) :
      paths.Pairwise Text.Before :=
  List.Pairwise.and (pairwise_discover h) (List.Nodup.of_map _ (nodup_discover hd hroot h))

/-- With well-formed globs and a root that leads to a directory a search ends well. It lists, in byte order and each
once, the absolute paths of all and only what the rules choose below the root. -/
theorem discover_chosen {d : Disk} (hd : d.Orderly) (dir : Text) {r : DiscoveryRules}
    (hglobs : ∀ p ∈ r.includes ++ r.excludes, Glob.isValid p = true)
    (hroot : d.isDir (Path.absolute d.cwd dir) = true) :
    ∃ paths, discover d (Path.absolute d.cwd dir) r = .ok paths ∧ paths.Pairwise Text.Before ∧
      ∀ path, path ∈ paths ↔ ∃ e names, d.lstat (Path.absolute d.cwd dir) = .ok e ∧
        Chosen r (ignoresOf d r (Path.absolute d.cwd dir)) e names ∧
        path = Path.join [Path.absolute d.cwd dir, Text.joinWith [Path.slash] names] := by
  obtain ⟨root, hnames, heq⟩ := Path.absolute_eq hd.cwd dir
  rw [heq] at hroot ⊢
  have hok := discover_eq_ok.2 ⟨invalid?_eq_none.2 hglobs, hroot, rfl⟩
  refine ⟨_, hok, pairwise_before hd hnames hok, fun path => ?_⟩
  rw [mem_discover hd hnames hok]
  -- names below a directory of the disk are names, so joining them to the root appends them
  have hjoin : ∀ {es : List (Text × Entry)} {ns : List Text}, d.lstat (Path.rooted root) = .ok (.dir es) →
      Chosen r (ignoresOf d r (Path.rooted root)) (.dir es) ns →
        Path.join [Path.rooted root, Text.joinWith [Path.slash] ns] = Path.rooted (root ++ ns) := by
    intro es ns hes hns
    obtain ⟨at_, hat⟩ := Disk.exists_get?_of_entry hd hes
    obtain ⟨f, hf, -⟩ := hns.leaf
    exact Path.join_rooted hnames ((hd.tree.get? hat).isName hf) hns.below
  constructor
  · rintro ⟨es, hes, p, hp, ks, rfl, hks⟩
    obtain ⟨at_, hat⟩ := Disk.exists_get?_of_entry hd hes
    have hchosen := (chosen_iff (hd.tree.get? hat)).2 ⟨p, hp, ks, rfl, hks⟩
    exact ⟨.dir es, p.1 :: ks, hes, hchosen, (hjoin hes hchosen).symm⟩
  · rintro ⟨e, ns, he, hchosen, rfl⟩
    cases e with
    | file content mode => exact absurd hchosen (not_chosen rfl ns)
    | link target => exact absurd hchosen (not_chosen rfl ns)
    | dir es =>
      obtain ⟨at_, hat⟩ := Disk.exists_get?_of_entry hd he
      obtain ⟨p, hp, ks, rfl, hks⟩ := (chosen_iff (hd.tree.get? hat)).1 hchosen
      exact ⟨es, he, p, hp, ks, hjoin he hchosen, hks⟩

/-- A project with a source, what was built from it, and a rule about logs. -/
def builtProject : Disk :=
  ⟨.dir [("work", .dir [(".gitignore", .file "*.log\n" 0o644), ("dist", .dir [("main.js", .file "main()" 0o644)]),
    ("src", .dir [("main.js", .file "main();\n" 0o644), ("run.log", .file "ok\n" 0o644)])])], "/work"⟩

/-- Scripts count, but not those in `dist`. -/
def scriptRules : DiscoveryRules := ⟨["**/*.js", "**/*.log"], ["dist/**"], true⟩

theorem builtProject_chosen :
    builtProject.Orderly ∧ (∀ p ∈ scriptRules.includes ++ scriptRules.excludes, Glob.isValid p = true) ∧
    builtProject.isDir (Path.absolute builtProject.cwd ".") = true ∧
      ∃ paths, discover builtProject (Path.absolute builtProject.cwd ".") scriptRules = .ok paths ∧
      paths.Pairwise Text.Before ∧
        ∀ path, path ∈ paths ↔ ∃ e names, builtProject.lstat (Path.absolute builtProject.cwd ".") = .ok e ∧
          Chosen scriptRules (ignoresOf builtProject scriptRules (Path.absolute builtProject.cwd ".")) e names ∧
          path = Path.join [Path.absolute builtProject.cwd ".", Text.joinWith [Path.slash] names] := by
  have horderly : builtProject.Orderly := ⟨Entry.orderly_of_isPlain rfl, rfl, ⟨_, rfl⟩⟩
  have hglobs : ∀ p ∈ scriptRules.includes ++ scriptRules.excludes, Glob.isValid p = true := by decide
  have hroot : builtProject.isDir (Path.absolute builtProject.cwd ".") = true := by decide
  exact ⟨horderly, hglobs, hroot, discover_chosen horderly "." hglobs hroot⟩

end Discovery

end DocAtlas

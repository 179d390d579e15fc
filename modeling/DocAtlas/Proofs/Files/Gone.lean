/-
Paths where nothing stands. Below a directory that a path leads to, links or not on the way, every entry stands at the
path made of its names. So where nothing stands at a path below a root, the root has no entry of these names, and a
search of the root finds nothing at the path or below it.
-/
import DocAtlas.Proofs.Files.Replacing
import DocAtlas.Proofs.Files.Selection

namespace DocAtlas

namespace Disk

variable {d : Disk} {root : List Text}

/-- Nothing stands at a path. -/
def IsGone (d : Disk) (path : Text) : Prop := ∀ e, d.lstat path ≠ .ok e

theorem lstat_eq_ok {path : Text} {e : Entry} :
    d.lstat path = .ok e ↔ ∃ ps, d.resolve false path = .ok (.found ps e) := by
  unfold lstat entry
  cases d.resolve false path with
  | error errno => simp
  | ok place => cases place <;> simp

theorem join_rooted_name (hroot : ∀ e ∈ root, Path.IsName e) {n : Text} (hn : Path.IsName n) :
    Path.join [Path.rooted root, n] = Path.rooted (root ++ [n]) :=
  Path.join_rooted hroot (List.forall_mem_singleton.2 hn) (List.cons_ne_nil _ _)

/-- Where one more name leads. -/
theorem endsWith_rooted (followLast : Bool) (hd : d.IsHere) (hroot : ∀ e ∈ root, Path.IsName e) {n : Text}
    (hn : Path.IsName n) :
    EndsWith followLast n (d.resolve true (Path.rooted root)) (d.resolve followLast (Path.rooted (root ++ [n]))) := by
  have hends := resolve_endsWith followLast hd hn (Path.rooted root)
  rwa [Path.clean_rooted hroot, join_rooted_name hroot hn] at hends

theorem walk_nil (top : Entry) (followLast : Bool) (links : Nat) (here : List Text) :
    walk top followLast links here [] = .ok (.found here ((top.get? here).getD Entry.emptyDir)) := by
  cases links <;> rw [walk, descend]

/-- A directory that stands at a path itself is what the path leads to. -/
theorem resolve_of_lstat_dir (hd : d.IsHere) (hroot : ∀ e ∈ root, Path.IsName e) {es : List (Text × Entry)}
    (h : d.lstat (Path.rooted root) = .ok (.dir es)) :
      ∃ ps, d.resolve true (Path.rooted root) = .ok (.found ps (.dir es)) := by
  obtain ⟨ps, hps⟩ := lstat_eq_ok.1 h
  refine ⟨ps, ?_⟩
  induction root using List.reverseRecOn with
  | nil =>
    rw [← Path.clean_rooted hroot, resolve_clean hd, Path.cleaned_rooted hroot, walk_nil] at hps ⊢
    exact hps
  | append_singleton above n =>
    have habove : ∀ e ∈ above, Path.IsName e := fun e he => hroot e (List.mem_append_left _ he)
    have hn : Path.IsName n := hroot n (List.mem_append_right _ (List.mem_singleton_self n))
    obtain ⟨qs, fs, hfs, -⟩ := exists_leadsTo_of_resolve hd hn ((join_rooted_name habove hn).symm ▸ hps)
    rw [Path.clean_rooted habove] at hfs
    have hplain := endsWith_rooted false hd habove hn
    have hfollowed := endsWith_rooted true hd habove hn
    rw [hfs, EndsWith] at hplain hfollowed
    rw [hps] at hplain
    -- a link would be found as it is
    cases hfind : Table.find? n fs with
    | none =>
      rw [hfind] at hplain
      cases hplain
    | some f =>
      rw [hfind] at hplain hfollowed
      cases f with
      | link target => cases hplain rfl
      | file content mode => cases hplain
      | dir gs =>
        cases hplain
        exact hfollowed

/-- What stands below a directory stands at its path. -/
theorem lstat_below (hd : d.IsHere) (hroot : ∀ e ∈ root, Path.IsName e) {es : List (Text × Entry)} {ps : List Text}
    (h : d.resolve true (Path.rooted root) = .ok (.found ps (.dir es))) {ns : List Text} (hns : ∀ n ∈ ns, Path.IsName n)
    (hne : ns ≠ []) {e : Entry} (he : (Entry.dir es).get? ns = some e) :
      d.lstat (Path.rooted (root ++ ns)) = .ok e := by
  induction ns generalizing root es ps with
  | nil => exact absurd rfl hne
  | cons n ns ih =>
    obtain ⟨hn, hns⟩ := List.forall_mem_cons.1 hns
    obtain ⟨f, hf, hget⟩ := Option.bind_eq_some_iff.1 he
    have hroot' : ∀ e ∈ root ++ [n], Path.IsName e := by
      simpa [or_imp, forall_and] using ⟨hroot, hn⟩
    cases ns with
    | nil =>
      obtain rfl : f = e := by simpa [Entry.get?] using hget
      have hends := endsWith_rooted false hd hroot hn
      rw [h, EndsWith] at hends
      rw [lstat_eq_ok]
      cases f <;> exact ⟨_, by simpa [hf] using hends⟩
    | cons m ns =>
      cases f with
      | dir fs =>
        have hends := endsWith_rooted true hd hroot hn
        rw [h, EndsWith] at hends
        have hstep : d.resolve true (Path.rooted (root ++ [n])) = .ok (.found (ps ++ [n]) (.dir fs)) := by
          simpa only [hf] using hends
        have := ih hroot' hstep hns (List.cons_ne_nil _ _) hget
        rwa [List.append_assoc] at this
      | file content mode => cases hget
      | link target => cases hget

end Disk

namespace Discovery

variable {d : Disk} {root : List Text} {r : DiscoveryRules} {paths : List Text}

/-- A search finds nothing at or below a path where nothing stands. -/
theorem not_within_of_isGone (hd : d.Orderly) (hroot : ∀ e ∈ root, Path.IsName e)
    (h : discover d (Path.rooted root) r = .ok paths) {ns : List Text} (hns : ∀ n ∈ ns, Path.IsName n) (hne : ns ≠ [])
    (hgone : d.IsGone (Path.rooted (root ++ ns))) {path : Text} (hpath : path ∈ paths) :
    ¬ Path.IsWithin (Path.rooted (root ++ ns)) path := by
  intro hwithin
  obtain ⟨es, hes, p, hp, ks, rfl, hselects⟩ := (mem_discover hd hroot h).1 hpath
  obtain ⟨at_, hat⟩ := Disk.exists_get?_of_entry hd hes
  obtain ⟨hname, hfind, hentry⟩ := (hd.tree.get? hat).entry hp
  obtain ⟨f, hf, -⟩ := hselects.leaf
  have hall : ∀ n ∈ root ++ p.1 :: ks, Path.IsName n := by
    simpa [or_imp, forall_and] using ⟨hroot, hname, hentry.isName hf⟩
  have hget : (Entry.dir es).get? (p.1 :: ks) = some f := by
    rw [Entry.get?_dir, hfind]
    exact hf
  -- the names of the gone path lead from the root to an entry on the way to what was found
  have hprefix : ns <+: p.1 :: ks := by
    unfold Path.IsWithin at hwithin
    rw [Path.cleaned_rooted hall, Path.cleaned_rooted (by simpa [or_imp, forall_and] using ⟨hroot, hns⟩)] at hwithin
    exact (List.prefix_append_right_inj root).1 hwithin
  obtain ⟨rest, hrest⟩ := hprefix
  rw [← hrest, Entry.get?_append] at hget
  obtain ⟨e, he, -⟩ := Option.bind_eq_some_iff.1 hget
  obtain ⟨ps, hps⟩ := Disk.resolve_of_lstat_dir hd.here hroot hes
  exact hgone e (Disk.lstat_below hd.here hroot hps hns hne he)

end Discovery

end DocAtlas

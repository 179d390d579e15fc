/-
Files of a directory that are replaced and read by their names. The directory is given by a path, and a name
joined to it is a name in the directory that the cleaned path leads to (`LeadsTo`). A file that is replaced
makes no directory and no link, so a path that leads to a directory afterwards led to the same one before; the
converse may fail, since a link on the way may be what was replaced.
-/
import DocAtlas.Proofs.Files.Paths
import DocAtlas.Proofs.Files.Resolving

namespace DocAtlas.Disk

variable {root : Entry} {followLast : Bool}

/-- Elements that stand for no step are passed over in a directory. -/
theorem walk_skip {c : Text} (hc : c = [] ∨ c = ".") {links : Nat} {here : List Text} {es : List (Text × Entry)}
    (he : root.get? here = some (.dir es)) (cs : List Text) :
    walk root followLast links here (c :: cs) = walk root followLast links here cs := by
  cases links with
  | zero => rw [walk, walk, he, Option.getD_some, descend, if_pos hc]
  | succ links => rw [walk, walk, he, Option.getD_some, descend, if_pos hc]

theorem resolve_spelled {d : Disk} (hd : d.IsHere) (fromRoot : Bool) {es : List Text}
    (hes : ∀ e ∈ es, e ≠ [] ∧ Path.slash ∉ e) :
    d.resolve followLast (Path.spelled fromRoot es) =
      walk d.root followLast maxLinks (if fromRoot then [] else Path.elements d.cwd) es := by
  have hnoSlash : ∀ e ∈ es, Path.slash ∉ e := fun e he => (hes e he).2
  obtain ⟨here, hhere⟩ := hd
  unfold resolve
  cases fromRoot with
  | true =>
    obtain ⟨top, htop⟩ := Entry.exists_dir hhere
    have hsplit : Text.splitOn Path.slash (Path.rooted es) =
      [] :: Text.splitOn Path.slash (Text.joinWith [Path.slash] es) :=
      Text.splitOn_cons_sep Path.slash _
    change (if (Path.rooted es).isEmpty then _ else walk d.root followLast maxLinks
      (if Path.isAbsolute (Path.rooted es) then _ else _) (Text.splitOn Path.slash (Path.rooted es))) = _
    rw [if_neg (by simp [Path.rooted]), if_pos (Path.isAbsolute_rooted es), if_pos rfl, hsplit,
      walk_skip (.inl rfl) htop]
    by_cases hnil : es = []
    · subst hnil
      exact walk_skip (.inl rfl) htop []
    · rw [Text.splitOn_joinWith hnil hnoSlash]
  | false =>
    by_cases hnil : es = []
    · subst hnil
      exact walk_skip (.inr rfl) hhere []
    · have hspelled : Path.spelled false es = Text.joinWith [Path.slash] es := by simp [Path.spelled, hnil]
      have hne : Text.joinWith [Path.slash] es ≠ [] := mt (Path.joinWith_eq_nil hes).1 hnil
      rw [hspelled, if_neg (by simpa using hne), Path.isAbsolute_joinWith hes, Text.splitOn_joinWith hnil hnoSlash]

/-! ## Names in a directory -/

/-- The cleaned path leads to this directory. -/
def LeadsTo (d : Disk) (dir : Text) (ps : List Text) : Prop :=
  ∃ es, d.resolve true (Path.clean dir) = .ok (.found ps (.dir es))

variable {d : Disk} {dir n : Text} {ps : List Text}

theorem resolve_clean (hd : d.IsHere) (dir : Text) :
    d.resolve followLast (Path.clean dir) = walk d.root followLast maxLinks (d.startOf dir) (Path.cleaned dir) := by
  rw [Path.clean_eq_spelled]
  exact resolve_spelled hd _ fun e he => Path.parts_of_cleaned he

theorem resolve_join (hd : d.IsHere) (hn : Path.IsName n) (dir : Text) :
    d.resolve followLast (Path.join [dir, n]) =
      walk d.root followLast maxLinks (d.startOf dir) (Path.cleaned dir ++ [n]) := by
  rw [Path.join_name hn]
  refine resolve_spelled hd _ fun e he => ?_
  rcases List.mem_append.1 he with he | he
  · exact Path.parts_of_cleaned he
  · obtain rfl := List.mem_singleton.1 he
    exact ⟨hn.nonempty, hn.noSlash⟩

/-- Where a name in a directory leads, from where the directory does. -/
theorem resolve_endsWith (followLast : Bool) (hd : d.IsHere) (hn : Path.IsName n) (dir : Text) :
    EndsWith followLast n (d.resolve true (Path.clean dir)) (d.resolve followLast (Path.join [dir, n])) := by
  rw [resolve_clean hd, resolve_join hd hn]
  exact walk_concat hn _ _ _

theorem isDir_clean_iff : d.isDir (Path.clean dir) = true ↔ ∃ ps, d.LeadsTo dir ps := by
  unfold isDir stat entry LeadsTo
  cases hresolve : d.resolve true (Path.clean dir) with
  | error errno => simp
  | ok place =>
    cases place with
    | free ps n => simp
    | found ps e => cases e <;> simp [Entry.isDir]

theorem LeadsTo.unique {ps qs : List Text} (h : d.LeadsTo dir ps) (h' : d.LeadsTo dir qs) : ps = qs := by
  obtain ⟨es, h⟩ := h
  obtain ⟨fs, h'⟩ := h'
  rw [h] at h'
  cases h'
  rfl

theorem LeadsTo.exists_dir (hd : d.IsHere) (h : d.LeadsTo dir ps) :
    ∃ es, d.resolve true (Path.clean dir) = .ok (.found ps (.dir es)) ∧ d.root.get? ps = some (.dir es) := by
  obtain ⟨es, h⟩ := h
  exact ⟨es, h, resolve_isPlace hd h⟩

/-- A name of a file in a directory leads to the file. -/
theorem resolve_join_file (hd : d.IsHere) (hn : Path.IsName n) (h : d.LeadsTo dir ps) {content : Text} {mode : Nat}
    (hfile : d.root.get? (ps ++ [n]) = some (.file content mode)) (followLast : Bool) :
    d.resolve followLast (Path.join [dir, n]) = .ok (.found (ps ++ [n]) (.file content mode)) := by
  obtain ⟨es, hes, hget⟩ := h.exists_dir hd
  have hends := resolve_endsWith followLast hd hn dir
  rw [Entry.get?_concat hget] at hfile
  rw [hes, EndsWith] at hends
  simpa only [hfile] using hends

/-- A file under a name in a directory is read. -/
theorem readFile_of_leadsTo (hd : d.IsHere) (hn : Path.IsName n) (h : d.LeadsTo dir ps) {content : Text} {mode : Nat}
    (hfile : d.root.get? (ps ++ [n]) = some (.file content mode)) : d.readFile (Path.join [dir, n]) = .ok content := by
  unfold readFile entry
  rw [resolve_join_file hd hn h hfile]

/-- A name that does not lead astray is a name in a directory. -/
theorem exists_leadsTo_of_resolve (hd : d.IsHere) (hn : Path.IsName n) {place : Place}
    (h : d.resolve followLast (Path.join [dir, n]) = .ok place) :
    ∃ ps es, d.resolve true (Path.clean dir) = .ok (.found ps (.dir es)) ∧ d.root.get? ps = some (.dir es) := by
  have hends := resolve_endsWith followLast hd hn dir
  rw [h] at hends
  cases hresolve : d.resolve true (Path.clean dir) with
  | error errno =>
    rw [hresolve, EndsWith] at hends
    cases hends
  | ok found =>
    rw [hresolve] at hends
    cases found with
    | free ps m => cases hends
    | found ps e =>
      cases e with
      | dir es =>
        obtain ⟨es', hes', hget⟩ := LeadsTo.exists_dir hd ⟨es, hresolve⟩
        exact ⟨ps, es', by rw [← hresolve, hes'], hget⟩
      | _ => cases hends

/-- A file that is read under a name is read in a directory. -/
theorem exists_leadsTo_of_readFile (hd : d.IsHere) (hn : Path.IsName n) {content : Text}
    (h : d.readFile (Path.join [dir, n]) = .ok content) : ∃ ps, d.LeadsTo dir ps := by
  unfold readFile entry at h
  split at h
  · cases h
  · rename_i hentry
    split at hentry
    · rename_i hresolve
      obtain ⟨ps, es, hes, -⟩ := exists_leadsTo_of_resolve hd hn hresolve
      exact ⟨ps, es, hes⟩
    · cases hentry
    · cases hentry
  · cases h

/-! ## Replacing -/

/-- A file that is replaced goes under its name in the directory its path leads to, where no directory was. -/
theorem replaceFile_eq_ok (hd : d.IsHere) (hn : Path.IsName n) {beside content : Text} {mode : Nat} {d' : Disk}
    (h : d.replaceFile (Path.join [dir, n]) beside content mode = .ok d') :
    ∃ ps es, d.LeadsTo dir ps ∧ d.root.get? ps = some (.dir es) ∧ (∀ fs, Table.find? n es ≠ some (.dir fs)) ∧
      d' = { d with root := d.root.set (some (.file content mode)) (ps ++ [n]) } := by
  obtain ⟨place, hplace⟩ : ∃ place, d.resolve false (Path.join [dir, n]) = .ok place := by
    unfold replaceFile at h
    cases hresolve : d.resolve false (Path.join [dir, n]) with
    | ok place => exact ⟨place, rfl⟩
    | error errno =>
      rw [hresolve] at h
      cases h
  obtain ⟨ps, es, hes, hget⟩ := exists_leadsTo_of_resolve hd hn hplace
  have hends := resolve_endsWith false hd hn dir
  rw [hes, EndsWith] at hends
  refine ⟨ps, es, ⟨es, hes⟩, hget, ?_⟩
  unfold replaceFile at h
  cases hfind : Table.find? n es with
  | none =>
    simp only [hfind] at hends
    rw [hends] at h
    cases h
    exact ⟨fun fs => by simp, rfl⟩
  | some e =>
    simp only [hfind] at hends
    cases e with
    | dir fs =>
      rw [hends] at h
      cases h
    | link target =>
      rw [hends trivial] at h
      cases h
      exact ⟨fun fs => by simp, rfl⟩
    | file old kept =>
      rw [hends] at h
      cases h
      exact ⟨fun fs => by simp, rfl⟩

variable {d' d'' : Disk}

/-- A disk where nothing was lost but files and links: directories stay, and so does where paths start. -/
structure KeepsDirs (d d' : Disk) : Prop where
  cwd : d'.cwd = d.cwd
  kept : ∀ ps es, d.root.get? ps = some (.dir es) → ∃ es', d'.root.get? ps = some (.dir es')
  /-- No link is new. -/
  links : ∀ ps target, d'.root.get? ps = some (.link target) → d.root.get? ps = some (.link target)

theorem KeepsDirs.refl (d : Disk) : KeepsDirs d d := ⟨rfl, fun _ es h => ⟨es, h⟩, fun _ _ h => h⟩

theorem KeepsDirs.trans (h : KeepsDirs d d') (h' : KeepsDirs d' d'') : KeepsDirs d d'' where
  cwd := h'.cwd.trans h.cwd
  kept ps es hps := by
    obtain ⟨es', hps⟩ := h.kept ps es hps
    exact h'.kept ps es' hps
  links ps target hps := h.links _ _ (h'.links _ _ hps)

theorem KeepsDirs.isHere (h : KeepsDirs d d') (hd : d.IsHere) : d'.IsHere := by
  obtain ⟨es, hes⟩ := hd
  unfold IsHere
  rw [h.cwd]
  exact h.kept _ es hes

theorem KeepsDirs.startOf_eq (h : KeepsDirs d d') (path : Text) : d'.startOf path = d.startOf path := by
  unfold startOf
  rw [h.cwd]

/-- If no link was lost, a path that led to a directory leads there still. -/
theorem LeadsTo.after (h : KeepsDirs d d')
    (hlinks : ∀ ps target, d.root.get? ps = some (.link target) → d'.root.get? ps = some (.link target)) (hd : d.IsHere)
    (hps : d.LeadsTo dir ps) : d'.LeadsTo dir ps := by
  have hd' := h.isHere hd
  obtain ⟨es, hes⟩ := hps
  obtain ⟨fs, hfs⟩ := exists_start hd dir
  obtain ⟨fs', hfs'⟩ := exists_start hd' dir
  rw [resolve_clean hd] at hes
  rw [h.startOf_eq] at hfs'
  obtain ⟨gs, hgs⟩ := walk_within ⟨h.kept, hlinks⟩ hfs hfs' hes
  exact ⟨gs, by rw [resolve_clean hd', h.startOf_eq, hgs]⟩

/-- A disk after some of its files were replaced: no directory is new either. -/
structure IsRenewed (d d' : Disk) : Prop extends KeepsDirs d d' where
  dirs : ∀ ps es, d'.root.get? ps = some (.dir es) → ∃ es', d.root.get? ps = some (.dir es')

theorem IsRenewed.refl (d : Disk) : IsRenewed d d where
  toKeepsDirs := .refl d
  dirs _ es h := ⟨es, h⟩

theorem IsRenewed.trans (h : IsRenewed d d') (h' : IsRenewed d' d'') : IsRenewed d d'' where
  toKeepsDirs := h.toKeepsDirs.trans h'.toKeepsDirs
  dirs ps es hps := by
    obtain ⟨es', hps⟩ := h'.dirs ps es hps
    exact h.dirs ps es' hps

/-- A path that leads to a directory afterwards led there before. -/
theorem LeadsTo.before (h : IsRenewed d d') (hd : d.IsHere) (hps : d'.LeadsTo dir ps) : d.LeadsTo dir ps := by
  have hd' := h.isHere hd
  obtain ⟨es, hes⟩ := hps
  obtain ⟨fs, hfs⟩ := exists_start hd dir
  obtain ⟨fs', hfs'⟩ := exists_start hd' dir
  rw [resolve_clean hd', h.startOf_eq] at hes
  rw [h.startOf_eq] at hfs'
  obtain ⟨gs, hgs⟩ := walk_within ⟨h.dirs, h.links⟩ hfs' hfs hes
  exact ⟨gs, by rw [resolve_clean hd, hgs]⟩

/-- A disk with something at a place. -/
def withEntry (d : Disk) (at_ : List Text) (e : Entry) : Disk := { d with root := d.root.set (some e) at_ }

/-- Other names in the directory are as they were. -/
theorem get?_withEntry_of_ne {es : List (Text × Entry)} (hget : d.root.get? ps = some (.dir es)) {m : Text}
    (hne : m ≠ n) {e : Entry} :
    (d.withEntry (ps ++ [n]) e).root.get? (ps ++ [m]) = d.root.get? (ps ++ [m]) := by
  have hset : (d.withEntry (ps ++ [n]) e).root.get? ps = some (.dir (Table.put n e es)) := Entry.get?_set_dir hget
  rw [Entry.get?_concat hset, Entry.get?_concat hget, Table.find?_put, if_neg hne.symm]

/-- A file put where no directory was makes none and takes none away. -/
theorem isRenewed_withEntry {es : List (Text × Entry)} (hget : d.root.get? ps = some (.dir es))
    (hnone : ∀ fs, Table.find? n es ≠ some (.dir fs)) (content : Text) (mode : Nat) :
    IsRenewed d (d.withEntry (ps ++ [n]) (.file content mode)) := by
  have hwithin := Entry.within_set_file (n := n) hget content mode
  exact ⟨⟨rfl, fun _ _ => Entry.dir_of_set hget hnone, hwithin.links⟩, hwithin.dirs⟩

theorem isRenewed_replaceFile (hd : d.IsHere) (hn : Path.IsName n) {beside content : Text} {mode : Nat}
    (h : d.replaceFile (Path.join [dir, n]) beside content mode = .ok d') : IsRenewed d d' := by
  obtain ⟨ps, es, -, hget, hnone, rfl⟩ := replaceFile_eq_ok hd hn h
  exact isRenewed_withEntry hget hnone content mode

/-- If the path leads to a directory after a file was replaced, the file stands there. -/
theorem get?_replaceFile (hd : d.IsHere) (hn : Path.IsName n) {beside content : Text} {mode : Nat}
    (h : d.replaceFile (Path.join [dir, n]) beside content mode = .ok d') (hps : d'.LeadsTo dir ps) :
    d'.root.get? (ps ++ [n]) = some (.file content mode) := by
  have hbefore := hps.before (isRenewed_replaceFile hd hn h) hd
  obtain ⟨qs, es, hqs, hget, -, rfl⟩ := replaceFile_eq_ok hd hn h
  obtain rfl := hbefore.unique hqs
  exact Entry.get?_set_self hget

/-- Files under other names stay as they are. -/
theorem get?_replaceFile_of_ne (hd : d.IsHere) (hn : Path.IsName n) {beside content : Text} {mode : Nat}
    (h : d.replaceFile (Path.join [dir, n]) beside content mode = .ok d') (hps : d'.LeadsTo dir ps) {m : Text}
    (hm : m ≠ n) {content' : Text} {mode' : Nat} (hfile : d.root.get? (ps ++ [m]) = some (.file content' mode')) :
    d'.root.get? (ps ++ [m]) = some (.file content' mode') := by
  have hbefore := hps.before (isRenewed_replaceFile hd hn h) hd
  obtain ⟨qs, es, hqs, hget, -, rfl⟩ := replaceFile_eq_ok hd hn h
  obtain rfl := hbefore.unique hqs
  exact (get?_withEntry_of_ne hget hm).trans hfile

/-! ## Making directories -/

theorem keepsDirs_mkdir (hd : d.IsHere) {path : Text} (h : d.mkdir path = .ok d') : KeepsDirs d d' := by
  unfold mkdir at h
  split at h
  · rename_i qs m hresolve
    cases h
    obtain ⟨gs, hget, hnone⟩ := resolve_isPlace hd hresolve
    refine ⟨rfl, fun ps fs hps => Entry.dir_of_set hget (fun fs => by simp [hnone]) hps, fun ps target hps => ?_⟩
    by_cases hpre : qs ++ [m] <+: ps
    · obtain ⟨rest, rfl⟩ := hpre
      rw [Entry.get?_append, Entry.get?_set_self hget] at hps
      cases rest <;> simp [Entry.emptyDir, Entry.get?, Table.find?] at hps
    · rcases Entry.get?_set_of_not_below Entry.emptyDir hget hpre with heq | ⟨fs, -, hnew, -⟩
      · exact heq.symm.trans hps
      · rw [hnew] at hps
        cases hps
  · cases h
  · cases h

/-- What is true of a disk and stays true when a directory is made is true after directories were made as needed. -/
theorem of_mkdirAllWithin {P : Disk → Prop} (hmkdir : ∀ {d d' : Disk} {path : Text}, P d → d.mkdir path = .ok d' → P d')
    {fuel : Nat} (hd : P d) {path : Text} (h : mkdirAllWithin fuel d path = .ok d') : P d' := by
  induction fuel generalizing d d' path with
  | zero =>
    cases h
    exact hd
  | succ fuel ih =>
    rw [mkdirAllWithin] at h
    split at h
    · split at h
      · cases h
        exact hd
      · cases h
    · simp only at h
      split at h
      · cases h
      · rename_i d1 habove
        have hup : P d1 := by
          split at habove
          · cases habove
            exact hd
          · exact ih hd habove
        split at h
        · rename_i d2 hstep
          cases h
          exact hmkdir hup hstep
        · split at h
          · split at h
            · cases h
              exact hup
            · cases h
          · cases h

/-- Making directories keeps those that are there. -/
theorem keepsDirs_mkdirAll (hd : d.IsHere) {path : Text} (h : d.mkdirAll path = .ok d') : KeepsDirs d d' :=
  of_mkdirAllWithin (P := KeepsDirs d) (fun hx hmkdir => hx.trans (keepsDirs_mkdir (hx.isHere hd) hmkdir)) (.refl d) h

end DocAtlas.Disk

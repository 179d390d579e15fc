/-
A file that is put under a free name and taken away again, or renamed. The tree is orderly, so each name has
its one place in its directory: putting something in the place of what was put there is putting it there at
once, and taking away what was put under a free name gives back the tree. What stands at a place and is no
directory (`held`) is changed by a file in that place alone.
-/
import DocAtlas.Files.Renaming
import DocAtlas.Proofs.Files.Replacing

namespace DocAtlas

namespace Entry

variable {e new new' : Entry} {ps : List Text} {es : List (Text × Entry)} {n : Text}

/-! ## Orderly trees -/

/-- A directory is orderly if its entries are, under names in order, each once. -/
theorem orderly_dir : (dir es).Orderly ↔ (∀ p ∈ es, Path.IsName p.1 ∧ p.2.Orderly) ∧ Table.Sorted es := by
  constructor
  · intro h
    exact ⟨fun p hp => ⟨(h.entry hp).1, (h.entry hp).2.2⟩, (h [] es (get?_nil _)).2⟩
  · rintro ⟨hentries, hsorted⟩ qs fs hqs
    cases qs with
    | nil =>
      rw [get?_nil] at hqs
      cases hqs
      exact ⟨fun p hp => (hentries p hp).1, hsorted⟩
    | cons q qs =>
      rw [get?_dir] at hqs
      obtain ⟨d, hd, hget⟩ := Option.bind_eq_some_iff.1 hqs
      exact (hentries _ (Table.mem_of_find? hd)).2 qs fs hget

/-- Something orderly put under a name leaves the tree orderly. -/
theorem Orderly.set (he : e.Orderly) (h : e.get? ps = some (.dir es)) (hn : Path.IsName n) (hnew : new.Orderly) :
    (e.set (some new) (ps ++ [n])).Orderly := by
  have hput : ∀ {fs : List (Text × Entry)} {m : Text} {d : Entry}, (dir fs).Orderly → Path.IsName m → d.Orderly →
      (dir (Table.put m d fs)).Orderly := by
    intro fs m d hfs hm hd
    obtain ⟨hentries, hsorted⟩ := orderly_dir.1 hfs
    refine orderly_dir.2 ⟨fun p hp => ?_, Table.sorted_put _ _ hsorted⟩
    rcases Table.mem_put hp with rfl | hp
    · exact ⟨hm, hd⟩
    · exact hentries p hp
  induction ps generalizing e with
  | nil =>
    rw [get?_nil] at h
    cases h
    exact hput he hn hnew
  | cons p ps ih =>
    cases e with
    | dir fs =>
      obtain ⟨d, hd, hget⟩ := Option.bind_eq_some_iff.1 h
      obtain ⟨hp, -, hdOrderly⟩ := he.entry (Table.mem_of_find? hd)
      rw [List.cons_append, set_cons hd]
      exact hput he hp (ih hdOrderly hget)
    | _ => cases h

theorem orderly_file (content : Text) (mode : Nat) : (file content mode).Orderly := orderly_of_isPlain rfl

theorem orderly_emptyDir : emptyDir.Orderly := orderly_of_isPlain rfl

/-! ## Putting twice, and taking away -/

/-- What is done twice below a directory on the way is done twice to that directory. -/
theorem set_twice_cons {p : Text} {d : Entry} (hd : Table.find? p es = some d) (ps : List Text) (n : Text)
    (new : Option Entry) (new' : Option Entry) : ((dir es).set new (p :: (ps ++ [n]))).set new' (p :: (ps ++ [n])) =
      dir (Table.put p ((d.set new (ps ++ [n])).set new' (ps ++ [n])) es) := by
  have hput : Table.find? p (Table.put p (d.set new (ps ++ [n])) es) = some (d.set new (ps ++ [n])) := by
    rw [Table.find?_put, if_pos rfl]
  rw [set_cons hd, set_cons hput, Table.put_put]

/-- Of two things put under one name the second counts. -/
theorem set_set (h : e.get? ps = some (.dir es)) :
    (e.set (some new) (ps ++ [n])).set (some new') (ps ++ [n]) = e.set (some new') (ps ++ [n]) := by
  induction ps generalizing e with
  | nil =>
    rw [get?_nil] at h
    cases h
    exact congrArg dir (Table.put_put n new new' es)
  | cons p ps ih =>
    cases e with
    | dir fs =>
      obtain ⟨d, hd, hget⟩ := Option.bind_eq_some_iff.1 h
      rw [List.cons_append, set_twice_cons hd, set_cons hd, ih hget]
    | _ => cases h

/-- What was put under a free name and is taken away leaves the tree as it was. -/
theorem set_none_set (he : e.Orderly) (h : e.get? ps = some (.dir es)) (hn : Table.find? n es = none) :
    (e.set (some new) (ps ++ [n])).set none (ps ++ [n]) = e := by
  induction ps generalizing e with
  | nil =>
    rw [get?_nil] at h
    cases h
    exact congrArg dir (Table.erase_put new hn)
  | cons p ps ih =>
    cases e with
    | dir fs =>
      obtain ⟨d, hd, hget⟩ := Option.bind_eq_some_iff.1 h
      rw [List.cons_append, set_twice_cons hd, ih (he.entry (Table.mem_of_find? hd)).2.2 hget,
        Table.put_self (orderly_dir.1 he).2 hd]
    | _ => cases h

/-! ## Places -/

/-- What stands at a place, if it is no directory. -/
def held (e : Entry) (q : List Text) : Option Entry := (e.get? q).filter fun d => !d.isDir

theorem held_eq_some {q : List Text} {d : Entry} (hd : d.isDir = false) : e.held q = some d ↔ e.get? q = some d := by
  unfold held
  rw [Option.filter_eq_some_iff]
  simp [hd]

/-- Something without entries, put where no directory was, changes what stands there and nothing else. -/
theorem held_set (h : e.get? ps = some (.dir es)) (hn : ∀ fs, Table.find? n es ≠ some (.dir fs))
    (hnew : ∀ m ms, new.get? (m :: ms) = none) {q : List Text} (hq : q ≠ ps ++ [n]) :
    (e.set (some new) (ps ++ [n])).held q = e.held q := by
  unfold held
  by_cases hpre : ps ++ [n] <+: q
  · obtain ⟨rest, rfl⟩ := hpre
    obtain ⟨m, ms, rfl⟩ : ∃ m ms, rest = m :: ms := List.exists_cons_of_ne_nil (by simpa using hq)
    -- nothing stands below it now, and nothing did
    have hold : e.get? (ps ++ [n] ++ m :: ms) = none := by
      rw [get?_append, get?_concat h]
      cases hfind : Table.find? n es with
      | none => rfl
      | some d =>
        cases d with
        | dir fs => exact absurd hfind (hn fs)
        | _ => rfl
    rw [hold, get?_append, get?_set_self h, Option.bind_some, hnew]
  · rcases get?_set_of_not_below new h hpre with heq | ⟨fs, fs', hfs, hfs'⟩
    · rw [heq]
    · rw [hfs, hfs']
      rfl

end Entry

namespace Disk

variable {d d' : Disk} {dir n m : Text} {ps : List Text} {es : List (Text × Entry)}

/-- What stands at a place, if it is no directory. -/
def held (d : Disk) (q : List Text) : Option Entry := d.root.held q

theorem Orderly.withEntry (hd : d.Orderly) (h : d.root.get? ps = some (.dir es))
    (hfree : ∀ fs, Table.find? n es ≠ some (.dir fs)) (hn : Path.IsName n) {e : Entry} (he : e.Orderly) :
      (d.withEntry (ps ++ [n]) e).Orderly where
  tree := hd.tree.set h hn he
  cwd := hd.cwd
  here := by
    obtain ⟨fs, hfs⟩ := hd.here
    exact Entry.dir_of_set h hfree hfs

/-- A path that leads to no directory leads nowhere under any name in it. -/
theorem resolve_of_not_leadsTo (hd : d.IsHere) (h : ∀ ps, ¬ d.LeadsTo dir ps) :
    ∃ errno, ∀ followLast n, Path.IsName n → d.resolve followLast (Path.join [dir, n]) = .error errno := by
  -- the answer for a name is that of the path without it
  have hends : ∀ followLast n, Path.IsName n → EndsWith followLast n (d.resolve true (Path.clean dir))
      (d.resolve followLast (Path.join [dir, n])) := fun followLast n hn => resolve_endsWith followLast hd hn dir
  cases hresolve : d.resolve true (Path.clean dir) with
  | error errno =>
    rw [hresolve] at hends
    exact ⟨errno, hends⟩
  | ok place =>
    rw [hresolve] at hends
    cases place with
    | free qs q => exact ⟨.notFound, hends⟩
    | found qs e =>
      cases e with
      | dir es => exact absurd ⟨es, hresolve⟩ (h qs)
      | _ => exact ⟨.notDirectory, hends⟩

/-- A name under which nothing stands is found free. -/
theorem resolve_join_free (hd : d.IsHere) (hn : Path.IsName n) (hps : d.LeadsTo dir ps)
    (hfree : d.root.get? (ps ++ [n]) = none) (followLast : Bool) :
      d.resolve followLast (Path.join [dir, n]) = .ok (.free ps n) := by
  obtain ⟨es, hes, hget⟩ := hps.exists_dir hd
  have hends := resolve_endsWith followLast hd hn dir
  rw [Entry.get?_concat hget] at hfree
  rw [hes, EndsWith] at hends
  simpa only [hfree] using hends

/-- A name under which something stands leads there, a link being itself. -/
theorem resolve_join_found (hd : d.IsHere) (hn : Path.IsName n) (hps : d.LeadsTo dir ps) {e : Entry}
    (he : d.root.get? (ps ++ [n]) = some e) : d.resolve false (Path.join [dir, n]) = .ok (.found (ps ++ [n]) e) := by
  obtain ⟨es, hes, hget⟩ := hps.exists_dir hd
  have hends := resolve_endsWith false hd hn dir
  rw [Entry.get?_concat hget] at he
  rw [hes, EndsWith] at hends
  simp only [he] at hends
  cases e with
  | link target => exact hends trivial
  | _ => exact hends

/-- What resolving a path can come to: a free place is under a name, and that something is there already is no
reason to come to nothing. -/
def IsAnswer : Except Errno Place → Prop
  | .ok (.found _ _) => True
  | .ok (.free _ n) => Path.IsName n
  | .error errno => errno ≠ .alreadyExists

theorem descend_isAnswer {root : Entry} {followLast : Bool} {follow : List Text → List Text → Except Errno Place}
    (hfollow : ∀ here cs, (∀ c ∈ cs, Path.slash ∉ c) → IsAnswer (follow here cs)) (here : List Text) (e : Entry)
    {cs : List Text} (hcs : ∀ c ∈ cs, Path.slash ∉ c) : IsAnswer (descend root followLast follow here e cs) := by
  induction cs generalizing here e with
  | nil =>
    rw [descend]
    trivial
  | cons c cs ih =>
    obtain ⟨hc, hcs⟩ := List.forall_mem_cons.1 hcs
    have hlink : ∀ target : Text, ∀ p ∈ Text.splitOn Path.slash target ++ cs, Path.slash ∉ p := by
      intro target p hp
      rcases List.mem_append.1 hp with hp | hp
      · exact Text.not_mem_of_mem_splitOn hp
      · exact hcs p hp
    cases e with
    | dir es =>
      have hstep : FirstStep root followLast follow here es c cs _ := firstStep c cs
      generalize descend root followLast follow here (.dir es) (c :: cs) = r at hstep
      cases hstep with
      | stay _ => exact ih _ _ hcs
      | up _ => exact ih _ _ hcs
      | free hname _ _ => exact ⟨fun heq => hname.1 (.inl heq), hc, fun heq => hname.1 (.inr heq), hname.2⟩
      | missing _ _ _ => simp [IsAnswer]
      | atLink _ _ _ _ => trivial
      | @throughLink target _ _ => exact hfollow _ _ (hlink target)
      | down _ _ _ => exact ih _ _ hcs
    | _ => simp [descend, IsAnswer]

theorem resolve_isAnswer (d : Disk) (followLast : Bool) (path : Text) : IsAnswer (d.resolve followLast path) := by
  have hwalk : ∀ links here cs, (∀ c ∈ cs, Path.slash ∉ c) → IsAnswer (walk d.root followLast links here cs) := by
    intro links
    induction links with
    | zero =>
      intro here cs hcs
      rw [walk]
      exact descend_isAnswer (fun _ _ _ => by simp [IsAnswer]) _ _ hcs
    | succ links ih =>
      intro here cs hcs
      rw [walk]
      exact descend_isAnswer ih _ _ hcs
  unfold resolve
  split
  · simp [IsAnswer]
  · exact hwalk _ _ _ fun c hc => Text.not_mem_of_mem_splitOn hc

/-! ## A file under a spare name -/

/-- A path leads to a directory, where a name is free. -/
structure Spare (d : Disk) (dir n : Text) (ps : List Text) : Prop where
  isName : Path.IsName n
  leads : d.LeadsTo dir ps
  free : d.root.get? (ps ++ [n]) = none

variable {content : Text} {mode : Nat}

theorem Spare.exists_dir (hd : d.IsHere) (h : d.Spare dir n ps) :
    ∃ es, d.root.get? ps = some (.dir es) ∧ Table.find? n es = none := by
  obtain ⟨es, -, hget⟩ := h.leads.exists_dir hd
  exact ⟨es, hget, (Entry.get?_concat hget n).symm.trans h.free⟩

/-- A file is made where nothing stands. -/
theorem createNew_eq_ok (hd : d.IsHere) (hn : Path.IsName n) {at_ : List Text} :
    d.createNew (Path.join [dir, n]) = .ok (at_, d') ↔
      ∃ ps, d.Spare dir n ps ∧ at_ = ps ++ [n] ∧ d' = d.withEntry (ps ++ [n]) (.file [] 0o600) := by
  constructor
  · intro h
    by_cases hleads : ∃ ps, d.LeadsTo dir ps
    · obtain ⟨ps, hps⟩ := hleads
      cases hfree : d.root.get? (ps ++ [n]) with
      | none =>
        rw [createNew, resolve_join_free hd hn hps hfree] at h
        cases h
        exact ⟨ps, ⟨hn, hps, hfree⟩, rfl, rfl⟩
      | some e =>
        rw [createNew, resolve_join_found hd hn hps hfree] at h
        cases h
    · obtain ⟨errno, herrno⟩ := resolve_of_not_leadsTo hd (not_exists.1 hleads)
      rw [createNew, herrno false n hn] at h
      cases h
  · rintro ⟨ps, h, rfl, rfl⟩
    rw [createNew, resolve_join_free hd hn h.leads h.free]
    rfl

section

variable (hd : d.Orderly) (h : d.Spare dir n ps)

include hd h

theorem Spare.isRenewed (content : Text) (mode : Nat) : IsRenewed d (d.withEntry (ps ++ [n]) (.file content mode)) := by
  obtain ⟨es, hget, hnone⟩ := h.exists_dir hd.here
  exact isRenewed_withEntry hget (fun fs => by simp [hnone]) content mode

theorem Spare.isHere (content : Text) (mode : Nat) : (d.withEntry (ps ++ [n]) (.file content mode)).IsHere :=
  (h.isRenewed hd content mode).isHere hd.here

/-- The path of the directory leads there as before. -/
theorem Spare.leadsTo (content : Text) (mode : Nat) :
    (d.withEntry (ps ++ [n]) (.file content mode)).LeadsTo dir ps := by
  obtain ⟨es, hget, hnone⟩ := h.exists_dir hd.here
  refine h.leads.after (h.isRenewed hd content mode).toKeepsDirs (fun qs target hqs => ?_) hd.here
  -- a link that was there stands at another place
  have hne : qs ≠ ps ++ [n] := by
    rintro rfl
    rw [h.free] at hqs
    cases hqs
  have hheld : (d.withEntry (ps ++ [n]) (.file content mode)).root.held qs = d.root.held qs :=
    Entry.held_set hget (fun fs => by simp [hnone]) (fun _ _ => rfl) hne
  exact (Entry.held_eq_some rfl).1 (hheld.trans ((Entry.held_eq_some rfl).2 hqs))

theorem Spare.get? (content : Text) (mode : Nat) :
    (d.withEntry (ps ++ [n]) (.file content mode)).root.get? (ps ++ [n]) = some (.file content mode) := by
  obtain ⟨es, hget, -⟩ := h.exists_dir hd.here
  exact Entry.get?_set_self hget

/-- What is written there takes the place of what was. -/
theorem Spare.withEntry (content content' : Text) (mode mode' : Nat) :
    (d.withEntry (ps ++ [n]) (.file content mode)).withEntry (ps ++ [n]) (.file content' mode') =
      d.withEntry (ps ++ [n]) (.file content' mode') := by
  obtain ⟨es, hget, -⟩ := h.exists_dir hd.here
  exact congrArg (fun root => (⟨root, d.cwd⟩ : Disk)) (Entry.set_set hget)

/-- Taking it away leaves the disk as it was. -/
theorem Spare.remove (content : Text) (mode : Nat) :
    (d.withEntry (ps ++ [n]) (.file content mode)).remove (Path.join [dir, n]) = .ok d := by
  obtain ⟨es, hget, hnone⟩ := h.exists_dir hd.here
  rw [Disk.remove, resolve_join_found (h.isHere hd content mode) h.isName (h.leadsTo hd content mode)
    (h.get? hd content mode)]
  exact congrArg (fun root => Except.ok (⟨root, d.cwd⟩ : Disk)) (Entry.set_none_set hd.tree hget hnone)

theorem Spare.chmod (content : Text) (mode mode' : Nat) :
    (d.withEntry (ps ++ [n]) (.file content mode)).chmod (Path.join [dir, n]) mode' =
      .ok (d.withEntry (ps ++ [n]) (.file content mode')) := by
  rw [Disk.chmod, resolve_join_file (h.isHere hd content mode) h.isName (h.leadsTo hd content mode)
    (h.get? hd content mode)]
  exact congrArg Except.ok (h.withEntry hd content content mode mode')

variable (hne : m ≠ n)

include hne

theorem Spare.get?_of_ne (content : Text) (mode : Nat) :
    (d.withEntry (ps ++ [n]) (.file content mode)).root.get? (ps ++ [m]) = d.root.get? (ps ++ [m]) := by
  obtain ⟨es, hget, -⟩ := h.exists_dir hd.here
  exact get?_withEntry_of_ne hget hne

/-- It is renamed to a name under which no directory stands, and then it is as if it had been put there. -/
theorem Spare.rename (hm : Path.IsName m) (hnoDir : ∀ fs, d.root.get? (ps ++ [m]) ≠ some (.dir fs)) (content : Text)
    (mode : Nat) :
    (d.withEntry (ps ++ [n]) (.file content mode)).rename (Path.join [dir, n]) (Path.join [dir, m]) =
      .ok (d.withEntry (ps ++ [m]) (.file content mode)) := by
  have hhere := h.isHere hd content mode
  have hleads := h.leadsTo hd content mode
  have hother := h.get?_of_ne hd hne content mode
  have hlanding : (d.withEntry (ps ++ [n]) (.file content mode)).landing (Path.join [dir, m]) = .ok (ps ++ [m]) := by
    unfold landing
    cases hm' : d.root.get? (ps ++ [m]) with
    | none => rw [resolve_join_free hhere hm hleads (hother.trans hm')]
    | some e =>
      rw [resolve_join_found hhere hm hleads (hother.trans hm')]
      cases e with
      | dir fs => exact absurd hm' (hnoDir fs)
      | _ => rfl
  obtain ⟨es, hget, hnone⟩ := h.exists_dir hd.here
  rw [Disk.rename, resolve_join_found hhere h.isName hleads (h.get? hd content mode)]
  simp only [hlanding]
  exact congrArg (fun root => Except.ok (⟨Entry.set (some (.file content mode)) (ps ++ [m]) root, d.cwd⟩ : Disk))
    (Entry.set_none_set hd.tree hget hnone)

/-- It is not renamed to the name of a directory. -/
theorem Spare.rename_dir (hm : Path.IsName m) {fs : List (Text × Entry)}
    (hdir : d.root.get? (ps ++ [m]) = some (.dir fs)) (content : Text) (mode : Nat) :
    (d.withEntry (ps ++ [n]) (.file content mode)).rename (Path.join [dir, n]) (Path.join [dir, m]) =
      .error ⟨"rename", Path.join [dir, n], some (Path.join [dir, m]), .alreadyExists⟩ := by
  have hhere := h.isHere hd content mode
  have hleads := h.leadsTo hd content mode
  have hlanding : (d.withEntry (ps ++ [n]) (.file content mode)).landing (Path.join [dir, m]) =
    .error .alreadyExists := by
    rw [landing, resolve_join_found hhere hm hleads ((h.get?_of_ne hd hne content mode).trans hdir)]
  rw [Disk.rename, resolve_join_found hhere h.isName hleads (h.get? hd content mode)]
  simp only [hlanding]

/-- Once it was renamed, nothing is left to take away. -/
theorem Spare.remove_renamed (hnoDir : ∀ fs, d.root.get? (ps ++ [m]) ≠ some (.dir fs)) (content : Text) (mode : Nat) :
    ∃ e, (d.withEntry (ps ++ [m]) (.file content mode)).remove (Path.join [dir, n]) = .error e := by
  obtain ⟨es, hget, hnone⟩ := h.exists_dir hd.here
  have hrenewed : IsRenewed d (d.withEntry (ps ++ [m]) (.file content mode)) := by
    refine isRenewed_withEntry hget (fun fs => ?_) content mode
    rw [← Entry.get?_concat hget]
    exact hnoDir fs
  have hhere := hrenewed.isHere hd.here
  unfold Disk.remove
  by_cases hleads : ∃ qs, (d.withEntry (ps ++ [m]) (.file content mode)).LeadsTo dir qs
  · -- if the path still leads to a directory, it is the same one, without the name
    obtain ⟨qs, hqs⟩ := hleads
    obtain rfl := (hqs.before hrenewed hd.here).unique h.leads
    have hfree : (d.withEntry (qs ++ [m]) (.file content mode)).root.get? (qs ++ [n]) = none :=
      (get?_withEntry_of_ne hget hne.symm).trans h.free
    rw [resolve_join_free hhere h.isName hqs hfree]
    exact ⟨_, rfl⟩
  · obtain ⟨errno, herrno⟩ := resolve_of_not_leadsTo hhere (not_exists.1 hleads)
    rw [herrno false n h.isName]
    exact ⟨_, rfl⟩

end

/-! ## Making directories -/

/-- A disk on which some directories were made. -/
structure Made (d d' : Disk) : Prop where
  orderly : d'.Orderly
  keeps : d.KeepsDirs d'
  held : ∀ q, d'.held q = d.held q

theorem Made.refl (hd : d.Orderly) : Made d d := ⟨hd, .refl d, fun _ => rfl⟩

theorem Made.trans {d'' : Disk} (h : Made d d') (h' : Made d' d'') : Made d d'' :=
  ⟨h'.orderly, h.keeps.trans h'.keeps, fun q => (h'.held q).trans (h.held q)⟩

theorem made_mkdir (hd : d.Orderly) {path : Text} (h : d.mkdir path = .ok d') : Made d d' := by
  have hkeeps := keepsDirs_mkdir hd.here h
  unfold mkdir at h
  split at h
  · rename_i qs m hresolve
    cases h
    obtain ⟨gs, hget, hnone⟩ := resolve_isPlace hd.here hresolve
    have hfree : ∀ fs, Table.find? m gs ≠ some (.dir fs) := fun fs => by simp [hnone]
    have hname := resolve_isAnswer d false path
    rw [hresolve] at hname
    refine ⟨hd.withEntry hget hfree hname Entry.orderly_emptyDir, hkeeps, fun q => ?_⟩
    by_cases hq : q = qs ++ [m]
    · -- nothing stood there, and a directory is nothing else
      have hold : d.root.get? q = none := by rw [hq, Entry.get?_concat hget, hnone]
      have hnew : (d.withEntry (qs ++ [m]) Entry.emptyDir).root.get? q = some Entry.emptyDir := by
        rw [hq]
        exact Entry.get?_set_self hget
      change Option.filter _ _ = Option.filter _ _
      rw [hold]
      exact (congrArg (Option.filter fun e => !e.isDir) hnew).trans rfl
    · exact Entry.held_set hget hfree (fun _ _ => rfl) hq
  · cases h
  · cases h

theorem made_mkdirAll (hd : d.Orderly) {path : Text} (h : d.mkdirAll path = .ok d') : Made d d' :=
  of_mkdirAllWithin (P := Made d) (fun hx hmkdir => hx.trans (made_mkdir hx.orderly hmkdir)) (.refl hd) h

end Disk

end DocAtlas

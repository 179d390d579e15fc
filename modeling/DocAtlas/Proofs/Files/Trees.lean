/-
File trees without links. In a directory the names are in order, each once, so a path leads to one
entry; `get?` follows it, and resolving a path on a disk comes to the same entry.

Changing contents is `rewrite`: every file gets the content that a function of its path and its content
gives, and all else stays: names, directories, modes. Rewrites compose, what a path leads to after
a rewrite is the rewritten entry, and writing to a file that is there rewrites one path.
-/
import DocAtlas.Files.Disk
import DocAtlas.Proofs.Files.Paths
import DocAtlas.Proofs.Text.Tables

namespace DocAtlas

namespace Entry

/-! ## Induction -/

mutual

/-- To prove something of every entry, prove it of files, of links, and of a directory whose entries have it. -/
theorem ind {motive : Entry → Prop} (file : ∀ content mode, motive (.file content mode))
    (link : ∀ target, motive (.link target)) (dir : ∀ es, (∀ p ∈ es, motive p.2) → motive (.dir es)) :
    ∀ e, motive e
  | .file content mode => file content mode
  | .link target => link target
  | .dir es => dir es (indEach file link dir es)

theorem indEach {motive : Entry → Prop} (file : ∀ content mode, motive (.file content mode))
    (link : ∀ target, motive (.link target)) (dir : ∀ es, (∀ p ∈ es, motive p.2) → motive (.dir es)) :
    ∀ es : List (Text × Entry), ∀ p ∈ es, motive p.2
  | [] => by simp
  | (_, e) :: es => List.forall_mem_cons.2 ⟨ind file link dir e, indEach file link dir es⟩

end

/-! ## Trees without links -/

mutual

/-- Whether there are only directories and files, under names in order, each once. -/
def isPlain : Entry → Bool
  | file _ _ => true
  | link _ => false
  | dir es => arePlain es

/-- The same for the entries of a directory. -/
def arePlain : List (Text × Entry) → Bool
  | [] => true
  | (n, e) :: es => decide (Path.IsName n) && (es.all fun p => Text.le n p.1 && n != p.1) && isPlain e && arePlain es

end

/-- The entries of a plain directory. -/
theorem arePlain_iff {es : List (Text × Entry)} : arePlain es = true ↔
    (∀ p ∈ es, Path.IsName p.1 ∧ p.2.isPlain = true) ∧ Table.Sorted es := by
  induction es with
  | nil => simp [arePlain]
  | cons p es ih =>
    obtain ⟨n, e⟩ := p
    rw [arePlain, Table.sorted_cons, List.forall_mem_cons]
    simp only [Bool.and_eq_true, decide_eq_true_eq, List.all_eq_true, bne_iff_ne, ih, Text.Before]
    tauto

theorem isPlain_of_find? {n : Text} {e : Entry} {es : List (Text × Entry)} (hes : arePlain es = true)
    (h : Table.find? n es = some e) : Path.IsName n ∧ e.isPlain = true :=
  (arePlain_iff.1 hes).1 _ (Table.mem_of_find? h)

/-! ## Following a path -/

@[simp] theorem get?_nil (e : Entry) : e.get? [] = some e := by cases e <;> rfl

theorem get?_dir (n : Text) (ns : List Text) (es : List (Text × Entry)) :
    (dir es).get? (n :: ns) = (Table.find? n es).bind (get? ns) := rfl

@[simp] theorem get?_file (n : Text) (ns : List Text) (content : Text) (mode : Nat) :
    (file content mode).get? (n :: ns) = none := rfl

theorem get?_append (e : Entry) (ps qs : List Text) : e.get? (ps ++ qs) = (e.get? ps).bind (get? qs) := by
  induction ps generalizing e with
  | nil => simp
  | cons p ps ih =>
    cases e with
    | dir es =>
      rw [List.cons_append, get?_dir, get?_dir]
      cases Table.find? p es with
      | none => rfl
      | some d => exact ih d
    | _ => rfl

theorem isPlain_of_get? {e d : Entry} {ps : List Text} (he : e.isPlain = true) (h : e.get? ps = some d) :
    d.isPlain = true ∧ ∀ p ∈ ps, Path.IsName p := by
  induction ps generalizing e with
  | nil =>
    rw [get?_nil] at h
    cases h
    exact ⟨he, by simp⟩
  | cons p ps ih =>
    cases e with
    | dir es =>
      obtain ⟨f, hf, hd⟩ := Option.bind_eq_some_iff.1 h
      obtain ⟨hp, hplain⟩ := isPlain_of_find? he hf
      obtain ⟨h1, h2⟩ := ih hplain hd
      exact ⟨h1, List.forall_mem_cons.2 ⟨hp, h2⟩⟩
    | _ => cases h

/-! ## Changing contents -/

mutual

/-- The entry at `path` with new contents in its files: `change` gives them by path and content. -/
def rewriteAt (change : List Text → Text → Text) (path : List Text) : Entry → Entry
  | file content mode => file (change path content) mode
  | link target => link target
  | dir es => dir (rewriteIn change path es)

/-- The same for the entries of the directory at `path`. -/
def rewriteIn (change : List Text → Text → Text) (path : List Text) : List (Text × Entry) → List (Text × Entry)
  | [] => []
  | (n, e) :: es => (n, rewriteAt change (path ++ [n]) e) :: rewriteIn change path es

end

/-- The tree with new contents in its files. -/
def rewrite (change : List Text → Text → Text) (e : Entry) : Entry := rewriteAt change [] e

variable {change : List Text → Text → Text} {path : List Text}

theorem rewriteIn_eq (es : List (Text × Entry)) :
    rewriteIn change path es = es.map fun p => (p.1, rewriteAt change (path ++ [p.1]) p.2) := by
  induction es with
  | nil => rfl
  | cons p es ih => rw [rewriteIn, ih, List.map_cons]

theorem find?_rewriteIn (n : Text) (es : List (Text × Entry)) :
    Table.find? n (rewriteIn change path es) = (Table.find? n es).map (rewriteAt change (path ++ [n])) := by
  induction es with
  | nil => rfl
  | cons p es ih =>
    obtain ⟨m, e⟩ := p
    rw [rewriteIn, Table.find?_cons, Table.find?_cons, ih]
    by_cases h : m = n <;> simp [h]

/-- A path leads to the rewritten entry. -/
theorem get?_rewriteAt (e : Entry) (ps : List Text) :
    (rewriteAt change path e).get? ps = (e.get? ps).map (rewriteAt change (path ++ ps)) := by
  induction ps generalizing e path with
  | nil => simp
  | cons p ps ih =>
    cases e with
    | dir es =>
      rw [rewriteAt, get?_dir, get?_dir, find?_rewriteIn]
      cases Table.find? p es with
      | none => rfl
      | some d =>
        change (rewriteAt change (path ++ [p]) d).get? ps = _
        rw [ih d, List.append_assoc]
        rfl
    | _ => rfl

theorem get?_rewrite_file {e : Entry} {ps : List Text} {content : Text} {mode : Nat}
    (h : e.get? ps = some (.file content mode)) :
    (e.rewrite change).get? ps = some (.file (change ps content) mode) := by
  unfold rewrite
  rw [get?_rewriteAt, h]
  rfl

/-- A rewrite depends on the files that are there. -/
theorem rewriteAt_congr {change' : List Text → Text → Text} {e : Entry} (he : e.isPlain = true)
    (h : ∀ ps content mode, e.get? ps = some (.file content mode) →
      change (path ++ ps) content = change' (path ++ ps) content) :
    rewriteAt change path e = rewriteAt change' path e := by
  induction e using Entry.ind generalizing path with
  | file content mode =>
    have := h [] content mode (get?_nil _)
    rw [List.append_nil] at this
    rw [rewriteAt, rewriteAt, this]
  | link target => rfl
  | dir es ih =>
    rw [rewriteAt, rewriteAt, rewriteIn_eq, rewriteIn_eq]
    congr 1
    refine List.map_congr_left fun p hp => ?_
    obtain ⟨hnames, hsorted⟩ := arePlain_iff.1 he
    congr 1
    refine ih p hp (hnames p hp).2 fun ps content mode hf => ?_
    rw [List.append_assoc]
    refine h ([p.1] ++ ps) content mode ?_
    rw [List.singleton_append, get?_dir, Table.find?_of_mem hsorted hp]
    exact hf

theorem rewriteAt_id (e : Entry) : rewriteAt (fun _ content => content) path e = e := by
  induction e using Entry.ind generalizing path with
  | file content mode => rfl
  | link target => rfl
  | dir es ih =>
    rw [rewriteAt, rewriteIn_eq]
    congr 1
    conv_rhs => rw [← List.map_id es]
    refine List.map_congr_left fun p hp => ?_
    rw [ih p hp]
    rfl

theorem rewriteAt_rewriteAt (change' : List Text → Text → Text) (e : Entry) :
    rewriteAt change' path (rewriteAt change path e) =
      rewriteAt (fun ps content => change' ps (change ps content)) path e := by
  induction e using Entry.ind generalizing path with
  | file content mode => rfl
  | link target => rfl
  | dir es ih =>
    simp only [rewriteAt, rewriteIn_eq, List.map_map]
    congr 1
    refine List.map_congr_left fun p hp => ?_
    simp only [Function.comp_apply]
    rw [ih p hp]

/-- The tree under changes that agree on its files. -/
theorem rewrite_congr {change' : List Text → Text → Text} {e : Entry} (he : e.isPlain = true)
    (h : ∀ ps content mode, e.get? ps = some (.file content mode) → change ps content = change' ps content) :
    e.rewrite change = e.rewrite change' := rewriteAt_congr he h

theorem rewrite_eq_self {e : Entry} (he : e.isPlain = true)
    (h : ∀ ps content mode, e.get? ps = some (.file content mode) → change ps content = content) :
    e.rewrite change = e := (rewrite_congr he h).trans (rewriteAt_id e)

/-- Giving a file the content it has changes nothing. -/
theorem rewrite_same {e : Entry} (he : e.isPlain = true) {ps : List Text} {content : Text} {mode : Nat}
    (h : e.get? ps = some (.file content mode)) : (e.rewrite fun qs old => if qs = ps then content else old) = e := by
  refine rewrite_eq_self he fun qs old mode' hqs => ?_
  by_cases heq : qs = ps
  · rw [heq, h] at hqs
    cases hqs
    exact if_pos heq
  · exact if_neg heq

theorem rewrite_rewrite (change' : List Text → Text → Text) (e : Entry) :
    (e.rewrite change).rewrite change' = e.rewrite fun ps content => change' ps (change ps content) :=
  rewriteAt_rewriteAt change' e

theorem isPlain_rewriteAt (e : Entry) : (rewriteAt change path e).isPlain = e.isPlain := by
  induction e using Entry.ind generalizing path with
  | file content mode => rfl
  | link target => rfl
  | dir es ih =>
    rw [rewriteAt, isPlain, isPlain, Bool.eq_iff_iff, arePlain_iff, arePlain_iff, rewriteIn_eq]
    simp only [List.forall_mem_map]
    refine and_congr (forall₂_congr fun p hp => ?_) (Table.sorted_map _)
    rw [ih p hp]

/-! ## Writing to a file -/

/-- Putting something under a name that is there replaces what is under it. -/
theorem put_eq_map {n : Text} {d : Entry} {es : List (Text × Entry)}
    (hes : Table.Sorted es) (hn : (Table.find? n es).isSome) :
    Table.put n d es = es.map fun p => (p.1, if p.1 = n then d else p.2) := by
  induction es with
  | nil => simp [Table.find?] at hn
  | cons p es ih =>
    obtain ⟨m, e⟩ := p
    obtain ⟨hfirst, hes⟩ := List.pairwise_cons.1 hes
    rw [Table.put, List.map_cons]
    rw [Table.find?_cons] at hn
    by_cases h : m = n
    · subst h
      rw [if_pos rfl, if_pos rfl]
      congr 1
      -- the names that follow are different ones
      conv_lhs => rw [← List.map_id es]
      refine List.map_congr_left fun q hq => ?_
      rw [if_neg (hfirst q hq).2.symm]
      rfl
    · rw [if_neg h] at hn
      obtain ⟨f, hf⟩ := Option.isSome_iff_exists.1 hn
      rw [if_neg h, if_pos (hfirst _ (Table.mem_of_find? hf)).1, if_neg h, ih hes hn]

/-- Writing below an entry of a directory rewrites that entry. -/
theorem set_file_cons {es : List (Text × Entry)} {p : Text} {ps : List Text} {d : Entry} {old : Text} {mode : Nat}
    (hd : Table.find? p es = some d) (hget : d.get? ps = some (.file old mode)) (new : Text) :
    (dir es).set (some (.file new mode)) (p :: ps) = dir (Table.put p (d.set (some (.file new mode)) ps) es) := by
  cases ps with
  | nil =>
    rw [get?_nil] at hget
    cases hget
    rfl
  | cons q ps => rw [set, hd]

/-- Away from the entry on the way nothing is rewritten. -/
theorem rewriteAt_beside {e : Entry} (he : e.isPlain = true) {path : List Text} {p q : Text} (hqp : q ≠ p)
    (ps : List Text) (new : Text) :
    rewriteAt (fun qs content => if qs = path ++ p :: ps then new else content) (path ++ [q]) e = e := by
  have hsame : rewriteAt (fun qs content => if qs = path ++ p :: ps then new else content) (path ++ [q]) e =
      rewriteAt (fun _ content => content) (path ++ [q]) e := by
    refine rewriteAt_congr he fun qs content _ _ => ?_
    rw [if_neg]
    intro heq
    rw [List.append_assoc] at heq
    exact hqp (List.cons.inj (List.append_cancel_left heq)).1
  rw [hsame, rewriteAt_id]

/-- Writing to a file changes its content and nothing else. -/
theorem set_file {e : Entry} (he : e.isPlain = true) {ps : List Text} {old : Text} {mode : Nat}
    (h : e.get? ps = some (.file old mode)) (new : Text) (path : List Text) :
    e.set (some (.file new mode)) ps =
      rewriteAt (fun qs content => if qs = path ++ ps then new else content) path e := by
  induction ps generalizing e path with
  | nil =>
    rw [get?_nil] at h
    cases h
    simp [set, rewriteAt]
  | cons p ps ih =>
    cases e with
    | dir es =>
      obtain ⟨hnames, hsorted⟩ := arePlain_iff.1 he
      obtain ⟨d, hd, hget⟩ := Option.bind_eq_some_iff.1 h
      rw [set_file_cons hd hget, put_eq_map hsorted (by rw [hd]; rfl), rewriteAt, rewriteIn_eq]
      congr 1
      refine List.map_congr_left fun q hq => ?_
      congr 1
      by_cases hqp : q.1 = p
      · have hqd : q.2 = d := by
          have hfound := Table.find?_of_mem hsorted hq
          rw [hqp, hd] at hfound
          exact (Option.some.inj hfound).symm
        have hpath : path ++ p :: ps = path ++ [p] ++ ps := by simp
        rw [if_pos hqp, hqd, hqp, hpath]
        exact ih (isPlain_of_find? he hd).2 hget _
      · rw [if_neg hqp, rewriteAt_beside (hnames q hq).2 hqp]
    | _ => cases h

/-! ## Listing the files -/

theorem filesIn_eq (path : List Text) (es : List (Text × Entry)) :
    filesIn path es = es.flatMap fun p => filesAt (path ++ [p.1]) p.2 := by
  induction es with
  | nil => rfl
  | cons p es ih => rw [filesIn, ih, List.flatMap_cons]

/-- The files of a plain tree with their paths, each once. -/
theorem filesAt_spec {e : Entry} (he : e.isPlain = true) (path : List Text) :
    ((e.filesAt path).map Prod.fst).Nodup ∧ ∀ f ∈ e.filesAt path, ∃ ps, f.1 = path ++ ps ∧
      e.get? ps = some (.file f.2.1 f.2.2) := by
  induction e using Entry.ind generalizing path with
  | file content mode =>
    rw [filesAt]
    exact ⟨List.nodup_singleton _,
      fun f hf => ⟨[], by simp [List.mem_singleton.1 hf], by simp [List.mem_singleton.1 hf]⟩⟩
  | link target => cases he
  | dir es ih =>
    obtain ⟨hnames, hsorted⟩ := arePlain_iff.1 he
    have hget : ∀ p ∈ es, ∀ f ∈ filesAt (path ++ [p.1]) p.2, ∃ ps, f.1 = path ++ p.1 :: ps ∧
        p.2.get? ps = some (.file f.2.1 f.2.2) := by
      intro p hp f hf
      obtain ⟨ps, h1, h2⟩ := (ih p hp (hnames p hp).2 (path ++ [p.1])).2 f hf
      exact ⟨ps, by simpa using h1, h2⟩
    rw [filesAt, filesIn_eq]
    constructor
    · rw [List.map_flatMap, List.nodup_flatMap]
      refine ⟨fun p hp => (ih p hp (hnames p hp).2 _).1, ?_⟩
      -- paths through different names are different
      refine hsorted.imp_of_mem fun {p q} hp hq hpq x hx hy => ?_
      obtain ⟨f, hf, rfl⟩ := List.mem_map.1 hx
      obtain ⟨g, hg, hfg⟩ := List.mem_map.1 hy
      obtain ⟨ps, h1, -⟩ := hget p hp f hf
      obtain ⟨qs, h2, -⟩ := hget q hq g hg
      rw [hfg, h1] at h2
      exact hpq.2 (List.cons.inj (List.append_cancel_left h2)).1
    · intro f hf
      obtain ⟨p, hp, hf⟩ := List.mem_flatMap.1 hf
      obtain ⟨ps, h1, h2⟩ := hget p hp f hf
      refine ⟨p.1 :: ps, h1, ?_⟩
      rw [get?_dir, Table.find?_of_mem hsorted hp]
      exact h2

end Entry

/-! ## Disks -/

namespace Disk

/-- A disk without links. -/
structure Plain (d : Disk) : Prop where
  noLinks : d.root.isPlain = true
  isDir : d.root.isDir = true
  cwd : Path.isAbsolute d.cwd = true

instance (d : Disk) : Decidable d.Plain :=
  decidable_of_iff (d.root.isPlain = true ∧ d.root.isDir = true ∧ Path.isAbsolute d.cwd = true)
    ⟨fun h => ⟨h.1, h.2.1, h.2.2⟩, fun h => ⟨h.1, h.2, h.3⟩⟩

/-- Walking down names below an entry without links is following them. -/
theorem descend_eq_found {root : Entry} {followLast : Bool} {follow : List Text → List Text → Except Errno Place}
    {here ps : List Text} {e : Entry} (he : e.isPlain = true) (hps : ∀ p ∈ ps, Path.IsName p) (at_ : List Text)
    (f : Entry) :
    descend root followLast follow here e ps = .ok (.found at_ f) ↔ at_ = here ++ ps ∧ e.get? ps = some f := by
  induction ps generalizing here e with
  | nil => simp [descend, eq_comm]
  | cons p ps ih =>
    obtain ⟨hp, hps⟩ := List.forall_mem_cons.1 hps
    cases e with
    | file content mode => simp [descend]
    | link target => cases he
    | dir es =>
      have hdot : ¬(p = [] ∨ p = Text.ofString ".") := by
        rintro (h | h)
        · exact hp.nonempty h
        · exact hp.notHere h
      rw [descend, if_neg hdot, if_neg hp.notUp, Entry.get?_dir]
      cases hfind : Table.find? p es with
      | none => cases ps <;> simp
      | some d =>
        have hplain := (Entry.isPlain_of_find? he hfind).2
        cases d with
        | link target => cases hplain
        | _ =>
          rw [ih hplain hps]
          simp

/-- On a disk without links a path leads to what its names lead to. -/
theorem resolve_rooted {d : Disk} (hd : d.Plain) (followLast : Bool) {ps : List Text} (hps : ∀ p ∈ ps, Path.IsName p)
    (at_ : List Text) (e : Entry) :
    d.resolve followLast (Path.rooted ps) = .ok (.found at_ e) ↔ at_ = ps ∧ d.root.get? ps = some e := by
  have hskip : ∀ follow cs, descend d.root followLast follow [] d.root ([] :: cs) =
      descend d.root followLast follow [] d.root cs := by
    intro follow cs
    obtain ⟨hplain, hdir, -⟩ := hd
    cases hr : d.root with
    | dir es => rw [descend, if_pos (Or.inl rfl)]
    | _ => rw [hr] at hdir; cases hdir
  have hresolve : d.resolve followLast (Path.rooted ps) =
      descend d.root followLast (walk d.root followLast 39) [] d.root (Text.splitOn Path.slash (Path.rooted ps)) := by
    unfold resolve
    rw [if_neg (by simp [Path.rooted]), if_pos (Path.isAbsolute_rooted ps)]
    simp only [maxLinks, walk, Entry.get?_nil, Option.getD_some]
  rw [hresolve]
  cases ps with
  | nil =>
    -- the path is a lone slash, with nothing on either side of it
    have hroot : Text.splitOn Path.slash (Path.rooted []) = [[], []] := rfl
    rw [hroot, hskip, hskip, descend_eq_found hd.noLinks (by simp)]
    simp
  | cons p ps =>
    rw [Path.splitOn_rooted (List.cons_ne_nil _ _) hps, hskip, descend_eq_found hd.noLinks hps]
    simp

theorem readFile_rooted {d : Disk} (hd : d.Plain) {ps : List Text} {content : Text} {mode : Nat}
    (h : d.root.get? ps = some (.file content mode)) : d.readFile (Path.rooted ps) = .ok content := by
  have hps := (Entry.isPlain_of_get? hd.noLinks h).2
  have hfound := (resolve_rooted hd true hps ps _).2 ⟨rfl, h⟩
  simp only [readFile, entry, hfound]

theorem writeFile_rooted {d : Disk} (hd : d.Plain) {ps : List Text} {old : Text} {kept : Nat}
    (h : d.root.get? ps = some (.file old kept)) (new : Text) (mode : Nat) :
    d.writeFile (Path.rooted ps) new mode =
      .ok { d with root := d.root.rewrite fun qs content => if qs = ps then new else content } := by
  have hps := (Entry.isPlain_of_get? hd.noLinks h).2
  have hfound := (resolve_rooted hd true hps ps _).2 ⟨rfl, h⟩
  have hset : d.root.set (some (.file new kept)) ps =
      d.root.rewrite fun qs content => if qs = ps then new else content :=
    Entry.set_file hd.noLinks h new []
  simp only [writeFile, changeFile, hfound, hset]

theorem Plain.rewrite {d : Disk} (hd : d.Plain) (change : List Text → Text → Text) :
    Plain { d with root := d.root.rewrite change } where
  noLinks := (Entry.isPlain_rewriteAt d.root).trans hd.noLinks
  isDir := by
    obtain ⟨-, hdir, -⟩ := hd
    cases hr : d.root with
    | dir es => rfl
    | _ => rw [hr] at hdir; cases hdir
  cwd := hd.cwd

end Disk

end DocAtlas

/-
Where paths lead on a disk with links. Whatever a path leads to is an entry of the tree, and a name
after a path leads to what stands under it in the directory the path leads to, if it is one.

Putting something under a name of a directory keeps all other paths as they are: no link is new, and no
directory is, unless it was put there. So a path that leads to a directory afterwards led to the same one before.
-/
import DocAtlas.Proofs.Files.Trees

namespace DocAtlas

namespace Entry

/-! ## Orderly trees -/

/-- A tree as a file system holds it: in every directory the names are in order, each once. -/
def Orderly (e : Entry) : Prop :=
  ∀ ps es, e.get? ps = some (.dir es) →
    (∀ p ∈ es, Path.IsName p.1) ∧ Table.Sorted es

theorem Orderly.get? {e d : Entry} (he : e.Orderly) {ps : List Text} (h : e.get? ps = some d) : d.Orderly := by
  intro qs es hqs
  exact he (ps ++ qs) es (by rw [get?_append, h]; exact hqs)

/-- The entries of an orderly directory are found under their names, which are names, and are orderly. -/
theorem Orderly.entry {es : List (Text × Entry)} (hes : (dir es).Orderly) {p : Text × Entry} (hp : p ∈ es) :
    Path.IsName p.1 ∧ Table.find? p.1 es = some p.2 ∧ p.2.Orderly := by
  obtain ⟨hnames, hsorted⟩ := hes [] es (get?_nil _)
  have hfind := Table.find?_of_mem hsorted hp
  have hget : (dir es).get? [p.1] = some p.2 := by
    rw [get?_dir, hfind]
    exact get?_nil _
  exact ⟨hnames p hp, hfind, hes.get? hget⟩

/-- Every part of a path that leads somewhere is a name. -/
theorem Orderly.isName {e d : Entry} (he : e.Orderly) {ps : List Text} (h : e.get? ps = some d) :
    ∀ p ∈ ps, Path.IsName p := by
  induction ps generalizing e with
  | nil => simp
  | cons p ps ih =>
    cases e with
    | dir es =>
      obtain ⟨f, hf, hd⟩ := Option.bind_eq_some_iff.1 h
      obtain ⟨hp, -, hplain⟩ := he.entry (Table.mem_of_find? hf)
      exact List.forall_mem_cons.2 ⟨hp, ih hplain hd⟩
    | _ => cases h

theorem orderly_of_isPlain {e : Entry} (he : e.isPlain = true) : e.Orderly := by
  intro ps es h
  obtain ⟨hnames, hsorted⟩ := arePlain_iff.1 (isPlain_of_get? he h).1
  exact ⟨fun p hp => (hnames p hp).1, hsorted⟩

theorem get?_concat {e : Entry} {ps : List Text} {es : List (Text × Entry)} (h : e.get? ps = some (.dir es))
    (n : Text) :
    e.get? (ps ++ [n]) = Table.find? n es := by
  rw [get?_append, h, Option.bind_some, get?_dir]
  cases Table.find? n es <;> simp

/-- What a path goes on from is a directory. -/
theorem exists_dir_of_append {e d : Entry} {ps : List Text} {n : Text} {ns : List Text}
    (h : e.get? (ps ++ n :: ns) = some d) :
    ∃ es, e.get? ps = some (.dir es) := by
  rw [get?_append] at h
  obtain ⟨f, hf, hd⟩ := Option.bind_eq_some_iff.1 h
  cases f with
  | dir es => exact ⟨es, hf⟩
  | _ => cases hd

/-- All but the last part of a path that leads somewhere lead to a directory. -/
theorem get?_dropLast {e d : Entry} {ps : List Text} (h : e.get? ps = some d) (hne : ps ≠ []) :
    ∃ es, e.get? ps.dropLast = some (.dir es) :=
  exists_dir_of_append ((congrArg e.get? (List.dropLast_concat_getLast hne)).trans h)

/-- A tree with a directory in it is a directory. -/
theorem exists_dir {e : Entry} {ps : List Text} {es : List (Text × Entry)} (h : e.get? ps = some (.dir es)) :
    ∃ fs, e.get? [] = some (.dir fs) := by
  rw [get?_nil]
  cases e with
  | dir fs => exact ⟨fs, rfl⟩
  | _ => cases ps <;> simp [get?] at h

/-! ## Putting something under a name -/

variable {e new : Entry} {ps : List Text} {es : List (Text × Entry)} {n : Text}

/-- Putting something below a directory on the way, or taking it away there, changes that directory alone. -/
theorem set_cons {p : Text} {ps : List Text} {d : Entry} (hd : Table.find? p es = some d) (n : Text)
    (new : Option Entry) :
    (dir es).set new (p :: (ps ++ [n])) = dir (Table.put p (d.set new (ps ++ [n])) es) := by
  obtain ⟨q, qs, hqs⟩ : ∃ q qs, ps ++ [n] = q :: qs := List.exists_cons_of_ne_nil (by simp)
  rw [hqs, set, hd]

/-- The directory something was put in. -/
theorem get?_set_dir (h : e.get? ps = some (.dir es)) :
    (e.set (some new) (ps ++ [n])).get? ps = some (.dir (Table.put n new es)) := by
  induction ps generalizing e with
  | nil =>
    rw [get?_nil] at h
    cases h
    exact get?_nil _
  | cons p ps ih =>
    cases e with
    | dir fs =>
      obtain ⟨d, hd, hget⟩ := Option.bind_eq_some_iff.1 h
      rw [List.cons_append, set_cons hd, get?_dir, Table.find?_put, if_pos rfl]
      exact ih hget
    | _ => cases h

/-- A path that does not begin with the one something was put at leads to what it led to, but for the entries
of directories on the way. -/
theorem get?_set_of_not_below (new : Entry) (h : e.get? ps = some (.dir es)) {qs : List Text}
    (hqs : ¬ps ++ [n] <+: qs) :
    (e.set (some new) (ps ++ [n])).get? qs = e.get? qs ∨
      ∃ fs fs', (e.set (some new) (ps ++ [n])).get? qs = some (.dir fs) ∧ e.get? qs = some (.dir fs') := by
  induction ps generalizing e qs with
  | nil =>
    rw [get?_nil] at h
    cases h
    cases qs with
    | nil => exact .inr ⟨_, _, get?_nil _, get?_nil _⟩
    | cons q qs =>
      left
      have hne : n ≠ q := fun heq => hqs (heq ▸ ⟨qs, rfl⟩)
      change (dir (Table.put n new es)).get? (q :: qs) = _
      rw [get?_dir, get?_dir, Table.find?_put, if_neg hne]
  | cons p ps ih =>
    cases e with
    | dir fs =>
      obtain ⟨d, hd, hget⟩ := Option.bind_eq_some_iff.1 h
      rw [List.cons_append, set_cons hd]
      cases qs with
      | nil => exact .inr ⟨_, _, get?_nil _, get?_nil _⟩
      | cons q qs =>
        rw [get?_dir, get?_dir, Table.find?_put]
        by_cases heq : p = q
        · subst heq
          rw [if_pos rfl, hd]
          exact ih hget fun hpre => hqs (List.cons_prefix_cons.2 ⟨rfl, hpre⟩)
        · rw [if_neg heq]
          exact .inl rfl
    | _ => cases h

/-- What was put under a name stands there. -/
theorem get?_set_self (h : e.get? ps = some (.dir es)) :
    (e.set (some new) (ps ++ [n])).get? (ps ++ [n]) = some new := by
  rw [get?_concat (get?_set_dir h), Table.find?_put, if_pos rfl]

/-- Each directory and link of the tree `new` is one of the tree `old` as well. -/
structure Within (new old : Entry) : Prop where
  dirs : ∀ qs fs, new.get? qs = some (.dir fs) → ∃ fs', old.get? qs = some (.dir fs')
  links : ∀ qs target, new.get? qs = some (.link target) → old.get? qs = some (.link target)

/-- Putting a file somewhere makes no directory and no link. -/
theorem within_set_file (h : e.get? ps = some (.dir es)) (content : Text) (mode : Nat) :
    Within (e.set (some (.file content mode)) (ps ++ [n])) e := by
  have hfile : ∀ {qs d}, ps ++ [n] <+: qs → (e.set (some (.file content mode)) (ps ++ [n])).get? qs = some d →
      d = .file content mode := by
    rintro _ d ⟨rest, rfl⟩ hd
    rw [get?_append, get?_set_self h] at hd
    cases rest with
    | nil => exact (Option.some.inj (by simpa using hd)).symm
    | cons => cases hd
  constructor
  · intro qs fs hqs
    by_cases hpre : ps ++ [n] <+: qs
    · cases hfile hpre hqs
    · rcases get?_set_of_not_below _ h hpre with heq | ⟨-, fs', -, hold⟩
      · exact ⟨fs, heq.symm.trans hqs⟩
      · exact ⟨fs', hold⟩
  · intro qs target hqs
    by_cases hpre : ps ++ [n] <+: qs
    · cases hfile hpre hqs
    · rcases get?_set_of_not_below _ h hpre with heq | ⟨fs, -, hnew, -⟩
      · exact heq.symm.trans hqs
      · rw [hnew] at hqs; cases hqs

/-- Every directory stays one if what was replaced was none. -/
theorem dir_of_set (h : e.get? ps = some (.dir es)) (hn : ∀ fs, Table.find? n es ≠ some (.dir fs)) {qs : List Text}
    {fs : List (Text × Entry)} (hqs : e.get? qs = some (.dir fs)) :
    ∃ fs', (e.set (some new) (ps ++ [n])).get? qs = some (.dir fs') := by
  by_cases hpre : ps ++ [n] <+: qs
  · obtain ⟨rest, rfl⟩ := hpre
    rw [get?_append, get?_concat h] at hqs
    obtain ⟨d, hd, hrest⟩ := Option.bind_eq_some_iff.1 hqs
    cases d with
    | dir gs => exact absurd hd (hn gs)
    | _ => cases rest <;> simp [get?] at hrest
  · rcases get?_set_of_not_below _ h hpre with heq | ⟨fs', -, hnew, -⟩
    · exact ⟨fs, heq.trans hqs⟩
    · exact ⟨fs', hnew⟩

end Entry

/-! ## Walking -/

namespace Disk

/-- A place of a tree: what is found there is there, and what is free is free. -/
def IsPlace (root : Entry) : Place → Prop
  | .found ps e => root.get? ps = some e
  | .free ps n => ∃ es, root.get? ps = some (.dir es) ∧ Table.find? n es = none

variable {root : Entry} {followLast : Bool}

/-- The element asks for an entry of the directory it is taken in. -/
def Named (c : Text) : Prop := ¬(c = [] ∨ c = ".") ∧ c ≠ ".."

theorem named_of_isName {n : Text} (hn : Path.IsName n) : Named n := ⟨not_or.2 ⟨hn.nonempty, hn.notHere⟩, hn.notUp⟩

section Steps

variable {follow : List Text → List Text → Except Errno Place} {here : List Text} {es : List (Text × Entry)} {c : Text}

theorem descend_stay (hc : c = [] ∨ c = ".") (cs : List Text) :
    descend root followLast follow here (.dir es) (c :: cs) = descend root followLast follow here (.dir es) cs := by
  rw [descend, if_pos hc]

theorem descend_up (hc : c = "..") (cs : List Text) :
    descend root followLast follow here (.dir es) (c :: cs) =
      descend root followLast follow here.dropLast ((root.get? here.dropLast).getD Entry.emptyDir) cs := by
  subst hc
  rw [descend, if_neg (by decide), if_pos rfl]

theorem descend_missing (hc : Named c) (hnone : Table.find? c es = none) {cs : List Text} (hcs : cs ≠ []) :
    descend root followLast follow here (.dir es) (c :: cs) = .error .notFound := by
  rw [descend, if_neg hc.1, if_neg hc.2, hnone]
  exact if_neg (mt List.isEmpty_iff.1 hcs)

theorem descend_throughLink (hc : Named c) {target : Text} (hlink : Table.find? c es = some (.link target))
    {cs : List Text} (hgoes : cs ≠ [] ∨ followLast = true) : descend root followLast follow here (.dir es) (c :: cs) =
      follow (if Path.isAbsolute target then [] else here) (Text.splitOn Path.slash target ++ cs) := by
  have hlast : ¬(cs.isEmpty && !followLast) = true := by
    rw [Bool.and_eq_true, List.isEmpty_iff, Bool.not_eq_true']
    rintro ⟨hnil, hstays⟩
    exact hgoes.elim (absurd hnil) fun htrue => absurd (hstays.symm.trans htrue) (by decide)
  rw [descend, if_neg hc.1, if_neg hc.2, hlink]
  refine (if_neg hlast).trans ?_
  split
  · rfl
  · rfl

theorem descend_down (hc : Named c) {e : Entry} (hfind : Table.find? c es = some e) (he : ∀ target, e ≠ .link target)
    (cs : List Text) : descend root followLast follow here (.dir es) (c :: cs) =
      descend root followLast follow (here ++ [c]) e cs := by
  rw [descend, if_neg hc.1, if_neg hc.2, hfind]
  cases e with
  | link target => exact absurd rfl (he target)
  | _ => rfl

/-- `FirstStep root followLast follow here es c cs r`: a walk that stands at `here`, in a directory with the
entries `es`, comes to `r` by the element `c` and then the elements `cs`. -/
inductive FirstStep (root : Entry) (followLast : Bool) (follow : List Text → List Text → Except Errno Place)
    (here : List Text) (es : List (Text × Entry)) (c : Text) (cs : List Text) : Except Errno Place → Prop
  | stay : c = [] ∨ c = "." →
    FirstStep root followLast follow here es c cs (descend root followLast follow here (.dir es) cs)
  | up : c = ".." → FirstStep root followLast follow here es c cs
      (descend root followLast follow here.dropLast ((root.get? here.dropLast).getD Entry.emptyDir) cs)
  | free : Named c → Table.find? c es = none → cs = [] →
    FirstStep root followLast follow here es c cs (.ok (.free here c))
  | missing : Named c → Table.find? c es = none → cs ≠ [] →
    FirstStep root followLast follow here es c cs (.error .notFound)
  | atLink {target : Text} : Named c → Table.find? c es = some (.link target) → cs = [] → followLast = false →
      FirstStep root followLast follow here es c cs (.ok (.found (here ++ [c]) (.link target)))
  | throughLink {target : Text} : Named c → Table.find? c es = some (.link target) →
      FirstStep root followLast follow here es c cs
        (follow (if Path.isAbsolute target then [] else here) (Text.splitOn Path.slash target ++ cs))
  | down {e : Entry} : Named c → Table.find? c es = some e → (∀ target, e ≠ .link target) →
      FirstStep root followLast follow here es c cs (descend root followLast follow (here ++ [c]) e cs)

/-- Where a walk goes by one element. -/
theorem firstStep (c : Text) (cs : List Text) :
    FirstStep root followLast follow here es c cs (descend root followLast follow here (.dir es) (c :: cs)) := by
  by_cases hstay : c = [] ∨ c = "."
  · exact descend_stay hstay cs ▸ .stay hstay
  by_cases hup : c = ".."
  · exact descend_up hup cs ▸ .up hup
  have hc : Named c := ⟨hstay, hup⟩
  cases hfind : Table.find? c es with
  | none =>
    by_cases hcs : cs = []
    · subst hcs
      rw [descend, if_neg hstay, if_neg hup, hfind]
      exact .free hc hfind rfl
    · exact descend_missing hc hfind hcs ▸ .missing hc hfind hcs
  | some e =>
    cases e with
    | link target =>
      by_cases hgoes : cs ≠ [] ∨ followLast = true
      · exact descend_throughLink hc hfind hgoes ▸ .throughLink hc hfind
      · obtain ⟨hcs, hlast⟩ := not_or.1 hgoes
        obtain rfl := not_not.1 hcs
        rw [Bool.not_eq_true] at hlast
        subst hlast
        rw [descend, if_neg hstay, if_neg hup, hfind]
        exact .atLink hc hfind rfl rfl
    | _ =>
      rw [descend_down hc hfind (by simp)]
      exact .down hc hfind (by simp)

/-- Above a directory of the tree there is one; above the root it is the root. -/
theorem exists_dir_above (he : root.get? here = some (.dir es)) : ∃ fs, root.get? here.dropLast = some (.dir fs) := by
  by_cases hne : here = []
  · subst hne
    exact ⟨es, he⟩
  · exact Entry.get?_dropLast he hne

/-- A link in a directory of the tree is followed from a directory. -/
theorem exists_dir_start (he : root.get? here = some (.dir es)) (target : Text) :
    ∃ fs, root.get? (if Path.isAbsolute target then [] else here) = some (.dir fs) := by
  split
  · exact Entry.exists_dir he
  · exact ⟨es, he⟩

end Steps

theorem descend_isPlace {follow : List Text → List Text → Except Errno Place}
    (hfollow : ∀ {here es cs place}, root.get? here = some (.dir es) → follow here cs = .ok place → IsPlace root place)
    {here : List Text} {e : Entry} (he : root.get? here = some e) {cs : List Text} {place : Place}
    (h : descend root followLast follow here e cs = .ok place) : IsPlace root place := by
  induction cs generalizing here e with
  | nil =>
    rw [descend] at h
    cases h
    exact he
  | cons c cs ih =>
    cases e with
    | dir es =>
      have hget := Entry.get?_concat he c
      have hstep : FirstStep root followLast follow here es c cs _ := firstStep c cs
      generalize descend root followLast follow here (.dir es) (c :: cs) = r at h hstep
      cases hstep with
      | stay _ => exact ih he h
      | up _ =>
        obtain ⟨fs, hfs⟩ := exists_dir_above he
        rw [hfs] at h
        exact ih hfs h
      | free _ hnone _ =>
        cases h
        exact ⟨es, he, hnone⟩
      | missing _ _ _ => cases h
      | atLink _ hlink _ _ =>
        cases h
        exact hget.trans hlink
      | throughLink _ _ =>
        obtain ⟨fs, hfs⟩ := exists_dir_start he _
        exact hfollow hfs h
      | down _ hfind _ => exact ih (hget.trans hfind) h
    | _ => cases h

theorem walk_isPlace {links : Nat} {here : List Text} {es : List (Text × Entry)} (he : root.get? here = some (.dir es))
    {cs : List Text} {place : Place} (h : walk root followLast links here cs = .ok place) : IsPlace root place := by
  induction links generalizing here es cs place with
  | zero =>
    rw [walk, he] at h
    exact descend_isPlace (fun _ h => by cases h) he h
  | succ links ih =>
    rw [walk, he] at h
    exact descend_isPlace (fun he h => ih he h) he h

/-- What a walk comes to by one more name, from what it comes to without. At a link the last name ends
the walk only if it is not followed. -/
def EndsWith (followLast : Bool) (n : Text) : (without with_ : Except Errno Place) → Prop
  | .ok (.found ps (.dir es)), r =>
    match Table.find? n es with
    | none => r = .ok (.free ps n)
    | some (.link target) => followLast = false → r = .ok (.found (ps ++ [n]) (.link target))
    | some e => r = .ok (.found (ps ++ [n]) e)
  | .ok (.found _ _), r => r = .error .notDirectory
  | .ok (.free _ _), r => r = .error .notFound
  | .error errno, r => r = .error errno

theorem descend_concat {n : Text} (hn : Path.IsName n) {follow follow' : List Text → List Text → Except Errno Place}
    (hfollow : ∀ here cs, EndsWith followLast n (follow here cs) (follow' here (cs ++ [n]))) (here : List Text)
    (e : Entry) (cs : List Text) :
    EndsWith followLast n (descend root true follow here e cs)
    (descend root followLast follow' here e (cs ++ [n])) := by
  induction cs generalizing here e with
  | nil =>
    rw [List.nil_append, descend]
    cases e with
    | dir es =>
      rw [descend, if_neg (named_of_isName hn).1, if_neg hn.notUp, EndsWith]
      cases hfind : Table.find? n es with
      | none => rfl
      | some d =>
        cases d with
        | link target =>
          intro hlast
          simp [hlast]
        | _ => rfl
    | _ => rfl
  | cons c cs ih =>
    have hmore : cs ++ [n] ≠ [] := by simp
    rw [List.cons_append]
    cases e with
    | dir es =>
      have hstep : FirstStep root true follow here es c cs _ := firstStep c cs
      generalize descend root true follow here (.dir es) (c :: cs) = r at hstep
      cases hstep with
      | stay hc => rw [descend_stay hc]; exact ih _ _
      | up hc => rw [descend_up hc]; exact ih _ _
      | free hc hnone _ => exact descend_missing hc hnone hmore
      | missing hc hnone _ => exact descend_missing hc hnone hmore
      | atLink _ _ _ hlast => cases hlast
      | throughLink hc hlink =>
        rw [descend_throughLink hc hlink (.inl hmore), ← List.append_assoc]
        exact hfollow _ _
      | down hc hfind he => rw [descend_down hc hfind he]; exact ih _ _
    | _ => exact rfl

/-- One more name at the end of a walk. -/
theorem walk_concat {n : Text} (hn : Path.IsName n) (links : Nat) (here cs : List Text) :
    EndsWith followLast n (walk root true links here cs) (walk root followLast links here (cs ++ [n])) := by
  induction links generalizing here cs with
  | zero => exact descend_concat hn (fun _ _ => by rw [EndsWith]) _ _ _
  | succ links ih => exact descend_concat hn ih _ _ _

theorem descend_within {old new : Entry} (hw : Entry.Within new old)
    {follow follow' : List Text → List Text → Except Errno Place}
    (hfollow : ∀ {here cs es fs ps gs}, new.get? here = some (.dir es) → old.get? here = some (.dir fs) →
      follow here cs = .ok (.found ps (.dir gs)) → ∃ gs', follow' here cs = .ok (.found ps (.dir gs')))
    {here : List Text} {es fs : List (Text × Entry)} (hnew : new.get? here = some (.dir es))
    (hold : old.get? here = some (.dir fs)) {cs ps : List Text} {gs : List (Text × Entry)}
    (h : descend new true follow here (.dir es) cs = .ok (.found ps (.dir gs))) :
    ∃ gs', descend old true follow' here (.dir fs) cs = .ok (.found ps (.dir gs')) := by
  induction cs generalizing here es fs with
  | nil =>
    rw [descend] at h ⊢
    cases h
    exact ⟨fs, rfl⟩
  | cons c cs ih =>
    have hgetNew := Entry.get?_concat hnew c
    have hgetOld := Entry.get?_concat hold c
    have hstep : FirstStep new true follow here es c cs _ := firstStep c cs
    generalize descend new true follow here (.dir es) (c :: cs) = r at h hstep
    cases hstep with
    | stay hc =>
      rw [descend_stay hc]
      exact ih hnew hold h
    | up hc =>
      obtain ⟨es', hes'⟩ := exists_dir_above hnew
      obtain ⟨fs', hfs'⟩ := hw.dirs _ _ hes'
      rw [hes'] at h
      rw [descend_up hc, hfs']
      exact ih hes' hfs' h
    | free _ _ _ => cases h
    | missing _ _ _ => cases h
    | atLink _ _ _ _ => cases h
    | @throughLink target hc hlink =>
      obtain ⟨es', hes'⟩ := exists_dir_start hnew target
      obtain ⟨fs', hfs'⟩ := hw.dirs _ _ hes'
      rw [descend_throughLink hc (hgetOld.symm.trans (hw.links _ _ (hgetNew.trans hlink))) (.inr rfl)]
      exact hfollow hes' hfs' h
    | @down e hc hfind he =>
      cases e with
      | dir es' =>
        obtain ⟨fs', hfs'⟩ := hw.dirs _ _ (hgetNew.trans hfind)
        rw [descend_down hc (hgetOld.symm.trans hfs') (by simp)]
        exact ih (hgetNew.trans hfind) hfs' h
      -- a walk does not end in a directory once it has come to something else
      | _ => cases cs <;> simp [descend] at h

/-- A path that leads to a directory of the new tree led to the same directory of the old one. -/
theorem walk_within {old new : Entry} (hw : Entry.Within new old) {links : Nat} {here : List Text}
    {es fs : List (Text × Entry)} (hnew : new.get? here = some (.dir es)) (hold : old.get? here = some (.dir fs))
    {cs ps : List Text} {gs : List (Text × Entry)} (h : walk new true links here cs = .ok (.found ps (.dir gs))) :
    ∃ gs', walk old true links here cs = .ok (.found ps (.dir gs')) := by
  induction links generalizing here es fs cs ps gs with
  | zero =>
    rw [walk, hnew] at h
    rw [walk, hold]
    exact descend_within hw (fun _ _ h => by cases h) hnew hold h
  | succ links ih =>
    rw [walk, hnew] at h
    rw [walk, hold]
    exact descend_within hw (fun hnew hold h => ih hnew hold h) hnew hold h

/-! ## Disks -/

/-- The working directory is there. -/
def IsHere (d : Disk) : Prop := ∃ es, d.root.get? (Path.elements d.cwd) = some (.dir es)

/-- A disk as a system keeps it: names in order, each once, and a working directory that is there. -/
structure Orderly (d : Disk) : Prop where
  tree : d.root.Orderly
  cwd : Path.isAbsolute d.cwd = true
  here : d.IsHere

/-- Where a path starts. -/
def startOf (d : Disk) (path : Text) : List Text := if Path.isAbsolute path then [] else Path.elements d.cwd

variable {d : Disk}

theorem exists_start (hd : d.IsHere) (path : Text) :
    ∃ es, d.root.get? (d.startOf path) = some (.dir es) := by
  obtain ⟨es, hes⟩ := hd
  unfold startOf
  split
  · exact Entry.exists_dir hes
  · exact ⟨es, hes⟩

theorem resolve_isPlace (hd : d.IsHere) {path : Text} {place : Place} (h : d.resolve followLast path = .ok place) :
    IsPlace d.root place := by
  obtain ⟨es, hes⟩ := exists_start hd path
  unfold resolve at h
  split at h
  · cases h
  · exact walk_isPlace hes h

/-- What a path leads to is an entry of the tree. -/
theorem exists_get?_of_entry (hd : d.Orderly) {op path : Text} {e : Entry} (h : d.entry followLast op path = .ok e) :
    ∃ ps, d.root.get? ps = some e := by
  unfold entry at h
  split at h
  · rename_i ps f hresolve
    cases h
    exact ⟨ps, resolve_isPlace hd.here hresolve⟩
  · cases h
  · cases h

end Disk

end DocAtlas

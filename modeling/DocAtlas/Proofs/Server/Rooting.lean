/-
The sources a server reads lie below its root. The root is an absolute path in its shortest form, and the
argument of a call may be any text: relative or absolute, with repeated slashes, with `.`, with `..` that
climb out and come back, with names that begin with dots.

Whether a path is below the root is decided by names alone, while the file is read by the path as it was
given. On a disk without links the two agree: a walk that comes to an entry comes to the one that the cleaned
path names. So what is read is a file below the root, the path told of it leads to it and to no other, and
every file below the root can be asked for by that path and by its absolute one.
-/
import DocAtlas.Proofs.Files.Resolving
import DocAtlas.Server.Session
import Mathlib.Data.List.TakeWhile

namespace DocAtlas

/-! ## Walking down an absolute path -/

namespace Disk

variable {root : Entry} {followLast : Bool}

/-- Where a walk through a tree without links ends is where the elements lead by their names. -/
theorem descend_found (hroot : root.isPlain = true) {follow : List Text → List Text → Except Errno Place}
    {here at_ : List Text} {e f : Entry} (he : root.get? here = some e) {cs : List Text}
    (h : descend root followLast follow here e cs = .ok (.found at_ f)) :
    at_.reverse = (cs.filter fun c => !c.isEmpty).foldl (Path.pushElement true) here.reverse ∧
      root.get? at_ = some f := by
  induction cs generalizing here e with
  | nil =>
    rw [descend] at h
    cases h
    exact ⟨rfl, he⟩
  | cons c cs ih =>
    cases e with
    | dir es =>
      obtain ⟨hplain, hnames⟩ := Entry.isPlain_of_get? hroot he
      have hget := Entry.get?_concat he c
      have hstep : FirstStep root followLast follow here es c cs _ := firstStep c cs
      generalize descend root followLast follow here (.dir es) (c :: cs) = r at h hstep
      -- an element that is empty is no element of the path, and `.` leaves what was pushed as it is
      have hpush : ¬(c = [] ∨ c = ".") → ((c :: cs).filter fun c => !c.isEmpty) = c :: cs.filter fun c => !c.isEmpty :=
        fun hc => List.filter_cons_of_pos (by simpa using (not_or.1 hc).1)
      cases hstep with
      | stay hc =>
        obtain ⟨hat, hf⟩ := ih he h
        refine ⟨hat.trans ?_, hf⟩
        rcases hc with rfl | rfl
        · rfl
        · rfl
      | up hup =>
        obtain ⟨fs, hfs⟩ := exists_dir_above he
        rw [hfs] at h
        rw [hpush (hup ▸ by decide), List.foldl_cons, hup,
          Path.pushElement_up fun d hd => hnames d (List.mem_reverse.1 hd), List.tail_reverse]
        exact ih hfs h
      | free _ _ _ => cases h
      | missing _ _ _ => cases h
      | atLink _ hlink _ _ => cases (Entry.isPlain_of_find? hplain hlink).2
      | throughLink _ hlink => cases (Entry.isPlain_of_find? hplain hlink).2
      | down hname hfind _ =>
        rw [hpush hname.1, List.foldl_cons, Path.pushElement_name (Entry.isPlain_of_find? hplain hfind).1]
        simpa using ih (hget.trans hfind) h
    | _ => cases h

/-- On a disk without links an absolute path leads nowhere but where its names do. -/
theorem resolve_found {d : Disk} (hd : d.Plain) {path : Text} (habs : Path.isAbsolute path = true) {at_ : List Text}
    {e : Entry} (h : d.resolve followLast path = .ok (.found at_ e)) :
    at_ = Path.cleaned path ∧ d.root.get? at_ = some e := by
  unfold resolve at h
  rw [if_pos habs] at h
  split at h
  · cases h
  · simp only [maxLinks, walk, Entry.get?_nil, Option.getD_some] at h
    obtain ⟨hat, he⟩ := descend_found hd.noLinks (Entry.get?_nil _) h
    refine ⟨?_, he⟩
    unfold Path.cleaned
    rw [habs, ← List.reverse_reverse at_, hat]
    rfl

theorem readFile_eq_ok {d : Disk} {path src : Text} (h : d.readFile path = .ok src) :
    ∃ at_ mode, d.resolve true path = .ok (.found at_ (.file src mode)) := by
  unfold readFile entry at h
  split at h
  · cases h
  · rename_i hentry
    cases h
    split at hentry
    · rename_i at_ e hresolve
      cases hentry
      exact ⟨at_, _, hresolve⟩
    · cases hentry
    · cases hentry
  · cases h

end Disk

/-! ## Places below a root -/

namespace Path

theorem rooted_cleaned {root : Text} (habs : isAbsolute root = true) (hclean : clean root = root) :
    rooted (cleaned root) = root := by
  conv_rhs => rw [← hclean, clean_eq_spelled, habs]
  rfl

/-- The path told of a place leads back to it. -/
theorem join_spelled {root : Text} (habs : isAbsolute root = true) (hclean : clean root = root) {ns : List Text}
    (hns : ∀ n ∈ ns, IsName n) : join [root, spelled false ns] = rooted (cleaned root ++ ns) := by
  by_cases hnil : ns = []
  · subst hnil
    obtain ⟨b, t, rfl⟩ := List.exists_cons_of_ne_nil (show root ≠ [] by rintro rfl; simp [isAbsolute] at habs)
    have hjoin : join [b :: t, spelled false []] = clean ((b :: t) ++ slash :: ".") := by
      change clean (Text.joinWith [slash] [b :: t, "."]) = _
      simp [Text.joinWith]
    have hcleaned : cleaned ((b :: t) ++ slash :: ".") = cleaned (b :: t) := by
      unfold cleaned cleanElements
      rw [elements_append, show elements "." = [Text.ofString "."] by decide, List.foldl_append]
      rfl
    rw [hjoin, clean_eq_spelled, hcleaned, List.append_nil]
    exact congrArg (spelled · (cleaned (b :: t))) habs
  · rw [spelled_of_ne_nil hnil]
    conv_lhs => rw [← rooted_cleaned habs hclean]
    exact join_rooted (isName_cleaned habs) hns hnil

end Path

namespace Grammar

/-- The extension of a path is that of its last name. -/
theorem extension_append (x : Text) {n : Text} (hn : Path.slash ∉ n) :
    extension (x ++ Path.slash :: n) = extension n := by
  have hbytes : ∀ b ∈ n.reverse, (b != 47) = true := fun b hb => by
    rw [bne_iff_ne]
    rintro rfl
    exact hn (List.mem_reverse.1 hb)
  have hlong : (x ++ Path.slash :: n).reverse.takeWhile (· != 47) = n.reverse := by
    rw [List.reverse_append, List.reverse_cons, List.append_assoc, List.takeWhile_append_of_pos hbytes]
    simp [Path.slash]
  have hshort : n.reverse.takeWhile (· != 47) = n.reverse := List.takeWhile_eq_self_iff.2 hbytes
  unfold extension
  rw [hlong, hshort]

/-- A path below a root calls for the grammar that the way from the root calls for. -/
theorem supports_rooted (es : List Text) {ns : List Text} (hne : ns ≠ []) (hns : ∀ n ∈ ns, Path.IsName n) :
    supports (Path.rooted (es ++ ns)) = supports (Text.joinWith [Path.slash] ns) := by
  obtain ⟨ms, n, rfl⟩ := List.eq_nil_or_concat ns |>.resolve_left hne
  have hn : Path.slash ∉ n := (hns n (by simp)).noSlash
  -- both paths end in a slash and the last name, or are that name
  have hlong : ∀ fs : List Text, extension (Path.rooted (fs ++ [n])) = extension n := by
    intro fs
    by_cases hfs : fs = []
    · subst hfs
      exact extension_append [] hn
    · unfold Path.rooted
      rw [Path.joinWith_concat hfs, ← List.cons_append]
      exact extension_append _ hn
  have hshort : extension (Text.joinWith [Path.slash] (ms ++ [n])) = extension n := by
    by_cases hms : ms = []
    · subst hms
      rfl
    · rw [Path.joinWith_concat hms]
      exact extension_append _ hn
  unfold supports ofPath?
  rw [List.concat_eq_append, ← List.append_assoc, hlong, hshort]

end Grammar

/-! ## What is read -/

namespace Server

variable {d : Disk} {root : Text} {args : Arguments}

/-- The path a file is read by. -/
def pathOf (root file : Text) : Text := if Path.isAbsolute file then file else Path.join [root, file]

theorem isAbsolute_pathOf (habs : Path.isAbsolute root = true) (file : Text) :
    Path.isAbsolute (pathOf root file) = true := by
  unfold pathOf
  by_cases hfile : Path.isAbsolute file = true
  · rw [if_pos hfile]
    exact hfile
  · obtain ⟨es, -, hes⟩ := Path.absolute_eq habs file
    rw [if_neg hfile]
    rw [Path.absolute, if_neg hfile] at hes
    rw [hes]
    exact Path.isAbsolute_rooted es

/-- A file has a place if its path stays below the root by its names. -/
theorem placeOf?_eq_some (habs : Path.isAbsolute root = true) {file path rel : Text} :
    placeOf? root file = some (path, rel) ↔ path = pathOf root file ∧
      ∃ ns, Path.cleaned path = Path.cleaned root ++ ns ∧ rel = Path.spelled false ns := by
  have hpath := isAbsolute_pathOf habs file
  have hnames := Path.isName_cleaned hpath
  have hrelative : Path.relative? root (pathOf root file) =
      Path.relative? root (Path.rooted (Path.cleaned (pathOf root file))) := by
    unfold Path.relative?
    rw [hpath, Path.isAbsolute_rooted, Path.cleaned_rooted hnames]
  have hstays := fun rel => Path.relative?_staysBelow habs hnames rel
  change Option.map _ (Option.filter Path.staysBelow (Path.relative? root (pathOf root file))) = _ ↔ _
  rw [hrelative, Option.map_eq_some_iff]
  constructor
  · rintro ⟨rel', hrel, h⟩
    cases h
    exact ⟨rfl, (hstays rel).1 hrel⟩
  · rintro ⟨rfl, h⟩
    exact ⟨rel, (hstays rel).2 h, rfl⟩

theorem source_eq_ok {src rel : Text} : source d root args = .ok (src, rel) ↔
    ∃ file path, args.text "file" = .ok file ∧ Grammar.supports file = true ∧ placeOf? root file = some (path, rel) ∧
      d.readFile path = .ok src := by
  unfold source
  simp only [bind, Except.bind, throw, throwThe, MonadExceptOf.throw]
  cases hfile : args.text "file" with
  | error e => simp
  | ok file =>
    cases hsup : Grammar.supports file with
    | false => simp [hsup]
    | true =>
      cases hplace : placeOf? root file with
      | none => simp [hsup, hplace]
      | some p =>
        obtain ⟨path, rel'⟩ := p
        cases hread : d.readFile path with
        | error e => simp [hsup, hplace, hread]
        | ok src' => simp [hsup, hplace, hread, pure, Except.pure, and_comm]

/-- What a server has read: the file with these names below the root, by whatever path it was asked for. -/
structure ReadsBelow (d : Disk) (root file src rel : Text) (ps : List Text) : Prop where
  names : ∀ p ∈ ps, Path.IsName p
  file : ∃ mode, d.resolve true (pathOf root file) = .ok (.found (Path.cleaned root ++ ps) (.file src mode))
  reported : rel = Path.spelled false ps
  joined : Path.join [root, rel] = Path.rooted (Path.cleaned root ++ ps)
  again : d.readFile (Path.join [root, rel]) = .ok src
  below : ∀ es, d.root.get? (Path.cleaned root) = some (.dir es) → ps ≠ []

theorem readsBelow (hd : d.Plain) (habs : Path.isAbsolute root = true) (hclean : Path.clean root = root)
    {src rel : Text} (h : source d root args = .ok (src, rel)) :
    ∃ file ps, args.text "file" = .ok file ∧ ReadsBelow d root file src rel ps := by
  obtain ⟨file, path, hfile, -, hplace, hread⟩ := source_eq_ok.1 h
  obtain ⟨rfl, ps, hps, rfl⟩ := (placeOf?_eq_some habs).1 hplace
  have hpath := isAbsolute_pathOf habs file
  have hnames : ∀ p ∈ ps, Path.IsName p := fun p hp =>
    Path.isName_cleaned hpath p (by rw [hps]; exact List.mem_append_right _ hp)
  -- the walk by the path as it was given ends where the names lead
  obtain ⟨at_, mode, hresolve⟩ := Disk.readFile_eq_ok hread
  obtain ⟨rfl, hget⟩ := Disk.resolve_found hd hpath hresolve
  rw [hps] at hget hresolve
  have hjoin := Path.join_spelled habs hclean hnames
  refine ⟨file, ps, hfile, hnames, ⟨mode, hresolve⟩, rfl, hjoin, ?_, ?_⟩
  · rw [hjoin]
    exact Disk.readFile_rooted hd hget
  · rintro es hdir rfl
    rw [List.append_nil, hdir] at hget
    cases hget

/-- A file below the root is read by its path from the root and by its absolute path. -/
theorem source_of_below (hd : d.Plain) (habs : Path.isAbsolute root = true) (hclean : Path.clean root = root)
    {ps : List Text} (hne : ps ≠ []) {src : Text} {mode : Nat}
    (hget : d.root.get? (Path.cleaned root ++ ps) = some (.file src mode))
    (hsup : Grammar.supports (Text.joinWith [Path.slash] ps) = true)
    (hargs : args.text "file" = .ok (Text.joinWith [Path.slash] ps) ∨
      args.text "file" = .ok (Path.rooted (Path.cleaned root ++ ps))) :
    source d root args = .ok (src, Text.joinWith [Path.slash] ps) := by
  have hall := (Entry.isPlain_of_get? hd.noLinks hget).2
  have hps : ∀ p ∈ ps, Path.IsName p := fun p hp => hall p (List.mem_append_right _ hp)
  -- the place, for a file that is read by the path of its names
  have hplaced : ∀ file, pathOf root file = Path.rooted (Path.cleaned root ++ ps) → Grammar.supports file = true →
      args.text "file" = .ok file → source d root args = .ok (src, Text.joinWith [Path.slash] ps) := by
    intro file hpath hsup hfile
    refine source_eq_ok.2 ⟨file, _, hfile, hsup, (placeOf?_eq_some habs).2 ⟨rfl, ps, ?_, ?_⟩, ?_⟩
    · rw [hpath, Path.cleaned_rooted hall]
    · rw [Path.spelled_of_ne_nil hne]
    · rw [hpath]
      exact Disk.readFile_rooted hd hget
  rcases hargs with hfile | hfile
  · refine hplaced _ ?_ hsup hfile
    have hrel := Path.isAbsolute_joinWith fun p hp => ⟨(hps p hp).nonempty, (hps p hp).noSlash⟩
    unfold pathOf
    rw [hrel, if_neg (by decide), ← Path.spelled_of_ne_nil hne]
    exact Path.join_spelled habs hclean hps
  · refine hplaced _ ?_ ?_ hfile
    · exact if_pos (Path.isAbsolute_rooted _)
    · rw [Grammar.supports_rooted _ hne hps]
      exact hsup

/-! ## What is answered -/

/-- What the tools about sources answer from a source and its path below the root. -/
def answerFrom (gs : Grammars) (s : Server) (tool : Tool) (src rel : Text) : Except Fault ToolAnswer :=
  match (annotate gs s.parsers s.settings.options rel src).1 with
  | .ok found =>
    if tool = .listComponents then .ok (right (componentList rel found).pretty) else preview rel src found
  | .error f => .ok (notDocumented rel f)

theorem answer_of_source (gs : Grammars) (d : Disk) (s : Server) (args : Arguments) {tool : Tool}
    (ht : tool = .listComponents ∨ tool = .previewDocs) :
    (s.answer gs d tool args).1 =
      match source d s.settings.root args with
      | .error e => .ok (wrong e)
      | .ok (src, rel) => answerFrom gs s tool src rel := by
  rcases ht with rfl | rfl
  · unfold answer aboutSource answerFrom
    cases source d s.settings.root args with
    | error e => rfl
    | ok p => rcases annotate gs s.parsers s.settings.options p.2 p.1 with ⟨_ | _, _⟩ <;> rfl
  · unfold answer aboutSource answerFrom
    cases source d s.settings.root args with
    | error e => rfl
    | ok p => rcases annotate gs s.parsers s.settings.options p.2 p.1 with ⟨_ | _, _⟩ <;> rfl

/-- The files a server reads lie below its root. The tools about sources refuse, or answer from one file
below the root and from the path that leads to it from there; and every file below the root that can be
parsed is read by that path and by its absolute one. -/
theorem reads_below_root (hd : d.Plain) (habs : Path.isAbsolute root = true) (hclean : Path.clean root = root) :
    (∀ gs (s : Server) tool args, s.settings.root = root → tool = .listComponents ∨ tool = .previewDocs →
      (∃ e, source d root args = .error e ∧ (s.answer gs d tool args).1 = .ok (wrong e)) ∨
        ∃ file src rel ps, args.text "file" = .ok file ∧ source d root args = .ok (src, rel) ∧
          ReadsBelow d root file src rel ps ∧ (s.answer gs d tool args).1 = answerFrom gs s tool src rel) ∧
    ∀ ps src mode, ps ≠ [] → d.root.get? (Path.cleaned root ++ ps) = some (.file src mode) →
      Grammar.supports (Text.joinWith [Path.slash] ps) = true → ∀ args : Arguments,
        args.text "file" = .ok (Text.joinWith [Path.slash] ps) ∨
          args.text "file" = .ok (Path.rooted (Path.cleaned root ++ ps)) →
        source d root args = .ok (src, Text.joinWith [Path.slash] ps) := by
  refine ⟨fun gs s tool args hroot ht => ?_, fun ps src mode hne hget hsup args =>
    source_of_below hd habs hclean hne hget hsup⟩
  have hanswer := answer_of_source gs d s args ht
  rw [hroot] at hanswer
  cases hsource : source d root args with
  | error e =>
    rw [hsource] at hanswer
    exact .inl ⟨e, rfl, hanswer⟩
  | ok p =>
    rw [hsource] at hanswer
    obtain ⟨file, ps, hfile, hreads⟩ := readsBelow hd habs hclean hsource
    exact .inr ⟨file, p.1, p.2, ps, hfile, rfl, hreads, hanswer⟩

/-! ## A path that climbs out and comes back -/

/-- A project at `/p` with a directory whose name begins with two dots, and a directory beside it. -/
def dotted : Disk where
  root := .dir [("p", .dir [("..a", .dir [("b.js", .file "let b;" 0o644)])]), ("q", .dir [])]
  cwd := "/"

def dottedServer : Server := start ⟨"/p", "/p/facts", ⟨defaultWrappers, none, false⟩⟩ (.fresh 1) none

/-- The file is found by its path from the root, and by a path that leaves the root and comes back. -/
theorem dotted_reads_below : dotted.Plain ∧ Path.isAbsolute "/p" = true ∧ Path.clean "/p" = "/p" ∧
    source dotted "/p" [("file", .str "..a/b.js")] = .ok ("let b;", "..a/b.js") ∧
    ∃ src rel ps, source dotted "/p" [("file", .str "/q/../p//..a/./../..a/b.js")] = .ok (src, rel) ∧
      rel = "..a/b.js" ∧ ReadsBelow dotted "/p" "/q/../p//..a/./../..a/b.js" src rel ps := by
  have hd : dotted.Plain := by decide +kernel
  have habs : Path.isAbsolute "/p" = true := by decide +kernel
  have hclean : Path.clean "/p" = "/p" := by decide +kernel
  have hread : source dotted "/p" [("file", .str "/q/../p//..a/./../..a/b.js")] = .ok ("let b;", "..a/b.js") := by
    rfl
  obtain ⟨htools, hbelow⟩ := reads_below_root hd habs hclean
  refine ⟨hd, habs, hclean, ?_, ?_⟩
  · exact hbelow ["..a", "b.js"] "let b;" 0o644 (by decide) rfl (by decide +kernel) _ (.inl rfl)
  · obtain ⟨e, he, -⟩ | ⟨file, src, rel, ps, hfile, hsource, hreads, -⟩ :=
      htools (fun _ _ => none) dottedServer .listComponents [("file", .str "/q/../p//..a/./../..a/b.js")] rfl (.inl rfl)
    · rw [hread] at he
      cases he
    · cases hfile
      obtain ⟨-, rfl⟩ := Prod.mk.inj (Except.ok.inj (hread.symm.trans hsource))
      exact ⟨src, _, ps, hsource, rfl, hreads⟩

end Server

end DocAtlas

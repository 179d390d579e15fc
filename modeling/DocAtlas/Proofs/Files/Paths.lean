/-
Absolute paths as lists of names. A cleaned absolute path is a slash and its names with slashes
between them, and for such paths cleaning, joining and relating are the operations on the lists of
names: keeping, appending, and taking away a common beginning.
-/
import DocAtlas.Files.Path
import DocAtlas.Proofs.Text.Pieces

namespace DocAtlas.Path

/-- What can be the name of an entry of a directory. -/
structure IsName (e : Text) : Prop where
  nonempty : e ≠ []
  noSlash : slash ∉ e
  notHere : e ≠ "."
  notUp : e ≠ ".."

instance (e : Text) : Decidable (IsName e) :=
  decidable_of_iff (e ≠ [] ∧ slash ∉ e ∧ e ≠ "." ∧ e ≠ "..")
    ⟨fun h => ⟨h.1, h.2.1, h.2.2.1, h.2.2.2⟩, fun h => ⟨h.1, h.2, h.3, h.4⟩⟩

/-- The absolute path of a list of names. -/
def rooted (es : List Text) : Text := slash :: Text.joinWith [slash] es

/-! ## Elements -/

theorem elements_append (p q : Text) : elements (p ++ slash :: q) = elements p ++ elements q := by
  unfold elements
  rw [Text.splitOn_append, List.filter_append]

theorem elements_joinWith_of_parts {es : List Text} (h : ∀ e ∈ es, e ≠ [] ∧ slash ∉ e) :
    elements (Text.joinWith [slash] es) = es := by
  cases es with
  | nil => rfl
  | cons e es =>
    unfold elements
    rw [Text.splitOn_joinWith (by simp) fun e he => (h e he).2, List.filter_eq_self]
    intro e he
    simpa using (h e he).1

theorem elements_joinWith {es : List Text} (h : ∀ e ∈ es, IsName e) : elements (Text.joinWith [slash] es) = es :=
  elements_joinWith_of_parts fun e he => ⟨(h e he).nonempty, (h e he).noSlash⟩

theorem parts_of_elements {p e : Text} (he : e ∈ elements p) : e ≠ [] ∧ slash ∉ e := by
  obtain ⟨hm, hne⟩ := List.mem_filter.1 he
  exact ⟨by simpa using hne, Text.not_mem_of_mem_splitOn hm⟩

theorem elements_rooted {es : List Text} (h : ∀ e ∈ es, IsName e) : elements (rooted es) = es := by
  have := elements_append [] (Text.joinWith [slash] es)
  rw [elements_joinWith h] at this
  exact this

theorem splitOn_rooted {es : List Text} (hne : es ≠ []) (h : ∀ e ∈ es, IsName e) :
    Text.splitOn slash (rooted es) = [] :: es := by
  unfold rooted
  rw [Text.splitOn_cons_sep, Text.splitOn_joinWith hne fun e he => (h e he).noSlash]

theorem joinWith_injective {es fs : List Text} (he : ∀ e ∈ es, IsName e) (hf : ∀ e ∈ fs, IsName e)
    (h : Text.joinWith [slash] es = Text.joinWith [slash] fs) : es = fs := by
  rw [← elements_joinWith he, h, elements_joinWith hf]

theorem rooted_injective {es fs : List Text} (he : ∀ e ∈ es, IsName e) (hf : ∀ e ∈ fs, IsName e)
    (h : rooted es = rooted fs) : es = fs := joinWith_injective he hf (List.cons.inj h).2

theorem joinWith_ne_nil {es : List Text} (hne : es ≠ []) (h : ∀ e ∈ es, IsName e) : Text.joinWith [slash] es ≠ [] := by
  intro hnil
  have := elements_joinWith h
  rw [hnil] at this
  exact hne this.symm

theorem joinWith_concat {es : List Text} (hne : es ≠ []) (e : Text) :
    Text.joinWith [slash] (es ++ [e]) = Text.joinWith [slash] es ++ slash :: e :=
  Text.joinWith_append hne (List.cons_ne_nil e [])

/-! ## Cleaning -/

theorem pushElement_name {e : Text} (he : IsName e) (rooted : Bool) (done : List Text) :
    pushElement rooted done e = e :: done := by
  unfold pushElement
  rw [if_neg he.notHere, if_neg he.notUp]

/-- Going up takes the last name away. -/
theorem pushElement_up {done : List Text} (h : ∀ d ∈ done, IsName d) : pushElement true done ".." = done.tail := by
  cases done with
  | nil => rfl
  | cons d rest =>
    unfold pushElement
    rw [if_neg (by decide), if_pos rfl]
    exact if_neg (h d (List.mem_cons_self ..)).notUp

theorem cleanElements_names {es : List Text} (h : ∀ e ∈ es, IsName e) (rooted : Bool) :
    cleanElements rooted es = es.reverse := by
  have hfold : ∀ done, es.foldl (pushElement rooted) done = es.reverse ++ done := by
    induction es with
    | nil => simp
    | cons e es ih =>
      intro done
      rw [List.foldl_cons, pushElement_name (h e (List.mem_cons_self ..)),
        ih (fun d hd => h d (List.mem_cons_of_mem _ hd))]
      simp
  unfold cleanElements
  rw [hfold, List.append_nil]

theorem isName_pushElement {done : List Text} {e : Text} (hdone : ∀ d ∈ done, IsName d) (he : e ≠ []) (hs : slash ∉ e) :
    ∀ d ∈ pushElement true done e, IsName d := by
  unfold pushElement
  split
  · exact hdone
  · rename_i h1
    split
    · split
      · simp
      · rename_i d rest
        obtain ⟨hd, hrest⟩ := List.forall_mem_cons.1 hdone
        rw [if_neg hd.notUp]
        exact hrest
    · rename_i h2
      exact List.forall_mem_cons.2 ⟨⟨he, hs, h1, h2⟩, hdone⟩

/-- Cleaning an absolute path leaves names only. -/
theorem isName_cleanElements (p : Text) : ∀ e ∈ cleanElements true (elements p), IsName e := by
  have hfold : ∀ (es done : List Text), (∀ e ∈ es, e ≠ [] ∧ slash ∉ e) → (∀ d ∈ done, IsName d) →
      ∀ e ∈ es.foldl (pushElement true) done, IsName e := by
    intro es
    induction es with
    | nil => intro done _ hdone; exact hdone
    | cons e es ih =>
      intro done hes hdone
      obtain ⟨⟨hne, hs⟩, hes⟩ := List.forall_mem_cons.1 hes
      exact ih _ hes (isName_pushElement hdone hne hs)
  exact hfold _ [] (fun _ => parts_of_elements) (by simp)

theorem mem_pushElement {rooted : Bool} {done : List Text} {e d : Text} (h : d ∈ pushElement rooted done e) :
    d ∈ done ∨ d = e ∧ e ≠ "." := by
  unfold pushElement at h
  split at h
  · exact .inl h
  · rename_i he
    have hcons : d ∈ e :: done → d ∈ done ∨ d = e ∧ e ≠ "." := fun h =>
      (List.mem_cons.1 h).elim (fun h => .inr ⟨h, he⟩) .inl
    split at h
    · split at h
      · split at h
        · cases h
        · exact hcons h
      · split at h
        · exact hcons h
        · exact .inl (List.mem_cons_of_mem _ h)
    · exact hcons h

/-- Cleaning leaves parts of the path, and takes every `.` away. -/
theorem mem_cleanElements {rooted : Bool} {es : List Text} {e : Text} (h : e ∈ cleanElements rooted es) :
    e ∈ es ∧ e ≠ "." := by
  have hfold : ∀ (es done : List Text), e ∈ es.foldl (pushElement rooted) done → e ∈ done ∨ e ∈ es ∧ e ≠ "." := by
    intro es
    induction es with
    | nil => exact fun done h => .inl h
    | cons c es ih =>
      intro done h
      rcases ih _ h with h | ⟨h, hne⟩
      · exact (mem_pushElement h).imp_right fun ⟨heq, hne⟩ => ⟨heq ▸ List.mem_cons_self .., heq ▸ hne⟩
      · exact .inr ⟨List.mem_cons_of_mem _ h, hne⟩
  exact (hfold es [] h).resolve_left List.not_mem_nil

/-- A cleaned path does not start with a `.` and a slash. -/
theorem trimPrefix_clean (p : Text) : Text.trimPrefix "./" (clean p) = clean p := by
  have hnone : Text.dropPrefix? "./" (clean p) = none := by
    rw [Option.eq_none_iff_forall_ne_some]
    intro u hu
    have hclean : clean p = Text.ofString "." ++ slash :: u := (Text.dropPrefix?_eq_some.1 hu).trans rfl
    have hparts : ∀ e ∈ (cleanElements (isAbsolute p) (elements p)).reverse, e ≠ [] ∧ slash ∉ e := fun e he =>
      parts_of_elements (mem_cleanElements (List.mem_reverse.1 he)).1
    have helements := elements_joinWith_of_parts hparts
    unfold clean at hclean
    simp only at hclean
    split at hclean
    · exact absurd (List.cons.inj hclean).1 (by decide)
    · split at hclean
      · exact absurd (congrArg List.length hclean) (by simp)
      · rw [hclean, elements_append] at helements
        have hdot : Text.ofString "." ∈ (cleanElements (isAbsolute p) (elements p)).reverse := by
          rw [← helements]
          exact List.mem_append_left _ (by decide)
        exact (mem_cleanElements (List.mem_reverse.1 hdot)).2 rfl
  unfold Text.trimPrefix
  rw [hnone]
  rfl

theorem clean_of_absolute {p : Text} (h : isAbsolute p = true) :
    clean p = rooted (cleanElements true (elements p)).reverse := by
  unfold clean
  simp only [h, if_true]
  rfl

@[simp] theorem isAbsolute_rooted (es : List Text) : isAbsolute (rooted es) = true := by simp [isAbsolute, rooted]

/-- Seen from an absolute working directory every path is the absolute path of some names. -/
theorem absolute_eq {cwd : Text} (hcwd : isAbsolute cwd = true) (p : Text) :
    ∃ es, (∀ e ∈ es, IsName e) ∧ absolute cwd p = rooted es := by
  have hclean : ∀ q, isAbsolute q = true → ∃ es, (∀ e ∈ es, IsName e) ∧ clean q = rooted es := fun q hq =>
    ⟨_, fun e he => isName_cleanElements q e (List.mem_reverse.1 he), clean_of_absolute hq⟩
  have hne : cwd ≠ [] := by rintro rfl; simp [isAbsolute] at hcwd
  unfold absolute
  split
  · rename_i hp
    exact hclean p hp
  · by_cases hp : p = []
    · have : join [cwd, p] = clean cwd := by simp [join, hp, hne, Text.joinWith]
      rw [this]
      exact hclean cwd hcwd
    · have : join [cwd, p] = clean (cwd ++ [slash] ++ p) := by simp [join, hp, hne, Text.joinWith]
      rw [this]
      refine hclean _ ?_
      cases cwd with
      | nil => exact absurd rfl hne
      | cons b cwd => exact hcwd

/-- Joining appends the names. -/
theorem join_rooted {es ns : List Text} (hes : ∀ e ∈ es, IsName e) (hns : ∀ e ∈ ns, IsName e) (hne : ns ≠ []) :
    join [rooted es, Text.joinWith [slash] ns] = rooted (es ++ ns) := by
  have hjoin : join [rooted es, Text.joinWith [slash] ns] = clean (rooted es ++ slash :: Text.joinWith [slash] ns) := by
    have h1 : rooted es ≠ [] := by simp [rooted]
    simp [join, h1, joinWith_ne_nil hne hns, Text.joinWith]
  have hall : ∀ e ∈ es ++ ns, IsName e := by
    intro e he
    rcases List.mem_append.1 he with he | he
    · exact hes e he
    · exact hns e he
  have habs : isAbsolute (rooted es ++ slash :: Text.joinWith [slash] ns) = true := by simp [isAbsolute, rooted]
  rw [hjoin, clean_of_absolute habs, elements_append, elements_rooted hes, elements_joinWith hns,
    cleanElements_names hall, List.reverse_reverse]

/-! ## Relating -/

theorem cleaned_rooted {es : List Text} (h : ∀ e ∈ es, IsName e) : cleaned (rooted es) = es := by
  unfold cleaned
  rw [elements_rooted h, cleanElements_names h, List.reverse_reverse]

theorem dropCommon_append (es ns : List Text) : dropCommon es (es ++ ns) = ([], ns) := by
  induction es with
  | nil => cases ns <;> rfl
  | cons e es ih => simp [dropCommon, ih]

/-- The way from a path to one below it is made of the names that follow. -/
theorem relativeTo_rooted {es ns : List Text} (hes : ∀ e ∈ es, IsName e) (hns : ∀ e ∈ ns, IsName e) (hne : ns ≠ []) :
    relativeTo (rooted es) (rooted (es ++ ns)) = Text.joinWith [slash] ns := by
  have hall : ∀ e ∈ es ++ ns, IsName e := by
    intro e he
    rcases List.mem_append.1 he with he | he
    · exact hes e he
    · exact hns e he
  unfold relativeTo relative?
  simp only [isAbsolute_rooted, cleaned_rooted hes, cleaned_rooted hall, dropCommon_append]
  cases ns with
  | nil => exact absurd rfl hne
  | cons n ns => rfl

theorem dropCommon_spec (as bs : List Text) :
    ∃ cs, as = cs ++ (dropCommon as bs).1 ∧ bs = cs ++ (dropCommon as bs).2 := by
  induction as generalizing bs with
  | nil => exact ⟨[], by cases bs <;> exact ⟨rfl, rfl⟩⟩
  | cons a as ih =>
    cases bs with
    | nil => exact ⟨[], rfl, rfl⟩
    | cons b bs =>
      rw [dropCommon]
      split
      · rename_i hab
        obtain ⟨cs, h1, h2⟩ := ih bs
        exact ⟨a :: cs, congrArg (a :: ·) h1, by rw [← hab]; exact congrArg (a :: ·) h2⟩
      · exact ⟨[], rfl, rfl⟩

theorem isName_cleaned {p : Text} (h : isAbsolute p = true) : ∀ e ∈ cleaned p, IsName e := by
  unfold cleaned
  rw [h]
  exact fun e he => isName_cleanElements p e (List.mem_reverse.1 he)

/-- Whether a relative path goes down: it is not its start and does not begin by going up. -/
def goesDown (rel : Text) : Bool :=
  !(rel == ("." : Text) || rel == (".." : Text) || (Text.dropPrefix? "../" rel).isSome)

theorem goesDown_joinWith {ns : List Text} (hns : ∀ n ∈ ns, IsName n) :
    goesDown (Text.joinWith [slash] ns) = true := by
  have helements := elements_joinWith hns
  -- a name that is no name would be one of the elements
  have hno : ∀ (e : Text) (es : List Text), elements (Text.joinWith [slash] ns) = e :: es → e ≠ "." ∧ e ≠ ".." := by
    intro e es h
    have he := hns e (by rw [← helements, h]; exact List.mem_cons_self ..)
    exact ⟨he.notHere, he.notUp⟩
  unfold goesDown
  simp only [Bool.not_eq_true', Bool.or_eq_false_iff, beq_eq_false_iff_ne]
  refine ⟨⟨fun h => ?_, fun h => ?_⟩, ?_⟩
  · exact (hno "." [] (by rw [h]; decide)).1 rfl
  · exact (hno ".." [] (by rw [h]; decide)).2 rfl
  · rw [Option.isSome_eq_false_iff, Option.isNone_iff_eq_none, Option.eq_none_iff_forall_ne_some]
    intro u hu
    have hjoin : Text.joinWith [slash] ns = Text.ofString ".." ++ slash :: u :=
      (Text.dropPrefix?_eq_some.1 hu).trans rfl
    exact (hno ".." (elements u) (by rw [hjoin, elements_append]; rfl)).2 rfl

/-- Whether a relative path does not begin by going up. -/
def staysBelow (rel : Text) : Bool := !(rel == (".." : Text) || (Text.dropPrefix? "../" rel).isSome)

theorem goesDown_eq (rel : Text) : goesDown rel = (rel != ("." : Text) && staysBelow rel) := by
  unfold goesDown staysBelow
  rw [Bool.or_assoc, Bool.not_or]
  rfl

theorem staysBelow_up (es : List Text) : staysBelow (Text.joinWith [slash] (Text.ofString ".." :: es)) = false := by
  cases es with
  | nil => decide
  | cons e es =>
    have hdrop : Text.dropPrefix? "../" (Text.joinWith [slash] (Text.ofString ".." :: e :: es)) =
        some (Text.joinWith [slash] (e :: es)) := by
      rw [Text.dropPrefix?_eq_some, Text.joinWith]
      rfl
    unfold staysBelow
    rw [hdrop]
    simp

/-- Whether a path is that of a directory or of something below it, by their names alone. -/
def IsWithin (dir p : Text) : Prop := cleaned dir <+: cleaned p

instance (dir p : Text) : Decidable (IsWithin dir p) := inferInstanceAs (Decidable (cleaned dir <+: cleaned p))

/-! ## Spelling -/

/-- The path with these elements: from the root, or from the working directory. -/
def spelled (fromRoot : Bool) (es : List Text) : Text :=
  if fromRoot then rooted es else if es.isEmpty then "." else Text.joinWith [slash] es

theorem spelled_of_ne_nil {es : List Text} (h : es ≠ []) : spelled false es = Text.joinWith [slash] es := by
  simp [spelled, h]

/-- The way from an absolute path to another goes up the names they do not share and down the others. -/
theorem relative?_eq {dir : Text} (hdir : isAbsolute dir = true) {ps : List Text} (hps : ∀ p ∈ ps, IsName p) :
    ∃ cs up down, cleaned dir = cs ++ up ∧ ps = cs ++ down ∧
      relative? dir (rooted ps) = some (spelled false (up.map (fun _ => Text.ofString "..") ++ down)) := by
  obtain ⟨cs, hcs, hps'⟩ := dropCommon_spec (cleaned dir) ps
  refine ⟨cs, _, _, hcs, hps', ?_⟩
  -- a name left of the start is not `..` itself
  have hhead : ((dropCommon (cleaned dir) ps).1.head? == some (Text.ofString "..")) = false := by
    cases hup : (dropCommon (cleaned dir) ps).1 with
    | nil => rfl
    | cons u us => simpa using (isName_cleaned hdir u (by rw [hcs, hup]; simp)).notUp
  unfold relative?
  rw [hdir, isAbsolute_rooted, cleaned_rooted hps]
  simp only [bne_self_eq_false, Bool.false_eq_true, if_false, hhead]
  cases (dropCommon (cleaned dir) ps).1.map (fun _ => Text.ofString "..") ++ (dropCommon (cleaned dir) ps).2 <;> rfl

/-- The way down. -/
theorem relative?_append {dir : Text} (hdir : isAbsolute dir = true) {ns : List Text} (hns : ∀ n ∈ ns, IsName n) :
    relative? dir (rooted (cleaned dir ++ ns)) = some (spelled false ns) := by
  have hall : ∀ e ∈ cleaned dir ++ ns, IsName e := fun e he =>
    (List.mem_append.1 he).elim (isName_cleaned hdir e) (hns e)
  unfold relative?
  rw [hdir, isAbsolute_rooted, cleaned_rooted hall, dropCommon_append]
  cases ns <;> rfl

/-- The way from an absolute path stays below it exactly to what is at it or below. -/
theorem relative?_staysBelow {dir : Text} (hdir : isAbsolute dir = true) {ps : List Text} (hps : ∀ p ∈ ps, IsName p)
    (rel : Text) :
    (relative? dir (rooted ps)).filter staysBelow = some rel ↔ ∃ ns, ps = cleaned dir ++ ns ∧
    rel = spelled false ns := by
  constructor
  · intro h
    obtain ⟨cs, up, down, hcs, hps', hrel⟩ := relative?_eq hdir hps
    obtain ⟨h, hstays⟩ := Option.filter_eq_some_iff.1 h
    obtain rfl := Option.some.inj (hrel.symm.trans h)
    cases up with
    | nil => exact ⟨down, by rw [hps', hcs, List.append_nil], rfl⟩
    | cons u us =>
      rw [List.map_cons, List.cons_append, spelled_of_ne_nil (List.cons_ne_nil _ _), staysBelow_up] at hstays
      cases hstays
  · rintro ⟨ns, rfl, rfl⟩
    have hns : ∀ n ∈ ns, IsName n := fun n hn => hps n (List.mem_append_right _ hn)
    refine Option.filter_eq_some_iff.2 ⟨relative?_append hdir hns, ?_⟩
    by_cases hnil : ns = []
    · rw [hnil]; decide
    · have hdown := goesDown_joinWith hns
      rw [goesDown_eq, Bool.and_eq_true] at hdown
      rw [spelled_of_ne_nil hnil]
      exact hdown.2

/-- The way from an absolute path goes down exactly to what is strictly below it. -/
theorem relative?_goesDown {dir : Text} (hdir : isAbsolute dir = true) {ps : List Text} (hps : ∀ p ∈ ps, IsName p)
    (rel : Text) :
    (relative? dir (rooted ps)).filter goesDown = some rel ↔
      ∃ ns, ns ≠ [] ∧ ps = cleaned dir ++ ns ∧ rel = Text.joinWith [slash] ns := by
  have hbelow := relative?_staysBelow hdir hps rel
  rw [Option.filter_eq_some_iff] at hbelow ⊢
  rw [goesDown_eq, Bool.and_eq_true, bne_iff_ne]
  constructor
  · rintro ⟨hrel, hne, hstays⟩
    obtain ⟨ns, hps', rfl⟩ := hbelow.1 ⟨hrel, hstays⟩
    have hnil : ns ≠ [] := by rintro rfl; exact hne rfl
    exact ⟨ns, hnil, hps', spelled_of_ne_nil hnil⟩
  · rintro ⟨ns, hnil, rfl, rfl⟩
    obtain ⟨hrel, hstays⟩ := hbelow.2 ⟨ns, rfl, (spelled_of_ne_nil hnil).symm⟩
    have hdown := goesDown_joinWith fun n (hn : n ∈ ns) => hps n (List.mem_append_right _ hn)
    rw [goesDown_eq, Bool.and_eq_true, bne_iff_ne] at hdown
    exact ⟨hrel, hdown.1, hstays⟩

theorem parts_of_cleaned {p e : Text} (he : e ∈ cleaned p) : e ≠ [] ∧ slash ∉ e :=
  parts_of_elements (mem_cleanElements (List.mem_reverse.1 he)).1

theorem joinWith_eq_nil {es : List Text} (h : ∀ e ∈ es, e ≠ [] ∧ slash ∉ e) :
    Text.joinWith [slash] es = [] ↔ es = [] := by
  constructor
  · intro hnil
    have := elements_joinWith_of_parts h
    rw [hnil] at this
    exact this.symm
  · rintro rfl
    rfl

theorem isAbsolute_joinWith {es : List Text} (h : ∀ e ∈ es, e ≠ [] ∧ slash ∉ e) :
    isAbsolute (Text.joinWith [slash] es) = false := by
  cases es with
  | nil => rfl
  | cons e es =>
    obtain ⟨hne, hslash⟩ := h e (List.mem_cons_self ..)
    obtain ⟨b, e, rfl⟩ := List.exists_cons_of_ne_nil hne
    have hb : b ≠ slash := fun heq => hslash (heq ▸ List.mem_cons_self ..)
    cases es <;> simpa [isAbsolute, Text.joinWith] using hb

theorem clean_eq_spelled (p : Text) : clean p = spelled (isAbsolute p) (cleaned p) := by
  have hnil := joinWith_eq_nil fun e (he : e ∈ cleaned p) => parts_of_cleaned he
  change (if isAbsolute p then slash :: Text.joinWith [slash] (cleaned p) else
    if (Text.joinWith [slash] (cleaned p)).isEmpty then Text.ofString "." else Text.joinWith [slash] (cleaned p)) = _
  simp only [spelled, rooted, List.isEmpty_iff, hnil]

theorem clean_rooted {es : List Text} (h : ∀ e ∈ es, IsName e) : clean (rooted es) = rooted es := by
  rw [clean_eq_spelled, cleaned_rooted h, isAbsolute_rooted]
  rfl

theorem cleaned_append_name {n : Text} (hn : IsName n) {p : Text} (hp : p ≠ []) :
    cleaned (p ++ slash :: n) = cleaned p ++ [n] := by
  have habs : isAbsolute (p ++ slash :: n) = isAbsolute p := by
    cases p with
    | nil => exact absurd rfl hp
    | cons b p => rfl
  have hname : elements n = [n] := elements_joinWith (List.forall_mem_singleton.2 hn)
  unfold cleaned cleanElements
  rw [habs, elements_append, hname, List.foldl_append]
  simp only [List.foldl_cons, List.foldl_nil]
  unfold pushElement
  rw [if_neg hn.notHere, if_neg hn.notUp, List.reverse_cons]

/-- A name in a directory. -/
theorem join_name {n : Text} (hn : IsName n) (dir : Text) :
    join [dir, n] = spelled (isAbsolute dir) (cleaned dir ++ [n]) := by
  cases hdir : dir with
  | nil =>
    have hname : elements n = [n] := elements_joinWith (List.forall_mem_singleton.2 hn)
    have hjoin : join [[], n] = clean n := by simp [join, hn.nonempty, Text.joinWith]
    have habs : isAbsolute n = false := isAbsolute_joinWith (List.forall_mem_singleton.2 ⟨hn.nonempty, hn.noSlash⟩)
    rw [hjoin, clean_eq_spelled, habs]
    unfold cleaned
    rw [hname, habs, cleanElements_names (List.forall_mem_singleton.2 hn)]
    rfl
  | cons b t =>
    have hne : dir ≠ [] := by rw [hdir]; exact List.cons_ne_nil _ _
    rw [← hdir]
    have hjoin : join [dir, n] = clean (dir ++ slash :: n) := by simp [join, hne, hn.nonempty, Text.joinWith]
    have habs : isAbsolute (dir ++ slash :: n) = isAbsolute dir := by rw [hdir]; rfl
    rw [hjoin, clean_eq_spelled, habs, cleaned_append_name hn hne]

end DocAtlas.Path

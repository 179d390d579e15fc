/-
Patterns without wildcards. A text of literal characters stands for itself, so with `/**` after it it
stands for a directory and for all that is below: read as names, for the paths that begin with its own.
-/
import DocAtlas.Proofs.Files.Selection
import DocAtlas.Proofs.Text.Runes

namespace DocAtlas

namespace Glob

/-- Whether a character stands for itself wherever it occurs in a pattern. -/
def isLiteral (c : Char) : Bool := !List.contains ['*', '?', '[', '{', '}', '\\'] c

/-- Whether a text stands for itself. A stray byte does not: it would stand for every other one. -/
structure IsLiteral (t : Text) : Prop where
  plain : Text.IsPlain t
  literal : ∀ c ∈ t.chars, isLiteral c = true

instance (t : Text) : Decidable (IsLiteral t) :=
  decidable_of_iff (Rune.stray ∉ t.chars ∧ t.chars.all isLiteral = true)
    ⟨fun h => ⟨h.1, List.all_eq_true.1 h.2⟩, fun h => ⟨h.plain, List.all_eq_true.2 h.literal⟩⟩

/-- The characters of `/**`. -/
def allBelow : List Char := ['/', '*', '*']

theorem chars_append_allBelow (t : Text) : (t ++ Text.ofString "/**").chars = t.chars ++ allBelow :=
  Text.chars_append (a := Path.slash) (by decide) t (Text.ofString "**")

theorem ne_of_isLiteral {c : Char} (hc : isLiteral c = true) :
    c ≠ '*' ∧ c ≠ '?' ∧ c ≠ '[' ∧ c ≠ '{' ∧ c ≠ '}' ∧ c ≠ '\\' := by
  simpa [isLiteral] using hc

/-! ## Literal characters -/

theorem validWithin_literal {cs : List Char} (hcs : ∀ c ∈ cs, isLiteral c = true) (fuel depth : Nat) (p : List Char) :
    validWithin (cs.length + fuel) depth (cs ++ p) = validWithin fuel depth p := by
  induction cs with
  | nil => rw [List.length_nil, Nat.zero_add, List.nil_append]
  | cons c cs ih =>
    obtain ⟨hc, hcs⟩ := List.forall_mem_cons.1 hcs
    obtain ⟨-, -, hclass, hopen, hclose, hescape⟩ := ne_of_isLiteral hc
    rw [List.length_cons, Nat.add_right_comm, List.cons_append]
    conv => lhs; unfold validWithin
    simp only [if_neg hescape, if_neg hclass, if_neg hopen, if_neg hclose]
    exact ih hcs

/-- Literal characters before `/**` do not stand for nothing. -/
theorem isZeroLength_literal {c : Char} (hc : isLiteral c = true) (fuel : Nat) (cs : List Char) :
    isZeroLength fuel (c :: cs ++ allBelow) = false := by
  obtain ⟨hstar, -, -, hopen, -, -⟩ := ne_of_isLiteral hc
  cases fuel with
  | zero => rfl
  | succ fuel =>
    unfold isZeroLength
    split
    -- what stands for nothing is short, or begins otherwise
    all_goals try (rename_i heq; exact absurd (List.cons.inj heq).1 hstar)
    · rename_i heq; cases heq
    · rename_i heq
      have := congrArg List.length heq
      simp [allBelow] at this
    · rename_i heq
      obtain ⟨-, heq⟩ := List.cons.inj heq
      cases cs with
      | nil => cases heq
      | cons a cs =>
        have := congrArg List.length heq
        simp [allBelow] at this
    · rename_i heq
      exact absurd (List.cons.inj heq).1 hopen
    · rfl

theorem matchWithin_literal {c : Char} (hc : isLiteral c = true) (fuel : Nat) (fresh : Bool) (p : List Char) (d : Char)
    (n : List Char) :
    matchWithin (fuel + 1) fresh (c :: p) (d :: n) = (decide (c = d) && matchWithin fuel (d == '/') p n) := by
  obtain ⟨hstar, hany, hclass, hopen, -, hescape⟩ := ne_of_isLiteral hc
  conv => lhs; unfold matchWithin
  simp only [if_neg hstar, if_neg hany, if_neg hclass, if_neg hopen, if_neg hescape]

/-- Literal characters with `/**` after them stand for themselves, and with a slash and more after them. -/
theorem matchWithin_allBelow {cs : List Char} (hcs : ∀ c ∈ cs, isLiteral c = true) {fuel : Nat}
    (hfuel : cs.length + 2 ≤ fuel) (fresh : Bool) (n : List Char) :
    matchWithin fuel fresh (cs ++ allBelow) n = true ↔ n = cs ∨ ∃ rest, n = cs ++ '/' :: rest := by
  induction cs generalizing fuel fresh n with
  | nil =>
    obtain ⟨fuel, rfl⟩ : ∃ k, fuel = k + 2 := ⟨fuel - 2, by simp at hfuel; omega⟩
    cases n with
    | nil => simp [matchWithin, isZeroLength, allBelow]
    | cons d n =>
      have hslash : isLiteral '/' = true := by decide
      have hrest : ∀ fresh', fresh' = true → matchWithin (fuel + 1) fresh' ['*', '*'] n = true := by
        rintro _ rfl
        cases n <;> simp [matchWithin, isZeroLength]
      rw [List.nil_append, allBelow, matchWithin_literal hslash, Bool.and_eq_true, decide_eq_true_eq]
      constructor
      · rintro ⟨rfl, -⟩
        exact .inr ⟨n, rfl⟩
      · rintro (h | ⟨rest, h⟩)
        · cases h
        · obtain ⟨rfl, -⟩ := List.cons.inj h
          exact ⟨rfl, hrest _ rfl⟩
  | cons c cs ih =>
    obtain ⟨hc, hcs⟩ := List.forall_mem_cons.1 hcs
    obtain ⟨fuel, rfl⟩ : ∃ k, fuel = k + 1 := ⟨fuel - 1, by simp at hfuel; omega⟩
    cases n with
    | nil =>
      rw [matchWithin, isZeroLength_literal hc]
      simp
    | cons d n =>
      rw [List.cons_append, matchWithin_literal hc, Bool.and_eq_true, decide_eq_true_eq,
        ih hcs (by simp at hfuel; omega)]
      simp only [List.cons_append, List.cons.injEq, eq_comm (a := d), ← and_or_left, exists_and_left]

/-! ## Paths -/

theorem isValid_below {t : Text} (ht : IsLiteral t) : isValid (t ++ Text.ofString "/**") = true := by
  unfold isValid
  simp only [chars_append_allBelow]
  have hlength : (t.chars ++ allBelow).length + 1 = t.chars.length + 4 := by rw [List.length_append]; rfl
  rw [hlength, validWithin_literal ht.literal]
  decide

/-- With `/**` after it a literal text stands for itself and for what has it and a slash before it. -/
theorem isMatch_below {t : Text} (ht : IsLiteral t) (path : Text) :
    isMatch (t ++ Text.ofString "/**") path = true ↔ path = t ∨ ∃ u, path = t ++ Path.slash :: u := by
  unfold isMatch
  simp only [chars_append_allBelow]
  rw [matchWithin_allBelow ht.literal (by simp; omega)]
  constructor
  · rintro (h | ⟨cs, h⟩)
    · exact .inl (Text.eq_of_chars ht.plain h.symm).symm
    · exact .inr (Text.exists_eq_append_of_chars ht.plain (a := Path.slash) (by decide) h)
  · rintro (rfl | ⟨u, rfl⟩)
    · exact .inl rfl
    · exact .inr ⟨Text.chars u, Text.chars_append (a := Path.slash) (by decide) t u⟩

variable {os ns : List Text}

/-- What matches has the literal names first, -/
theorem prefix_of_isMatch (hos : ∀ o ∈ os, Path.IsName o) (hlit : IsLiteral (Text.joinWith [Path.slash] os))
    {path : Text} (h : isMatch (Text.joinWith [Path.slash] os ++ Text.ofString "/**") path = true) :
      os <+: Path.elements path := by
  rcases (isMatch_below hlit path).1 h with rfl | ⟨u, rfl⟩
  · rw [Path.elements_joinWith hos]
  · rw [Path.elements_append, Path.elements_joinWith hos]
    exact List.prefix_append _ _

/-- and what has them first matches, also with a slash after it. -/
theorem isMatch_of_prefix (hne : os ≠ []) (hlit : IsLiteral (Text.joinWith [Path.slash] os)) (h : os <+: ns) {s : Text}
    (hs : s = [] ∨ s = [Path.slash]) :
    isMatch (Text.joinWith [Path.slash] os ++ Text.ofString "/**") (Text.joinWith [Path.slash] ns ++ s) = true := by
  rw [isMatch_below hlit]
  obtain ⟨ls, rfl⟩ := h
  by_cases hls : ls = []
  · rw [hls, List.append_nil]
    rcases hs with rfl | rfl
    · exact .inl (List.append_nil _)
    · exact .inr ⟨[], rfl⟩
  · rw [Text.joinWith_append hne hls, List.append_assoc]
    exact .inr ⟨_, rfl⟩

theorem isMatch_names (hos : ∀ o ∈ os, Path.IsName o) (hne : os ≠ []) (hlit : IsLiteral (Text.joinWith [Path.slash] os))
    (hns : ∀ n ∈ ns, Path.IsName n) {s : Text} (hs : s = [] ∨ s = [Path.slash]) :
    isMatch (Text.joinWith [Path.slash] os ++ Text.ofString "/**") (Text.joinWith [Path.slash] ns ++ s) =
      decide (os <+: ns) := by
  have helements : Path.elements (Text.joinWith [Path.slash] ns ++ s) = ns := by
    rcases hs with rfl | rfl
    · rw [List.append_nil, Path.elements_joinWith hns]
    · rw [Path.elements_append, Path.elements_joinWith hns]
      exact List.append_nil ns
  rw [Bool.eq_iff_iff, decide_eq_true_eq]
  constructor
  · intro h
    exact helements ▸ prefix_of_isMatch hos hlit h
  · exact fun h => isMatch_of_prefix hne hlit h hs

end Glob

namespace Discovery

variable {os ns : List Text}

/-- With the names below a literal path excluded, what begins with its names is passed over too. -/
theorem isExcluded_concat (hos : ∀ o ∈ os, Path.IsName o) (hne : os ≠ [])
    (hlit : Glob.IsLiteral (Text.joinWith [Path.slash] os)) (hns : ∀ n ∈ ns, Path.IsName n) (excludes : List Text)
    (rules : List IgnoreRule) (isDir : Bool) :
    isExcluded (excludes ++ [Text.joinWith [Path.slash] os ++ Text.ofString "/**"]) rules
      (Text.joinWith [Path.slash] ns) isDir =
      (isExcluded excludes rules (Text.joinWith [Path.slash] ns) isDir || decide (os <+: ns)) := by
  have hself := Glob.isMatch_names hos hne hlit hns (.inl rfl)
  have hslash : Glob.isMatch (Text.joinWith [Path.slash] os ++ Text.ofString "/**")
      (Text.joinWith [Path.slash] ns ++ Text.ofString "/") = decide (os <+: ns) :=
    Glob.isMatch_names hos hne hlit hns (.inr rfl)
  rw [List.append_nil] at hself
  unfold isExcluded Glob.anyMatch
  simp only [List.any_append, List.any_cons, List.any_nil, Bool.or_false, hself, hslash]
  cases isDir <;> cases decide (os <+: ns) <;> simp

variable {r : DiscoveryRules} {rules : List IgnoreRule}

/-- Excluding them takes from the selection what begins with their names. -/
theorem selects_concat (hos : ∀ o ∈ os, Path.IsName o) (hne : os ≠ [])
    (hlit : Glob.IsLiteral (Text.joinWith [Path.slash] os)) (hns : ∀ n ∈ ns, Path.IsName n) {e : Entry} (he : e.Orderly)
    {ms : List Text} :
    Selects { r with excludes := r.excludes ++ [Text.joinWith [Path.slash] os ++ Text.ofString "/**"] } rules ns e ms ↔
      Selects r rules ns e ms ∧ ¬os <+: ns ++ ms := by
  have hpasses : ∀ {ks}, (∀ k ∈ ks, Path.IsName k) → ∀ isDir,
      (isExcluded (r.excludes ++ [Text.joinWith [Path.slash] os ++ Text.ofString "/**"]) rules
        (Text.joinWith [Path.slash] (ns ++ ks)) isDir = false ↔
        isExcluded r.excludes rules (Text.joinWith [Path.slash] (ns ++ ks)) isDir = false ∧ ¬os <+: ns ++ ks) := by
    intro ks hks isDir
    have hall : ∀ n ∈ ns ++ ks, Path.IsName n := by simpa only [List.mem_append, or_imp, forall_and] using ⟨hns, hks⟩
    rw [isExcluded_concat hos hne hlit hall, Bool.or_eq_false_iff, decide_eq_false_iff_not]
  constructor
  · rintro ⟨⟨f, hf, hleaf⟩, hentered, hkept, hincluded⟩
    have hms := he.isName hf
    obtain ⟨hkept, hout⟩ := (hpasses hms false).1 hkept
    refine ⟨⟨⟨f, hf, hleaf⟩, fun ks hks hne => ?_, hkept, hincluded⟩, hout⟩
    exact ((hpasses (fun k hk => hms k (hks.subset hk)) true).1 (hentered ks hks hne)).1
  · rintro ⟨⟨⟨f, hf, hleaf⟩, hentered, hkept, hincluded⟩, hout⟩
    have hms := he.isName hf
    refine ⟨⟨f, hf, hleaf⟩, fun ks hks hne => ?_, (hpasses hms false).2 ⟨hkept, hout⟩, hincluded⟩
    refine (hpasses (fun k hk => hms k (hks.subset hk)) true).2 ⟨hentered ks hks hne, fun h => hout ?_⟩
    exact h.trans ((List.prefix_append_right_inj ns).2 hks)

/-- Among paths below a root the names after it tell which is within another. -/
theorem isWithin_rooted_append {root ks : List Text} (hos : ∀ n ∈ root ++ os, Path.IsName n)
    (hks : ∀ n ∈ root ++ ks, Path.IsName n) :
    Path.IsWithin (Path.rooted (root ++ os)) (Path.rooted (root ++ ks)) ↔ os <+: ks := by
  unfold Path.IsWithin
  rw [Path.cleaned_rooted hos, Path.cleaned_rooted hks, List.prefix_append_right_inj]

/-- An entry of a directory below the root is selected by the longer rules if it was and lies not below the literal
path. -/
theorem selects_below_root {root : List Text} (hroot : ∀ e ∈ root, Path.IsName e) (hos : ∀ o ∈ os, Path.IsName o)
    (hne : os ≠ []) (hlit : Glob.IsLiteral (Text.joinWith [Path.slash] os)) {es : List (Text × Entry)}
    (hes : (Entry.dir es).Orderly) {p : Text × Entry} (hp : p ∈ es) (ks : List Text) :
    Selects { r with excludes := r.excludes ++ [Text.joinWith [Path.slash] os ++ Text.ofString "/**"] } rules
      [p.1] p.2 ks ↔
      Selects r rules [p.1] p.2 ks ∧ ¬Path.IsWithin (Path.rooted (root ++ os)) (Path.rooted (root ++ p.1 :: ks)) := by
  obtain ⟨hname, -, horderly⟩ := hes.entry hp
  have hns : ∀ n ∈ [p.1], Path.IsName n := by simpa using hname
  have hosall : ∀ n ∈ root ++ os, Path.IsName n := by
    simpa only [List.mem_append, or_imp, forall_and] using ⟨hroot, hos⟩
  rw [selects_concat hos hne hlit hns horderly]
  refine and_congr_right fun hks => not_congr ?_
  obtain ⟨f, hf, -⟩ := hks.leaf
  have hall : ∀ n ∈ root ++ p.1 :: ks, Path.IsName n := by
    simpa only [List.mem_append, List.mem_cons, or_imp, forall_and, forall_eq] using ⟨hroot, hname, horderly.isName hf⟩
  exact (isWithin_rooted_append hosall hall).symm

theorem invalid?_concat (hvalid : r.invalid? = none) (hlit : Glob.IsLiteral (Text.joinWith [Path.slash] os)) :
    { r with excludes := r.excludes ++ [Text.joinWith [Path.slash] os ++ Text.ofString "/**"] }.invalid? = none := by
  unfold DiscoveryRules.invalid? at hvalid ⊢
  rw [← List.append_assoc, List.find?_append, hvalid, Option.none_or, List.find?_singleton, Glob.isValid_below hlit]
  rfl

/-- A search that excludes what is below a literal path as well finds what it found, without that. -/
theorem discover_concat {d : Disk} (hd : d.Orderly) {root : List Text} (hroot : ∀ e ∈ root, Path.IsName e)
    (hos : ∀ o ∈ os, Path.IsName o) (hne : os ≠ []) (hlit : Glob.IsLiteral (Text.joinWith [Path.slash] os))
    {paths : List Text} (h : discover d (Path.rooted root) r = .ok paths) :
    discover d (Path.rooted root)
        { r with excludes := r.excludes ++ [Text.joinWith [Path.slash] os ++ Text.ofString "/**"] } =
      .ok (paths.filter fun p => ¬Path.IsWithin (Path.rooted (root ++ os)) p) := by
  obtain ⟨hvalid, hdir, -⟩ := discover_eq_ok.1 h
  set r' := { r with excludes := r.excludes ++ [Text.joinWith [Path.slash] os ++ Text.ofString "/**"] } with hr'
  have h' : discover d (Path.rooted root) r' = .ok (listed d (Path.rooted root) r') :=
    discover_eq_ok.2 ⟨invalid?_concat hvalid hlit, hdir, rfl⟩
  have hmem : ∀ path, path ∈ listed d (Path.rooted root) r' ↔
      path ∈ paths.filter fun p => ¬Path.IsWithin (Path.rooted (root ++ os)) p := by
    intro path
    rw [List.mem_filter, decide_eq_true_eq, mem_discover hd hroot h', mem_discover hd hroot h]
    constructor
    · rintro ⟨es, hes, p, hp, ks, rfl, hks⟩
      obtain ⟨at_, hat⟩ := Disk.exists_get?_of_entry hd hes
      obtain ⟨hks, hout⟩ := (selects_below_root hroot hos hne hlit (hd.tree.get? hat) hp ks).1 hks
      exact ⟨⟨es, hes, p, hp, ks, rfl, hks⟩, hout⟩
    · rintro ⟨⟨es, hes, p, hp, ks, rfl, hks⟩, hout⟩
      obtain ⟨at_, hat⟩ := Disk.exists_get?_of_entry hd hes
      exact ⟨es, hes, p, hp, ks, rfl, (selects_below_root hroot hos hne hlit (hd.tree.get? hat) hp ks).2 ⟨hks, hout⟩⟩
  have hperm : (listed d (Path.rooted root) r').Perm
    (paths.filter fun p => ¬Path.IsWithin (Path.rooted (root ++ os)) p) :=
    (List.perm_ext_iff_of_nodup (nodup_discover hd hroot h').of_map ((nodup_discover hd hroot h).of_map.filter _)).2
      hmem
  rw [h', hperm.eq_of_pairwise (fun _ _ _ _ => Text.le_antisymm) (pairwise_discover h')
    ((pairwise_discover h).filter _)]

end Discovery

end DocAtlas

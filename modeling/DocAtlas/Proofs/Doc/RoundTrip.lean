/-
A block says what its facts say: read back, it has the tags of the facts, in their order and nothing else.
What a line of the block takes over is cut out again at the spaces and braces around it, so this needs that
the words of the facts hold no white space and that the name, which stands first on its line, does not begin
with a brace. The indentation may be any.
-/
import DocAtlas.Proofs.Doc.Reading
import DocAtlas.Proofs.Text.Trimming

namespace DocAtlas.Doc

/-! ## What a block says -/

/-- The tag of a part of the parameter. -/
def partTag (type path : Text) : Tag := ⟨"param", type, path, "[auto generate]"⟩

/-- The name of the props that are not listed: that of the first entry that has one after the mark of a rest,
or a stand-in if props are spread. -/
def Facts.shownRest? (facts : Facts) : Option Text :=
  match facts.props.find? fun p => restMark <+: p ∧ p ≠ restMark with
  | some p => some (p.drop restMark.length)
  | none => if facts.spread then some "rest" else none

/-- What a block says of its facts, tag by tag. -/
def Facts.tags (facts : Facts) (stamp : Option Int) : List Tag :=
  (stamp.map fun ms => Tag.mk "generated" [] [] (Text.ofInt ms)).toList ++
    [Tag.mk "component" [] [] (facts.name.dropWhile (· == 95)),
      Tag.mk "param" "Object" facts.shownParam "Component props"] ++
    (facts.props.filter fun p => ¬ restMark <+: p).map (fun k => partTag "*" (facts.shownParam ++ "." ++ k)) ++
    facts.shownRest?.toList.map (fun r => partTag "Object" (facts.shownParam ++ "." ++ r)) ++
    [Tag.mk "returns" "JSX.Element" [] "React component"]

theorem plainProps_eq (props : List Text) : plainProps props = props.filter fun p => ¬ restMark <+: p := by
  unfold plainProps
  refine List.filter_congr fun p _ => ?_
  rw [Bool.eq_iff_iff, Bool.not_eq_true', ← Bool.not_eq_true, List.isPrefixOf_iff_prefix, decide_eq_true_eq]

theorem dropPrefix?_restMark (p : Text) :
    Text.dropPrefix? restMark p = if restMark <+: p then some (p.drop restMark.length) else none := by
  split
  · rename_i h
    obtain ⟨u, rfl⟩ := h
    rw [List.drop_left]
    exact Text.dropPrefix?_eq_some.2 rfl
  · rename_i h
    exact Text.dropPrefix?_eq_none.2 h

theorem restOf_eq (facts : Facts) : restOf facts = facts.shownRest? := by
  have hfind : (restNames facts.props).find? (fun r => !r.isEmpty) =
      (facts.props.find? fun p => restMark <+: p ∧ p ≠ restMark).map (List.drop restMark.length) := by
    unfold restNames
    induction facts.props with
    | nil => rfl
    | cons p props ih =>
      rw [List.filterMap_cons, dropPrefix?_restMark, List.find?_cons]
      by_cases hmark : restMark <+: p
      · -- a mark without a name is passed on both sides
        obtain ⟨u, rfl⟩ := hmark
        by_cases hu : u = []
        · simp [hu, ih]
        · simp [hu]
      · simp [hmark, ih]
  unfold restOf Facts.shownRest?
  rw [hfind]
  cases facts.props.find? fun p => restMark <+: p ∧ p ≠ restMark <;> rfl

/-! ## A block as lines -/

/-- A line that documents a part of the parameter, without the newline. -/
def partLine (type path : Text) : Text :=
  Text.ofString " * @param \x7b" ++ (type ++ (Text.ofString "\x7d " ++ (path ++ Text.ofString " - [auto generate]")))

/-- The lines of a block between the first one and the last. -/
def Facts.lines (facts : Facts) (stamp : Option Int) : List Text :=
  (stamp.map fun ms => Text.ofString " * @generated " ++ Text.ofInt ms).toList ++
    [Text.ofString " * @component " ++ facts.name.dropWhile (· == 95), Text.ofString " *",
      Text.ofString " * @param \x7bObject\x7d " ++ (facts.shownParam ++ Text.ofString " Component props")] ++
    (plainProps facts.props).map (fun p => partLine "*" (facts.shownParam ++ "." ++ p)) ++
    (restOf facts).toList.map (fun r => partLine "Object" (facts.shownParam ++ "." ++ r)) ++
    [Text.ofString " * @returns \x7bJSX.Element\x7d React component"]

theorem flatMap_newline (ls : List Text) :
    Text.newline :: ls.flatMap (fun l => l ++ [Text.newline]) =
      ls.flatMap (fun l => Text.newline :: l) ++ [Text.newline] := by
  induction ls with
  | nil => rfl
  | cons l ls ih =>
    rw [List.flatMap_cons, List.flatMap_cons, List.append_assoc, List.append_assoc, ← ih]
    rfl

theorem paramLine_eq (type path : Text) : paramLine type path = partLine type path ++ [Text.newline] := by
  unfold paramLine partLine
  rw [show Text.ofString " - [auto generate]\n" = Text.ofString " - [auto generate]" ++ [Text.newline] by decide]
  simp only [List.append_assoc]

theorem render_eq_lines (facts : Facts) (stamp : Option Int) : render facts stamp =
    Text.ofString "/**" ++ (facts.lines stamp ++ [Text.ofString " "]).flatMap (fun l => Text.newline :: l) ++
      closer := by
  have hstamp : stampLine stamp =
      (stamp.map fun ms => Text.ofString " * @generated " ++ Text.ofInt ms).toList.flatMap fun l =>
      l ++ [Text.newline] := by
    cases stamp with
    | none => rfl
    | some ms => simp [stampLine, show Text.ofString "\n" = [Text.newline] by decide]
  have hprops : propLines facts.shownParam (plainProps facts.props) =
      ((plainProps facts.props).map fun p => partLine "*" (facts.shownParam ++ "." ++ p)).flatMap
        fun l => l ++ [Text.newline] := by
    unfold propLines
    simp only [paramLine_eq, List.flatMap_map]
  have hrest : restLine facts.shownParam (restOf facts) =
      ((restOf facts).toList.map fun r => partLine "Object" (facts.shownParam ++ "." ++ r)).flatMap
        fun l => l ++ [Text.newline] := by
    cases restOf facts with
    | none => rfl
    | some r => simp [restLine, paramLine_eq]
  have hopen : Text.ofString "/**\n" = Text.ofString "/**" ++ [Text.newline] := by decide
  have hblank : Text.ofString "\n *\n" = Text.newline :: (Text.ofString " *" ++ [Text.newline]) := by decide
  have hobject : Text.ofString " Component props\n" = Text.ofString " Component props" ++ [Text.newline] := by decide
  have hreturns : Text.ofString " * @returns \x7bJSX.Element\x7d React component\n" =
      Text.ofString " * @returns \x7bJSX.Element\x7d React component" ++ [Text.newline] := by decide
  have hclose : Text.ofString " */" = Text.ofString " " ++ closer := by decide
  -- a block ends its lines with newlines; seen from inside its markers each line begins with one
  rw [List.flatMap_append, List.flatMap_singleton, ← List.singleton_append, ← List.append_assoc _ [Text.newline],
    ← flatMap_newline, render_eq, hstamp, hprops, hrest, hopen, hblank, hobject, hreturns, hclose]
  simp only [Facts.lines, List.flatMap_append, List.flatMap_cons, List.flatMap_nil, List.append_assoc, List.cons_append,
    List.nil_append]

/-- Indentation goes before every line that begins with a newline. -/
theorem indent_flatMap_newline (pad : Text) {ls : List Text} (h : ∀ l ∈ ls, Text.newline ∉ l) :
    indent pad (ls.flatMap fun l => Text.newline :: l) =
      (ls.map fun l => pad ++ l).flatMap fun l => Text.newline :: l := by
  induction ls with
  | nil => rfl
  | cons l ls ih =>
    obtain ⟨hl, hls⟩ := List.forall_mem_cons.1 h
    rw [List.flatMap_cons, List.map_cons, List.flatMap_cons, indent_append, ih hls, indent_cons, if_pos rfl,
      indent_of_ne pad fun b hb hnl => hl (hnl ▸ hb)]
    simp only [List.cons_append]

theorem lines_flatMap_newline {ls : List Text} (h : ∀ l ∈ ls, Text.newline ∉ l) :
    Text.lines (ls.flatMap fun l => Text.newline :: l) = [] :: ls := by
  induction ls with
  | nil => rfl
  | cons l ls ih =>
    obtain ⟨hl, hls⟩ := List.forall_mem_cons.1 h
    rw [List.flatMap_cons, List.cons_append, Text.lines_cons_newline]
    cases ls with
    | nil => rw [List.flatMap_nil, List.append_nil, Text.lines, Text.splitOn_of_not_mem hl]
    | cons m ls =>
      have ih := ih hls
      rw [List.flatMap_cons, List.cons_append, Text.lines_cons_newline] at ih
      rw [List.flatMap_cons, List.cons_append, Text.lines_append, Text.lines, Text.splitOn_of_not_mem hl,
        (List.cons.inj ih).2]
      rfl

/-! ## Lines read back -/

namespace Comment

/-- The tag a line begins. -/
def tagOf? : Text → Option Tag
  | 64 :: rest => some (Tag.ofLine rest)
  | _ => none

/-- A line that says nothing or begins a tag. -/
def IsTagLine (l : Text) : Prop := l = [] ∨ ∃ rest, l = 64 :: rest

theorem tagsFrom_of_tagLines {ls : List Text} (h : ∀ l ∈ ls, IsTagLine l) (current : Tag) :
    tagsFrom current ls = current :: ls.filterMap tagOf? := by
  induction ls generalizing current with
  | nil => rfl
  | cons l ls ih =>
    obtain ⟨hl, hls⟩ := List.forall_mem_cons.1 h
    rcases hl with rfl | ⟨rest, rfl⟩
    · exact ih hls current
    · rw [tagsFrom, ih hls]
      rfl

theorem ofLines_of_tagLines {ls : List Text} (h : ∀ l ∈ ls, IsTagLine l) :
    (∀ d ∈ (ofLines ls).1, d = []) ∧ (ofLines ls).2 = ls.filterMap tagOf? := by
  induction ls with
  | nil => exact ⟨by simp [ofLines], rfl⟩
  | cons l ls ih =>
    obtain ⟨hl, hls⟩ := List.forall_mem_cons.1 h
    rcases hl with rfl | ⟨rest, rfl⟩
    · obtain ⟨hdescription, htags⟩ := ih hls
      exact ⟨List.forall_mem_cons.2 ⟨rfl, hdescription⟩, htags⟩
    · refine ⟨by simp [ofLines], ?_⟩
      rw [ofLines, tagsFrom_of_tagLines hls]
      rfl

theorem mem_joinWith_newline {ds : List Text} (h : ∀ d ∈ ds, d = []) :
    ∀ b ∈ Text.joinWith "\n" ds, Text.IsBlankByte b := by
  induction ds with
  | nil => exact fun b hb => by cases hb
  | cons d ds ih =>
    obtain ⟨rfl, hds⟩ := List.forall_mem_cons.1 h
    cases ds with
    | nil => exact fun b hb => by cases hb
    | cons e ds =>
      intro b hb
      rw [Text.joinWith, List.nil_append] at hb
      rcases List.mem_append.1 hb with hb | hb
      · rw [show Text.ofString "\n" = [Text.newline] by decide, List.mem_singleton] at hb
        rw [hb]
        decide
      · exact ih hds b hb

/-- A comment all of whose lines begin tags or are blank has these tags and no description. -/
theorem parse?_of_tagLines {inner : Text} (h : ∀ l ∈ (Text.lines inner).map content, IsTagLine l) :
    parse? (Text.ofString "/**" ++ inner ++ closer) = some ⟨[], ((Text.lines inner).map content).filterMap tagOf?⟩ := by
  obtain ⟨hdescription, htags⟩ := ofLines_of_tagLines h
  rw [parse?_delimited, htags, Text.trim_of_blanks (mem_joinWith_newline hdescription)]

/-- What stands after the margin of a line is its content. -/
theorem content_margin {pad t : Text} (hpad : ∀ b ∈ pad, IsIndent b) (ht : Text.IsTrimmed t) (hne : t ≠ []) :
    content (pad ++ (Text.ofString " * " ++ t)) = t := by
  have hstar : Text.IsTrimmed ([42] ++ 32 :: t) := .append (by decide) ht (by decide) (by simp) hne
  have hline : Text.trim (pad ++ (Text.ofString " * " ++ t)) = Text.ofString "*" ++ 32 :: t := by
    have hstart : pad ++ (Text.ofString " * " ++ t) = (pad ++ [32]) ++ ([42] ++ 32 :: t) := by
      rw [show Text.ofString " * " = [32, 42, 32] by decide]
      simp
    have hblank : ∀ b ∈ pad ++ [32], Text.IsBlankByte b := List.forall_mem_append.2
      ⟨fun b hb => isBlankByte_of_isIndent (hpad b hb), by decide +kernel⟩
    rw [hstart, Text.trim, Text.trimLeft_blanks hblank, Text.trimLeft_of_trimmed hstar, Text.trimRight_of_trimmed hstar,
      show Text.ofString "*" = [42] by decide]
  rw [content, hline, Text.trimPrefix_append, Text.trim, Text.trimLeft_blank (by decide)]
  exact Text.trim_of_trimmed ht

end Comment

/-! ## Tags of a block -/

namespace Tag

theorem cutType_of_head? {t : Text} (h : t.head? ≠ some 123) : cutType t = ([], t) := by
  unfold cutType
  split
  · rename_i rest
    exact absurd rfl h
  · rfl

/-- A tag with one word after it. -/
theorem ofLine_word {name w : Text} (hname : ∀ b ∈ name, b ≠ 32) (hparam : namesParam name = false)
    (hw : Text.IsUnspaced w) (hbrace : w.head? ≠ some 123) : ofLine (name ++ 32 :: w) = ⟨name, [], [], w⟩ := by
  -- the dash that begins a note is followed by a space, and a word has none
  have hdash : Text.trimPrefix "- " w = w := by
    refine Text.trimPrefix_of_not_prefix ?_
    rintro ⟨u, rfl⟩
    exact hw.not_mem (a := 32) (by decide) (List.mem_append_left _ (by decide))
  unfold ofLine
  rw [Comment.cut_append hname (.inr ⟨w, rfl⟩)]
  simp only [List.tail?_cons, Option.getD_some]
  rw [Text.trim_of_trimmed hw.trimmed, cutType_of_head? hbrace, hparam]
  simp only [Bool.false_eq_true, if_false]
  rw [hdash, Text.trim_of_trimmed hw.trimmed]

/-- A type in braces, a path and a note, as they follow the tag of a parameter. -/
def braced (type path note : Text) : Text := 123 :: (type ++ 125 :: 32 :: (path ++ 32 :: note))

section Param

variable {type path note : Text} (htype : Text.IsUnspaced type) (hpath : Text.IsUnspaced path) (hne : path ≠ [])
  (hnote : Text.IsTrimmed note) (hne' : note ≠ [])

include htype hpath hne hnote hne'

theorem isTrimmed_braced : Text.IsTrimmed (braced type path note) := by
  have hbrace : Text.IsUnspaced (123 :: (type ++ [125])) := (Text.isUnspaced_cons (by decide)).2
    ⟨by decide, (Text.isUnspaced_append (by decide)).2 ⟨htype, by decide, by decide⟩⟩
  have hrest : Text.IsTrimmed (path ++ 32 :: note) := hpath.trimmed.append hnote (by decide) hne hne'
  have hall := hbrace.trimmed.append hrest (a := 32) (by decide) (by simp) (by simp)
  simpa only [braced, List.cons_append, List.append_assoc, List.nil_append] using hall

/-- A tag for the parameter or a part of it. -/
theorem ofLine_param (hclose : ∀ b ∈ type, b ≠ 125) :
    ofLine (Text.ofString "param" ++ 32 :: braced type path note) =
      ⟨"param", type, path, Text.trim (Text.trimPrefix "- " note)⟩ := by
  have hrest : Text.trim (32 :: (path ++ 32 :: note)) = path ++ 32 :: note := by
    rw [Text.trim, Text.trimLeft_blank (by decide)]
    exact Text.trim_of_trimmed (hpath.trimmed.append hnote (by decide) hne hne')
  have htypeCut : cutType (braced type path note) = (type, path ++ 32 :: note) := by
    rw [braced, cutType, Comment.cut_append hclose (.inr ⟨_, rfl⟩)]
    simp only [List.tail?_cons]
    rw [hrest]
  have hspace : ∀ b ∈ path, b ≠ 32 := fun b hb h => hpath.not_mem (a := 32) (by decide) (h ▸ hb)
  unfold ofLine
  rw [Comment.cut_append (by decide +kernel) (.inr ⟨_, rfl⟩)]
  simp only [List.tail?_cons, Option.getD_some]
  rw [Text.trim_of_trimmed (isTrimmed_braced htype hpath hne hnote hne'), htypeCut, if_pos (by decide),
    Comment.cut_append hspace (.inr ⟨_, rfl⟩)]
  simp only [List.tail?_cons, Option.getD_some]
  rw [Text.trim_of_trimmed hnote]

end Param

end Tag

/-! ## The block read back -/

theorem ofInt_ne_nil (i : Int) : Text.ofInt i ≠ [] := by
  cases i with
  | ofNat n =>
    intro h
    obtain ⟨c, hc⟩ := List.exists_mem_of_ne_nil _ (Nat.toDigits_ne_nil (n := n) (b := 10))
    have hlen := congrArg List.length (List.flatMap_eq_nil_iff.1 h c hc)
    rw [String.length_utf8EncodeChar] at hlen
    exact absurd hlen c.utf8Size_pos.ne'
  | negSucc n => simp [Text.ofInt]

theorem isUnspaced_ofInt (i : Int) : Text.IsUnspaced (Text.ofInt i) := by
  refine Text.isUnspaced_of_solid fun b hb => ?_
  rcases mem_ofInt hb with rfl | ⟨hlo, hhi⟩
  · decide
  · rw [UInt8.le_iff_toNat_le] at hlo hhi
    have hcode : 48 ≤ b.toNat ∧ b.toNat ≤ 57 := ⟨hlo, hhi⟩
    refine ⟨UInt8.lt_iff_toNat_lt.2 (show b.toNat < 128 by omega), ?_⟩
    simp only [Rune.isBlankCode, Bool.or_eq_false_iff, Bool.and_eq_false_iff, decide_eq_false_iff_not,
      beq_eq_false_iff_ne]
    omega

theorem isUnspaced_dropWhile {name : Text} (h : Text.IsUnspaced name) : Text.IsUnspaced (name.dropWhile (· == 95)) := by
  induction name with
  | nil => exact h
  | cons b name ih =>
    by_cases hb : b = 95
    · subst hb
      exact ih ((Text.isUnspaced_cons (by decide)).1 h).2
    · rwa [List.dropWhile_cons_of_neg (by simpa using hb)]

theorem isUnspaced_restOf {facts : Facts} {r : Text} (h : ∀ p ∈ facts.props, Text.IsUnspaced p)
    (hr : r ∈ (restOf facts).toList) :
    Text.IsUnspaced r := by
  rw [restOf_eq, Option.mem_toList, Facts.shownRest?] at hr
  split at hr
  · rename_i p hp
    cases hr
    have hmark := List.find?_some hp
    have hmem := h p (List.mem_of_find?_eq_some hp)
    rw [decide_eq_true_eq] at hmark
    obtain ⟨⟨u, rfl⟩, -⟩ := hmark
    rw [List.drop_left]
    exact hmem.of_append (by decide +kernel)
  · split at hr
    · cases hr
      decide
    · cases hr

theorem Facts.shownParam_ne_nil (facts : Facts) : facts.shownParam ≠ [] := by
  unfold Facts.shownParam
  split
  · decide
  · rename_i h
    simpa using h

theorem Facts.isUnspaced_shownParam {facts : Facts} (h : Text.IsUnspaced facts.param) :
    Text.IsUnspaced facts.shownParam := by
  unfold Facts.shownParam
  split
  · decide +kernel
  · exact h

namespace Comment

/-- Behind the margin each line begins a tag or says nothing, and these are the tags. -/
structure ReadAs (pad : Text) (ls : List Text) (tags : List Tag) : Prop where
  lines : ∀ l ∈ ls, IsTagLine (content (pad ++ l))
  tags : ls.filterMap (fun l => tagOf? (content (pad ++ l))) = tags

theorem ReadAs.append {pad : Text} {ls ls' : List Text} {tags tags' : List Tag} (h : ReadAs pad ls tags)
    (h' : ReadAs pad ls' tags') : ReadAs pad (ls ++ ls') (tags ++ tags') where
  lines := List.forall_mem_append.2 ⟨h.lines, h'.lines⟩
  tags := by rw [List.filterMap_append, h.tags, h'.tags]

/-- Lines written one after another from a list read as the tags of its entries. -/
theorem ReadAs.map {α : Type} {pad : Text} {xs : List α} {line : α → Text} {tag : α → Tag}
    (h : ∀ x ∈ xs, ReadAs pad [line x] [tag x]) : ReadAs pad (xs.map line) (xs.map tag) := by
  induction xs with
  | nil => exact ⟨by simp, rfl⟩
  | cons x xs ih =>
    obtain ⟨hx, hxs⟩ := List.forall_mem_cons.1 h
    exact hx.append (ih hxs)

section Lines

variable {pad : Text} (hpad : ∀ b ∈ pad, IsIndent b)

theorem readAs_of_content {l t : Text} (h : content (pad ++ l) = 64 :: t) : ReadAs pad [l] [Tag.ofLine t] := by
  constructor
  · simp [h, IsTagLine]
  · simp [h, tagOf?]

include hpad

/-- A line is read without its indentation. -/
theorem content_indented (l : Text) : content (pad ++ l) = content l := by
  unfold content Text.trim
  rw [Text.trimLeft_blanks fun b hb => isBlankByte_of_isIndent (hpad b hb)]

theorem readAs_blank {l : Text} (h : content l = []) : ReadAs pad [l] [] := by
  have hcontent : content (pad ++ l) = [] := (content_indented hpad l).trans h
  constructor
  · simp [hcontent, IsTagLine]
  · simp [hcontent, tagOf?]

theorem readAs_tag {t : Text} (ht : Text.IsTrimmed (64 :: t)) :
    ReadAs pad [Text.ofString " * @" ++ t] [Tag.ofLine t] := by
  refine readAs_of_content ?_
  rw [show Text.ofString " * @" = Text.ofString " * " ++ [64] by decide, List.append_assoc, List.singleton_append]
  exact content_margin hpad ht (by simp)

theorem readAs_word {name w : Text} (hname : Text.IsUnspaced name) (hparam : Tag.namesParam name = false)
    (hw : Text.IsUnspaced w) (hne : w ≠ []) (hbrace : w.head? ≠ some 123) :
    ReadAs pad [Text.ofString " * @" ++ (name ++ 32 :: w)] [⟨name, [], [], w⟩] := by
  have htag : Text.IsUnspaced (64 :: name) := (Text.isUnspaced_cons (by decide)).2 ⟨by decide, hname⟩
  have hspace : ∀ b ∈ name, b ≠ 32 := fun b hb h => hname.not_mem (a := 32) (by decide) (h ▸ hb)
  rw [← Tag.ofLine_word hspace hparam hw hbrace]
  exact readAs_tag hpad (htag.trimmed.append hw.trimmed (by decide) (by simp) hne)

theorem readAs_generated (ms : Int) :
    ReadAs pad [Text.ofString " * @generated " ++ Text.ofInt ms] [⟨"generated", [], [], Text.ofInt ms⟩] := by
  have hbrace : (Text.ofInt ms).head? ≠ some 123 := by
    intro h
    rcases mem_ofInt (List.mem_of_mem_head? h) with h | ⟨-, h⟩ <;> exact absurd h (by decide)
  rw [show Text.ofString " * @generated " = Text.ofString " * @" ++ (Text.ofString "generated" ++ [32]) by decide,
    List.append_assoc, List.append_assoc]
  exact readAs_word hpad (by decide) (by decide) (isUnspaced_ofInt ms) (ofInt_ne_nil ms) hbrace

theorem readAs_component {w : Text} (hw : Text.IsUnspaced w) (hbrace : w.head? ≠ some 123) :
    ReadAs pad [Text.ofString " * @component " ++ w] [⟨"component", [], [], w⟩] := by
  by_cases hne : w = []
  · -- a name of underscores alone leaves only the tag on its line
    subst hne
    have hcontent : content (pad ++ (Text.ofString " * @component " ++ [])) = 64 :: Text.ofString "component" := by
      rw [content_indented hpad]
      decide
    rw [show Tag.mk (Text.ofString "component") [] [] [] = Tag.ofLine (Text.ofString "component") by decide]
    exact readAs_of_content hcontent
  · rw [show Text.ofString " * @component " = Text.ofString " * @" ++ (Text.ofString "component" ++ [32]) by decide,
      List.append_assoc, List.append_assoc]
    exact readAs_word hpad (by decide) (by decide) hw hne hbrace

theorem readAs_param {type path note : Text} (htype : Text.IsUnspaced type) (hclose : ∀ b ∈ type, b ≠ 125)
    (hpath : Text.IsUnspaced path) (hne : path ≠ []) (hnote : Text.IsTrimmed note) (hne' : note ≠ []) :
    ReadAs pad [Text.ofString " * @param \x7b" ++ (type ++ (Text.ofString "\x7d " ++ (path ++ 32 :: note)))]
      [⟨"param", type, path, Text.trim (Text.trimPrefix "- " note)⟩] := by
  have hline : Text.ofString " * @param \x7b" ++ (type ++ (Text.ofString "\x7d " ++ (path ++ 32 :: note))) =
      Text.ofString " * @" ++ (Text.ofString "param" ++ 32 :: Tag.braced type path note) := by
    rw [show Text.ofString " * @param \x7b" = Text.ofString " * @" ++ (Text.ofString "param" ++ [32, 123]) by decide,
      show Text.ofString "\x7d " = [125, 32] by decide, Tag.braced]
    simp only [List.append_assoc, List.cons_append, List.nil_append]
  have hword : Text.IsTrimmed (64 :: Text.ofString "param") := by decide
  rw [hline, ← Tag.ofLine_param htype hpath hne hnote hne' hclose]
  exact readAs_tag hpad
    (hword.append (Tag.isTrimmed_braced htype hpath hne hnote hne') (by decide) (by simp) (by simp [Tag.braced]))

/-- A line for a part of the parameter. -/
theorem readAs_part {type param part : Text} (htype : Text.IsUnspaced type) (hclose : ∀ b ∈ type, b ≠ 125)
    (hparam : Text.IsUnspaced param) (hpart : Text.IsUnspaced part) :
    ReadAs pad [partLine type (param ++ "." ++ part)] [partTag type (param ++ "." ++ part)] := by
  have hpath : Text.IsUnspaced (param ++ "." ++ part) := by
    rw [show Text.ofString "." = [46] by decide, List.append_assoc]
    exact (Text.isUnspaced_append (by decide)).2 ⟨hparam, by decide, hpart⟩
  have hne : param ++ Text.ofString "." ++ part ≠ [] := by simp [show Text.ofString "." = [46] by decide]
  have hnote : Text.ofString " - [auto generate]" = 32 :: Text.ofString "- [auto generate]" := by decide
  rw [partLine, hnote, partTag, show Text.ofString "[auto generate]" =
    Text.trim (Text.trimPrefix "- " (Text.ofString "- [auto generate]")) by decide]
  exact readAs_param hpad htype hclose hpath hne (by decide) (by decide)

/-- The lines of a block read as what it says of its facts. -/
theorem readAs_lines {facts : Facts} (stamp : Option Int) (hname : Text.IsUnspaced facts.name)
    (hbrace : (facts.name.dropWhile (· == 95)).head? ≠ some 123) (hparam : Text.IsUnspaced facts.param)
    (hprops : ∀ p ∈ facts.props, Text.IsUnspaced p) :
    ReadAs pad (facts.lines stamp ++ [Text.ofString " "]) (facts.tags stamp) := by
  have hshown := Facts.isUnspaced_shownParam hparam
  have hstamp : ReadAs pad (stamp.map fun ms => Text.ofString " * @generated " ++ Text.ofInt ms).toList
      (stamp.map fun ms => Tag.mk "generated" [] [] (Text.ofInt ms)).toList := by
    cases stamp with
    | none => exact ⟨by simp, rfl⟩
    | some ms => exact readAs_generated hpad ms
  have hobject : ReadAs pad [Text.ofString " * @param \x7bObject\x7d " ++
    (facts.shownParam ++ Text.ofString " Component props")]
      [⟨"param", "Object", facts.shownParam, "Component props"⟩] := by
    rw [show Text.ofString " * @param \x7bObject\x7d " =
        Text.ofString " * @param \x7b" ++ (Text.ofString "Object" ++ Text.ofString "\x7d ") by decide,
      show Text.ofString " Component props" = 32 :: Text.ofString "Component props" by decide,
      List.append_assoc, List.append_assoc]
    exact readAs_param hpad (by decide) (by decide +kernel) hshown facts.shownParam_ne_nil (by decide) (by decide)
  have hparts : ReadAs pad ((plainProps facts.props).map fun p => partLine "*" (facts.shownParam ++ "." ++ p))
      ((plainProps facts.props).map fun k => partTag "*" (facts.shownParam ++ "." ++ k)) :=
    .map fun p hp => readAs_part hpad (by decide) (by decide +kernel) hshown (hprops p (List.mem_filter.1 hp).1)
  have hrest : ReadAs pad ((restOf facts).toList.map fun r => partLine "Object" (facts.shownParam ++ "." ++ r))
      ((restOf facts).toList.map fun r => partTag "Object" (facts.shownParam ++ "." ++ r)) :=
    .map fun r hr => readAs_part hpad (by decide) (by decide +kernel) hshown (isUnspaced_restOf hprops hr)
  have hreturns : ReadAs pad [Text.ofString " * @returns \x7bJSX.Element\x7d React component"]
      [⟨"returns", "JSX.Element", [], "React component"⟩] := by
    have hcontent : content (pad ++ Text.ofString " * @returns \x7bJSX.Element\x7d React component") =
        64 :: Text.ofString "returns \x7bJSX.Element\x7d React component" := by
      rw [content_indented hpad]
      decide
    rw [show Tag.mk (Text.ofString "returns") (Text.ofString "JSX.Element") [] (Text.ofString "React component") =
      Tag.ofLine (Text.ofString "returns \x7bJSX.Element\x7d React component") by decide]
    exact readAs_of_content hcontent
  have hlast : ReadAs pad [Text.ofString " "] [] := readAs_blank hpad (by decide)
  have hblank : ReadAs pad [Text.ofString " *"] [] := readAs_blank hpad (by decide)
  have hcomponent := readAs_component hpad (isUnspaced_dropWhile hname) hbrace
  have hall := ((((hstamp.append (hcomponent.append (hblank.append hobject))).append hparts).append hrest).append
    hreturns).append hlast
  simpa [Facts.lines, Facts.tags, restOf_eq, plainProps_eq] using hall

end Lines

theorem newline_not_mem_lines {facts : Facts} (stamp : Option Int) (hname : Text.IsUnspaced facts.name)
    (hparam : Text.IsUnspaced facts.param) (hprops : ∀ p ∈ facts.props, Text.IsUnspaced p) :
    ∀ l ∈ facts.lines stamp ++ [Text.ofString " "], Text.newline ∉ l := by
  have hword : ∀ {w : Text}, Text.IsUnspaced w → Text.newline ∉ w := fun h => h.not_mem (by decide)
  have hshown := hword (Facts.isUnspaced_shownParam hparam)
  have hpart : ∀ {type part : Text}, Text.newline ∉ type → Text.IsUnspaced part →
      Text.newline ∉ partLine type (facts.shownParam ++ "." ++ part) := by
    intro type part htype hpart
    unfold partLine
    simp only [List.mem_append, not_or]
    exact ⟨by decide, htype, by decide, ⟨⟨hshown, by decide⟩, hword hpart⟩, by decide⟩
  intro l hl
  simp only [Facts.lines, List.mem_append, List.mem_cons, List.mem_map, List.not_mem_nil, or_false] at hl
  rcases hl with ((((hstamp | rfl | rfl | rfl) | ⟨p, hp, rfl⟩) | ⟨r, hr, rfl⟩) | rfl) | rfl
  · obtain ⟨ms, -, rfl⟩ := Option.map_eq_some_iff.1 (Option.mem_toList.1 hstamp)
    rw [List.mem_append, not_or]
    exact ⟨by decide, hword (isUnspaced_ofInt ms)⟩
  · rw [List.mem_append, not_or]
    exact ⟨by decide, hword (isUnspaced_dropWhile hname)⟩
  · decide
  · rw [List.mem_append, List.mem_append, not_or, not_or]
    exact ⟨by decide, hshown, by decide⟩
  · exact hpart (by decide) (hprops p (List.mem_filter.1 hp).1)
  · exact hpart (by decide) (isUnspaced_restOf hprops hr)
  · decide
  · decide

/-- A block over words without white space, whatever its indentation, reads back as what it says of its
facts. -/
theorem parse?_indent_render {pad : Text} (hpad : ∀ b ∈ pad, IsIndent b) (facts : Facts) (stamp : Option Int)
    (hname : Text.IsUnspaced facts.name) (hbrace : (facts.name.dropWhile (· == 95)).head? ≠ some 123)
    (hparam : Text.IsUnspaced facts.param) (hprops : ∀ p ∈ facts.props, Text.IsUnspaced p) :
    parse? (indent pad (render facts stamp)) = some ⟨[], facts.tags stamp⟩ := by
  have hread := readAs_lines hpad stamp hname hbrace hparam hprops
  have hnewline := newline_not_mem_lines stamp hname hparam hprops
  have hpadded : ∀ l ∈ (facts.lines stamp ++ [Text.ofString " "]).map (pad ++ ·), Text.newline ∉ l := by
    intro l hl
    obtain ⟨m, hm, rfl⟩ := List.mem_map.1 hl
    rw [List.mem_append, not_or]
    exact ⟨fun h => by rcases hpad _ h with h | h <;> exact absurd h (by decide), hnewline m hm⟩
  -- the text between the markers begins with a newline, so its first line is empty
  have hlines := lines_flatMap_newline hpadded
  have hempty : content [] = [] := by decide
  rw [render_eq_lines, indent_append, indent_append,
    indent_fixed pad (show (Text.ofString "/**").all _ = true by decide),
    indent_fixed pad (show closer.all _ = true by decide), indent_flatMap_newline pad hnewline,
      parse?_of_tagLines, hlines]
  · have htags : ((((facts.lines stamp ++ [Text.ofString " "]).map (pad ++ ·)).map content).filterMap tagOf?) =
        facts.tags stamp := by
      simpa only [List.filterMap_map, Function.comp_def] using hread.tags
    rw [List.map_cons, hempty, List.filterMap_cons_none rfl, htags]
  · rw [hlines, List.map_cons, hempty]
    refine List.forall_mem_cons.2 ⟨.inl rfl, fun l hl => ?_⟩
    obtain ⟨m, hm, rfl⟩ := List.mem_map.1 hl
    obtain ⟨n, hn, rfl⟩ := List.mem_map.1 hm
    exact hread.lines n hn

/-- A block with a time, two props, a named rest and spread props, below a tab and a space. -/
theorem parse?_card : (∀ b ∈ ([9, 32] : Text), IsIndent b) ∧ Text.IsUnspaced "__Card" ∧
    ((Text.ofString "__Card").dropWhile (· == 95)).head? ≠ some 123 ∧ Text.IsUnspaced [] ∧
    (∀ p ∈ ([Text.ofString "title", "...", "...others", "onClose"] : List Text), Text.IsUnspaced p) ∧
    parse? (indent [9, 32] (render
      ⟨"__Card", [], ["title", "...", "...others", "onClose"], true⟩ (some 1700000000123))) =
      some ⟨[], [⟨"generated", [], [], "1700000000123"⟩, ⟨"component", [], [], "Card"⟩,
        ⟨"param", "Object", "props", "Component props"⟩, ⟨"param", "*", "props.title", "[auto generate]"⟩,
        ⟨"param", "*", "props.onClose", "[auto generate]"⟩, ⟨"param", "Object", "props.others", "[auto generate]"⟩,
        ⟨"returns", "JSX.Element", [], "React component"⟩]⟩ := by
  have hpad : ∀ b ∈ ([9, 32] : Text), IsIndent b := by decide +kernel
  have hname : Text.IsUnspaced "__Card" := by decide
  have hbrace : ((Text.ofString "__Card").dropWhile (· == 95)).head? ≠ some 123 := by decide
  have hparam : Text.IsUnspaced [] := by decide
  have hprops : ∀ p ∈ ([Text.ofString "title", "...", "...others", "onClose"] : List Text), Text.IsUnspaced p := by
    decide
  refine ⟨hpad, hname, hbrace, hparam, hprops, ?_⟩
  rw [parse?_indent_render hpad ⟨"__Card", [], ["title", "...", "...others", "onClose"], true⟩ (some 1700000000123)
    hname hbrace hparam hprops]
  decide +kernel

end Comment

end DocAtlas.Doc

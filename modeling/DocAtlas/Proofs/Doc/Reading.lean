/-
Blocks read back. Every line of a comment that begins with `@` gives one tag, named by what stands
before the first space. A block has such a line for the component, whatever the words it takes
over hold, so reading it back always finds the component's tag.
-/
import DocAtlas.Doc.Tags
import DocAtlas.Proofs.Doc.Closing
import DocAtlas.Proofs.Text.Pieces

namespace DocAtlas.Doc

/-! ## Tags -/

namespace Tag

theorem name_continued (tag : Tag) (line : Text) : (tag.continued line).name = tag.name := by
  unfold continued
  split <;> rfl

theorem name_ofLine (line : Text) : (ofLine line).name = (Text.cut 32 line).1 := by
  unfold ofLine
  simp only

end Tag

namespace Comment

/-- The name of the tag a line begins. -/
def tagName? : Text → Option Text
  | 64 :: rest => some (Tag.ofLine rest).name
  | _ => none

theorem tagName?_eq_none {line : Text} (h : ∀ rest, line = 64 :: rest → False) : tagName? line = none := by
  unfold tagName?
  split
  · rename_i rest
    exact (h rest rfl).elim
  · rfl

theorem map_name_tagsFrom (current : Tag) (ls : List Text) :
    (tagsFrom current ls).map Tag.name = current.name :: ls.filterMap tagName? := by
  induction ls generalizing current with
  | nil => rfl
  | cons line ls ih =>
    unfold tagsFrom
    split
    · rename_i rest
      rw [List.map_cons, ih]
      rfl
    · rename_i hline
      rw [ih, Tag.name_continued, List.filterMap_cons_none (tagName?_eq_none hline)]

/-- The tags of a comment are those its lines begin. -/
theorem map_name_ofLines (ls : List Text) : (ofLines ls).2.map Tag.name = ls.filterMap tagName? := by
  induction ls with
  | nil => rfl
  | cons line ls ih =>
    unfold ofLines
    split
    · rename_i rest
      rw [map_name_tagsFrom]
      rfl
    · rename_i hline
      rw [List.filterMap_cons_none (tagName?_eq_none hline), ← ih]

theorem hasTag_of_line {ls : List Text} {line name : Text} (hline : line ∈ ls) (h : tagName? line = some name) :
    (ofLines ls).2.any (fun t => t.name == name) = true := by
  have hmem : name ∈ (ofLines ls).2.map Tag.name := by
    rw [map_name_ofLines]
    exact List.mem_filterMap.2 ⟨line, hline, h⟩
  obtain ⟨t, ht, rfl⟩ := List.mem_map.1 hmem
  exact List.any_eq_true.2 ⟨t, ht, by simp⟩

/-! ## The line of the component -/

theorem cut_append {c : UInt8} {s x : Text} (hs : ∀ b ∈ s, b ≠ c) (hx : x = [] ∨ ∃ y, x = c :: y) :
    Text.cut c (s ++ x) = (s, x.tail?) := by
  induction s with
  | nil =>
    rcases hx with rfl | ⟨y, rfl⟩
    · rfl
    · simp [Text.cut]
  | cons b s ih =>
    have hb := hs b (List.mem_cons_self ..)
    rw [List.cons_append, Text.cut, if_neg hb]
    simp only
    rw [ih fun d hd => hs d (List.mem_cons_of_mem _ hd)]

theorem isBlankByte_of_isIndent {b : UInt8} (h : IsIndent b) : Text.IsBlankByte b := by
  rcases h with rfl | rfl <;> decide

/-- The content of the line, whatever follows the tag on it. -/
theorem content_componentLine {pad : Text} (hpad : ∀ b ∈ pad, IsIndent b) (w : Text) :
    ∃ x, content (pad ++ Text.ofString " * @component " ++ w) = Text.ofString "@component" ++ x ∧
      (x = [] ∨ ∃ y, x = 32 :: y) := by
  have hblank : ∀ b ∈ pad, Text.IsBlankByte b := fun b hb => isBlankByte_of_isIndent (hpad b hb)
  have htail : ∀ x : Text, (x = [] ∨ ∃ y, x = 32 :: y) → Text.trimRight x = [] ∨ ∃ y, Text.trimRight x = 32 :: y := by
    rintro x (rfl | ⟨y, rfl⟩)
    · exact .inl rfl
    · exact Text.trimRight_blank (by decide) y
  -- the `t` the tag ends with is solid, so trimming stays to the right of it
  have hline : pad ++ Text.ofString " * @component " ++ w =
      pad ++ 32 :: 42 :: (32 :: (Text.ofString "@componen" ++ 116 :: 32 :: w)) := by
    rw [List.append_assoc, show Text.ofString " * @component " =
      32 :: 42 :: 32 :: (Text.ofString "@componen" ++ [116, 32]) by decide]
    simp
  have hfirst : Text.trim (pad ++ Text.ofString " * @component " ++ w) =
      42 :: (32 :: (Text.ofString "@componen" ++ 116 :: Text.trimRight (32 :: w))) := by
    unfold Text.trim
    rw [hline, Text.trimLeft_blanks hblank, Text.trimLeft_blank (by decide), Text.trimLeft_solid (by decide)]
    exact Text.trimRight_solid (by decide) (42 :: 32 :: Text.ofString "@componen") _
  have hrest : Text.trim (32 :: (Text.ofString "@componen" ++ 116 :: Text.trimRight (32 :: w))) =
      Text.ofString "@componen" ++ 116 :: Text.trimRight (Text.trimRight (32 :: w)) := by
    unfold Text.trim
    rw [Text.trimLeft_blank (by decide), show Text.ofString "@componen" = 64 :: Text.ofString "componen" by decide,
      List.cons_append, Text.trimLeft_solid (by decide)]
    exact Text.trimRight_solid (by decide) (64 :: Text.ofString "componen") _
  refine ⟨Text.trimRight (Text.trimRight (32 :: w)), ?_, htail _ (Text.trimRight_blank (by decide) w)⟩
  unfold content
  rw [hfirst]
  change Text.trim (32 :: (Text.ofString "@componen" ++ 116 :: Text.trimRight (32 :: w))) = _
  rw [hrest, show Text.ofString "@component" = Text.ofString "@componen" ++ [116] by decide, List.append_assoc]
  rfl

theorem tagName?_componentLine {pad : Text} (hpad : ∀ b ∈ pad, IsIndent b) (w : Text) :
    tagName? (content (pad ++ Text.ofString " * @component " ++ w)) = some (Text.ofString "component") := by
  obtain ⟨x, hx, htail⟩ := content_componentLine hpad w
  rw [hx, show Text.ofString "@component" = 64 :: Text.ofString "component" by decide, List.cons_append]
  rw [tagName?, Tag.name_ofLine, cut_append (by decide +kernel) htail]

/-! ## The block -/

/-- A line without a newline, after one, is among the lines of a text. -/
theorem mem_lines (pre : Text) {line : Text} (hline : ∀ b ∈ line, b ≠ Text.newline) (post : Text) :
    ∃ w, line ++ w ∈ Text.lines (pre ++ Text.newline :: (line ++ post)) := by
  refine ⟨post.takeWhile (· ≠ Text.newline), ?_⟩
  rw [Text.lines_append]
  refine List.mem_append_right _ (List.mem_of_mem_head? ?_)
  rw [Text.head?_lines, List.takeWhile_append_of_pos (by simpa using hline)]
  rfl

/-- An indented block from its opening to the line of the component, and on to its end. -/
theorem indent_render_eq (pad : Text) (facts : Facts) (stamp : Option Int) : ∃ pre post,
    indent pad (render facts stamp) = Text.ofString "/**" ++
      (pre ++ Text.newline :: (pad ++ Text.ofString " * @component " ++ post)) ++ closer := by
  have hopen : indent pad (Text.ofString "/**\n") = Text.ofString "/**" ++ Text.newline :: pad := by
    rw [show Text.ofString "/**\n" = Text.ofString "/**" ++ [Text.newline] by decide, indent_append,
      indent_fixed pad (by decide)]
    simp [indent, Text.replaceByte]
  -- with or without a line for the time, the line of the component begins after a newline
  have hstamp : ∃ pre, Text.newline :: pad ++ indent pad (stampLine stamp) = pre ++ Text.newline :: pad := by
    cases stamp with
    | none => exact ⟨[], by simp [stampLine, indent, Text.replaceByte]⟩
    | some ms =>
      refine ⟨Text.newline :: pad ++ indent pad (Text.ofString " * @generated " ++ Text.ofInt ms), ?_⟩
      rw [stampLine, indent_append, show Text.ofString "\n" = [Text.newline] by decide]
      simp [indent, Text.replaceByte]
  obtain ⟨pre, hpre⟩ := hstamp
  obtain ⟨rest, hrest, hend⟩ : ∃ rest, render facts stamp =
      Text.ofString "/**\n" ++ (stampLine stamp ++ (Text.ofString " * @component " ++ rest)) ∧ closer <:+ rest := by
    refine ⟨_, render_eq facts stamp, ?_⟩
    rw [show Text.ofString " */" = [32] ++ closer by decide]
    simp only [← List.append_assoc]
    exact List.suffix_append _ _
  obtain ⟨tail, rfl⟩ := hend
  refine ⟨pre, indent pad tail, ?_⟩
  rw [hrest, indent_append, indent_append, indent_append, indent_append, hopen,
    indent_fixed pad (show (Text.ofString " * @component ").all (· != Text.newline) = true by decide),
    indent_fixed pad (show closer.all (· != Text.newline) = true by decide), List.append_assoc,
    ← List.append_assoc (Text.newline :: pad), hpre]
  simp only [List.append_assoc, List.cons_append]

theorem length_opener : (Text.ofString "/**").length = 3 := by decide

theorem length_closer : closer.length = 2 := rfl

/-- A comment between its markers, neither of which is white space, is read from what is inside. -/
theorem parse?_delimited (inner : Text) :
    parse? (Text.ofString "/**" ++ inner ++ closer) =
      some ⟨Text.trim (Text.joinWith "\n" (ofLines ((Text.lines inner).map content)).1),
        (ofLines ((Text.lines inner).map content)).2⟩ := by
  have htrim : Text.trim (Text.ofString "/**" ++ inner ++ closer) = Text.ofString "/**" ++ inner ++ closer := by
    unfold Text.trim
    rw [List.append_assoc, show Text.ofString "/**" = 47 :: Text.ofString "**" by decide, List.cons_append,
      Text.trimLeft_solid (by decide)]
    -- the last byte is solid, so nothing is trimmed at the end either
    have := Text.trimRight_solid (show Text.IsSolidByte 47 by decide) (47 :: (Text.ofString "**" ++ inner ++ [42])) []
    simpa [closer, Text.trimRight_nil] using this
  have hshape : hasShape (Text.ofString "/**" ++ inner ++ closer) = true := by
    unfold hasShape
    simp only [Bool.and_eq_true, decide_eq_true_eq, List.isPrefixOf_iff_prefix, List.isSuffixOf_iff_suffix]
    refine ⟨⟨?_, ?_⟩, ?_⟩
    · rw [List.append_assoc]; exact List.prefix_append _ _
    · exact List.suffix_append _ _
    · rw [List.length_append, List.length_append, length_opener, length_closer]
      omega
  have hslice : Text.slice (Text.ofString "/**" ++ inner ++ closer) 3
      ((Text.ofString "/**" ++ inner ++ closer).length - 2) = inner := by
    have := Text.slice_append (Text.ofString "/**") inner closer
    rw [length_opener] at this
    rw [List.length_append, List.length_append, length_opener, length_closer, Nat.add_sub_cancel]
    exact this
  unfold parse?
  simp only
  rw [htrim, if_pos hshape, hslice]

/-- A block reads back with the tag of the component, whatever its words hold. -/
theorem hasTag_indent_render {pad : Text} (hpad : ∀ b ∈ pad, IsIndent b) (facts : Facts) (stamp : Option Int) :
    (parse? (indent pad (render facts stamp))).any (fun d => d.hasTag "component") = true := by
  obtain ⟨pre, post, hC⟩ := indent_render_eq pad facts stamp
  have hnewline : ∀ b ∈ pad ++ Text.ofString " * @component ", b ≠ Text.newline := by
    intro b hb
    rcases List.mem_append.1 hb with hb | hb
    · rcases hpad b hb with rfl | rfl <;> decide
    · have hline : (Text.ofString " * @component ").all (· != Text.newline) = true := by decide
      simpa using List.all_eq_true.1 hline b hb
  obtain ⟨w, hw⟩ := mem_lines pre hnewline post
  rw [hC, parse?_delimited, Option.any_some]
  unfold hasTag
  exact hasTag_of_line (List.mem_map_of_mem hw) (tagName?_componentLine hpad w)

end Comment

end DocAtlas.Doc

/-
The lines of a declaration. A tree counts line ends before the first byte of a node and before the byte behind it; a
cache of sources counts lines while it looks for a range. Both counts agree: what is fetched for the lines of a
recorded declaration is its text with the rest of its first line in front and the rest of its last line behind.
-/
import DocAtlas.Proofs.Files.Ranges
import DocAtlas.Proofs.Knowledge.Exporting

namespace DocAtlas

namespace Text

/-- A part of a text and the parts around it: `left` and `right` complete its first and its last line, `front` and
`back` are the lines before and after. -/
structure Around (t : Text) (start : Nat) (part front left right back : Text) : Prop where
  parts : t = front ++ (left ++ part ++ right ++ back)
  start : start = (front ++ left).length
  left : newline ∉ left
  right : newline ∉ right
  front : ∀ b ∈ front.getLast?, b = newline
  back : ∀ b ∈ back.head?, b = newline

/-- A text is the end of a line, and what follows from its line end on. -/
theorem exists_lineStop (t : Text) :
    ∃ right back, t = right ++ back ∧ newline ∉ right ∧ ∀ b ∈ back.head?, b = newline := by
  refine ⟨t.takeWhile (· != newline), t.dropWhile (· != newline), List.takeWhile_append_dropWhile.symm,
    fun hmem => ?_, ?_⟩
  · exact absurd (List.all_eq_true.1 List.all_takeWhile _ hmem) (by decide)
  · intro b hb
    have := List.head?_dropWhile_not (· != newline) t
    rw [Option.mem_def.1 hb] at this
    simpa using this

theorem exists_around {t : Text} {start stop : Nat} (hrange : start ≤ stop) (hstop : stop ≤ t.length) :
    ∃ front left right back, Around t start (slice t start stop) front left right back := by
  obtain ⟨front, left, hbefore, hleft, hfront⟩ := exists_lineStart (t.take start)
  obtain ⟨right, back, hbehind, hright, hback⟩ := exists_lineStop (t.drop stop)
  have hparts : t = t.take start ++ (slice t start stop ++ t.drop stop) := by
    have htake : (t.take stop).take start = t.take start := by rw [List.take_take, Nat.min_eq_left hrange]
    rw [← List.append_assoc, slice, ← htake, List.take_append_drop, List.take_append_drop]
  refine ⟨front, left, right, back, ?_, ?_, hleft, hright, hfront, hback⟩
  · conv_lhs => rw [hparts, hbefore, hbehind]
    simp only [List.append_assoc]
  · rw [← hbefore, List.length_take]
    omega

/-! ## Counting -/

theorem afterLines_append {front : Text} (hfront : ∀ b ∈ front.getLast?, b = newline) (rest : Text) :
    afterLines (front.count newline) (front ++ rest) = some rest := by
  induction front with
  | nil => cases rest <;> rfl
  | cons b front ih =>
    have hrest : ∀ c ∈ front.getLast?, c = newline := by
      intro c hc
      refine hfront c ?_
      rw [List.getLast?_cons, Option.mem_def.1 hc]
      rfl
    by_cases hb : b = newline
    · rw [hb, List.count_cons_self, List.cons_append, afterLines, if_pos rfl, ih hrest]
    · -- the front ends with a line end, which is still to come
      have hmem : newline ∈ front := by
        rcases List.eq_nil_or_concat front with rfl | ⟨init, c, rfl⟩
        · exact absurd (hfront b rfl) hb
        · rw [hrest c (by simp)]
          simp
      obtain ⟨n, hn⟩ := Nat.exists_eq_add_one_of_ne_zero (List.count_pos_iff.2 hmem).ne'
      rw [List.count_cons_of_ne hb, hn, List.cons_append, afterLines, if_neg hb, ← hn, ih hrest]

theorem firstLines_append (lines : Text) {back : Text} (hback : ∀ b ∈ back.head?, b = newline) :
    firstLines (lines.count newline + 1) (lines ++ back) = if back = [] then none else some lines := by
  induction lines with
  | nil =>
    cases back with
    | nil => rfl
    | cons b back => rw [hback b rfl]; rfl
  | cons b lines ih =>
    have hstep : firstLines ((b :: lines).count newline + 1) (b :: lines ++ back) =
        (firstLines (lines.count newline + 1) (lines ++ back)).map (b :: ·) := by
      rw [List.cons_append, firstLines_cons (Nat.succ_pos _)]
      by_cases hb : b = newline
      · rw [hb, List.count_cons_self, if_pos rfl, if_neg (by omega), Nat.succ_sub_one]
      · rw [List.count_cons_of_ne hb, if_neg hb]
    rw [hstep, ih]
    split <;> rfl

theorem trimSuffix_newline {t : Text} (h : t.getLast? ≠ some newline) : trimSuffix "\n" t = t := by
  have hsuffix : ¬ (Text.ofString "\n").isSuffixOf t = true := by
    rw [List.isSuffixOf_iff_suffix]
    rintro ⟨init, rfl⟩
    exact h List.getLast?_concat
  unfold trimSuffix dropSuffix?
  rw [if_neg hsuffix]
  rfl

variable {t part front left right back : Text} {start : Nat}

namespace Around

theorem count_left (h : Around t start part front left right back) : left.count newline = 0 :=
  List.count_eq_zero.2 h.left

theorem count_right (h : Around t start part front left right back) : right.count newline = 0 :=
  List.count_eq_zero.2 h.right

theorem take_start (h : Around t start part front left right back) : t.take start = front ++ left := by
  have hparts : t = front ++ left ++ (part ++ right ++ back) := by rw [h.parts]; simp only [List.append_assoc]
  rw [hparts, h.start, List.take_left]

theorem take_stop (h : Around t start part front left right back) :
    t.take (start + part.length) = front ++ left ++ part := by
  have hparts : t = front ++ left ++ part ++ (right ++ back) := by rw [h.parts]; simp only [List.append_assoc]
  rw [hparts, h.start, ← List.length_append, List.take_left]

theorem rowAt_start (h : Around t start part front left right back) : rowAt t start = front.count newline := by
  rw [rowAt, h.take_start, List.count_append, h.count_left, Nat.add_zero]

theorem rowAt_stop (h : Around t start part front left right back) :
    rowAt t (start + part.length) = front.count newline + part.count newline := by
  rw [rowAt, h.take_stop, List.count_append, List.count_append, h.count_left, Nat.add_zero]

/-- The lines end with no line end if the part does not. -/
theorem getLast?_ne (h : Around t start part front left right back) (hpart : part.getLast? ≠ some newline) :
    (left ++ part ++ right).getLast? ≠ some newline := by
  intro hlast
  rw [List.getLast?_append, List.getLast?_append] at hlast
  cases hr : right.getLast? with
  | some b =>
    rw [hr, Option.some_or] at hlast
    exact h.right (List.mem_of_getLast? (hr.trans hlast))
  | none =>
    rw [hr, Option.none_or] at hlast
    cases hp : part.getLast? with
    | some b =>
      rw [hp, Option.some_or] at hlast
      exact hpart (hp.trans hlast)
    | none =>
      rw [hp, Option.none_or] at hlast
      exact h.left (List.mem_of_getLast? hlast)

end Around

end Text

namespace FileCache

open Text

variable {t part front left right back : Text} {start : Nat}

/-- The lines from the first byte of a part to the byte behind it. -/
theorem linesOf_around (h : Around t start part front left right back) (hpart : part.getLast? ≠ some newline)
    (path : Text) :
    linesOf t path (rowAt t start + 1) (rowAt t (start + part.length) + 1) = .ok (left ++ part ++ right) := by
  have hcount : rowAt t (start + part.length) + 1 + 1 - (rowAt t start + 1) =
    (left ++ part ++ right).count newline + 1 := by
    rw [List.count_append, List.count_append, h.count_left, h.count_right, h.rowAt_start, h.rowAt_stop]
    omega
  have hafter : afterLines (rowAt t start + 1 - 1) t = some (left ++ part ++ right ++ back) := by
    rw [Nat.add_sub_cancel, h.rowAt_start]
    conv_lhs => rw [h.parts]
    exact afterLines_append h.front _
  unfold linesOf
  simp only [hafter, hcount, firstLines_append _ h.back]
  split
  · rename_i hnil
    rw [hnil, List.append_nil, Option.getD_none, trimSuffix_newline (h.getLast?_ne hpart)]
  · rw [Option.getD_some]

end FileCache

/-! ## Recorded declarations -/

/-- Every node covers a range of the source. -/
def SyntaxTree.Covers (t : SyntaxTree) : Prop := ∀ n ∈ t.root.preorder, n.start ≤ n.stop ∧ n.stop ≤ t.source.length

instance (t : SyntaxTree) : Decidable t.Covers := inferInstanceAs (Decidable (∀ n ∈ t.root.preorder, _))

/-- The text of a node with the lines around it. -/
theorem Node.exists_around {n : Node} {src : Text} (hrange : n.start ≤ n.stop) (hstop : n.stop ≤ src.length) :
    n.stop = n.start + (n.text src).length ∧
      ∃ front left right back, Text.Around src n.start (n.text src) front left right back := by
  have htext : n.text src = Text.slice src n.start n.stop := if_neg (by omega)
  refine ⟨?_, htext ▸ Text.exists_around hrange hstop⟩
  rw [htext, Text.slice, List.length_drop, List.length_take]
  omega

namespace SymbolFact

theorem lines_ofDeclaration (tree : SyntaxTree) (category : String) (name : Text) (c : Cursor) :
    (ofDeclaration tree category name c).startLine = tree.lineAt c.node.start ∧
      (ofDeclaration tree category name c).endLine = tree.lineAt c.node.stop := by
  unfold ofDeclaration
  split
  · exact ⟨rfl, rfl⟩
  · split
    · exact ⟨rfl, rfl⟩
    · split <;> exact ⟨rfl, rfl⟩

end SymbolFact

namespace FileFacts

theorem lines_symbolAt? {g : Grammar} {tree : SyntaxTree} {c : Cursor} {s : SymbolFact}
    (h : symbolAt? g tree c = some s) :
    s.startLine = tree.lineAt c.node.start ∧ s.endLine = tree.lineAt c.node.stop := by
  obtain ⟨s', hs', rfl⟩ := Option.map_eq_some_iff.1 h
  obtain ⟨d, -, rfl⟩ := Option.map_eq_some_iff.1 hs'
  have hlines := SymbolFact.lines_ofDeclaration tree d.1 (d.2.text tree.source) c
  split <;> exact hlines

/-- Symbols are the records of the declarations of a tree. From any cache that gives the source, the lines of the
record of a declaration are fetched, and they are the text of the declaration with the rest of its first and of its
last line around it, unless it ends with a line end itself. -/
theorem snippet_around (path : Text) (g : Grammar) {tree : SyntaxTree} (hcovers : tree.Covers) :
    (∀ s, s ∈ (ofTree path g tree).symbols ↔ ∃ c, RecordedAt g tree c s) ∧
    ∀ c s, RecordedAt g tree c s → (c.node.text tree.source).getLast? ≠ some Text.newline →
      ∃ front left right back, Text.Around tree.source c.node.start (c.node.text tree.source) front left right back ∧
        ∀ (cache : FileCache) (d : Disk) (file : Text), (cache.fetch d file).result = .ok tree.source →
          (cache.fetchLines d file s.startLine s.endLine).result = .ok (left ++ c.node.text tree.source ++ right) := by
  refine ⟨fun s => mem_symbols, fun c s hs hlast => ?_⟩
  obtain ⟨hrange, hstop⟩ := hcovers c.node (Cursor.node_mem_preorder hs.1)
  obtain ⟨hlength, front, left, right, back, haround⟩ := Node.exists_around hrange hstop
  refine ⟨front, left, right, back, haround, fun cache d file hfetch => ?_⟩
  obtain ⟨hfirst, hend⟩ := lines_symbolAt? hs.2
  have hrows : Text.rowAt tree.source c.node.start ≤ Text.rowAt tree.source c.node.stop := by
    rw [hlength, haround.rowAt_start, haround.rowAt_stop]
    exact Nat.le_add_right _ _
  unfold SyntaxTree.lineAt at hfirst hend
  rw [FileCache.result_fetchLines hfetch (by omega) (by omega), hfirst, hend, Int.toNat_natCast,
    Int.toNat_natCast, hlength]
  exact FileCache.linesOf_around haround hlast file

/-- Two declarations on one line, the second of which goes on over the last line, that has no line end. -/
def lastLines : SyntaxTree :=
  ⟨"let a; class B\n\x7b\x7d //", .named "program" none 0 20
    [.named "lexical_declaration" none 0 6
      [.token "let" 0 3, .named "variable_declarator" none 4 5 [.named "identifier" (some "name") 4 5 []],
      .token ";" 5 6],
    .named "class_declaration" none 7 17
      [.token "class" 7 12, .named "identifier" (some "name") 13 14 [],
        .named "class_body" (some "body") 15 17 [.token "\x7b" 15 16, .token "\x7d" 16 17]],
    .named "comment" none 18 20 []]⟩

/-- The place of the class. -/
def lastClass : Cursor := ((Cursor.ofRoot lastLines.root).down? [1]).getD (.ofRoot lastLines.root)

/-- The class ends in the middle of the last line and begins in the middle of its first. -/
theorem lastClass_around : lastLines.Covers ∧ ∃ s, RecordedAt .javascript lastLines lastClass s ∧
    (lastClass.node.text lastLines.source).getLast? ≠ some Text.newline ∧
      ∃ front left right back,
        Text.Around lastLines.source 7 (lastClass.node.text lastLines.source) front left right back ∧
        ((FileCache.empty 1).fetchLines
          ⟨.dir [("b.js", .file lastLines.source 0o644)], "/"⟩ "/b.js" s.startLine s.endLine).result =
          .ok (left ++ lastClass.node.text lastLines.source ++ right) := by
  have hcovers : lastLines.Covers := by decide +kernel
  have hplace : lastClass ∈ (Cursor.ofRoot lastLines.root).preorder :=
    Cursor.mem_preorder.2 (Cursor.contains_of_down? (show (Cursor.ofRoot lastLines.root).down? [1] = some _ from rfl))
  have hrecord : SymbolFact.at? .javascript lastLines lastClass =
      some ⟨"class", "B", 1, 2, false, [], [], false, false, [], [], []⟩ := rfl
  have hrecorded := congrArg (Option.map fun s : SymbolFact =>
    if (exportedNames (ExportFact.extract .javascript lastLines)).contains s.name then { s with exported := true }
      else s) hrecord
  have hlast : (lastClass.node.text lastLines.source).getLast? ≠ some Text.newline := by decide
  obtain ⟨front, left, right, back, haround, hfetched⟩ :=
    (snippet_around "b.js" .javascript hcovers).2 lastClass _ ⟨hplace, hrecorded⟩ hlast
  exact ⟨hcovers, _, ⟨hplace, hrecorded⟩, hlast, front, left, right, back, haround, hfetched _ _ _ rfl⟩

end FileFacts

end DocAtlas

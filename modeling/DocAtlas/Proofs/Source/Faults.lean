/-
Where malformed sources are reported. The search for a node at fault enters only the subtrees that hold one
and ends at its first hit. A node holds a fault exactly if one of the nodes listed for it in document order is at
fault, so nothing is passed over that would come first, and a tree that is reported has a node to report it at.
-/
import DocAtlas.Proofs.Text.Pieces
import DocAtlas.Proofs.Tree.Nodes
import DocAtlas.Source.Parsers

namespace DocAtlas

/-! ## Places in a text -/

namespace Text

/-- Line and column of an offset, counting from one: `above` are the lines that end before it, and `lead`
stands before it on its own line. -/
def IsPlace (t : Text) (offset line column : Nat) : Prop :=
  ∃ above lead, t.take offset = above ++ lead ∧ (∀ b ∈ above.getLast?, b = newline) ∧ newline ∉ lead ∧
    line = above.count newline + 1 ∧ column = lead.length + 1

/-- Rows and columns are counted in the lines and the beginning of one that stand before the offset. -/
theorem row_column_of_take {t above lead : Text} {offset : Nat} (htake : t.take offset = above ++ lead)
    (habove : ∀ b ∈ above.getLast?, b = newline) (hlead : newline ∉ lead) :
    rowAt t offset = above.count newline ∧ columnAt t offset = lead.length := by
  have hsolid : ∀ b ∈ lead.reverse, (b != newline) = true := fun b hb => by
    rw [bne_iff_ne]
    rintro rfl
    exact hlead (List.mem_reverse.1 hb)
  have hend : above.reverse.takeWhile (· != newline) = [] := by
    rcases List.eq_nil_or_concat above with rfl | ⟨lines, b, rfl⟩
    · rfl
    · rw [habove b (by simp)]
      simp
  constructor
  · rw [rowAt, htake, List.count_append, List.count_eq_zero.2 hlead, Nat.add_zero]
  · rw [columnAt, htake, List.reverse_append, List.takeWhile_append_of_pos hsolid, hend, List.append_nil,
      List.length_reverse]

/-- A place is told by the row and the column of its offset. -/
theorem isPlace_iff {t : Text} {offset line column : Nat} :
    t.IsPlace offset line column ↔ line = rowAt t offset + 1 ∧ column = columnAt t offset + 1 := by
  constructor
  · rintro ⟨above, lead, htake, habove, hlead, rfl, rfl⟩
    obtain ⟨hrow, hcolumn⟩ := row_column_of_take htake habove hlead
    rw [hrow, hcolumn]
    exact ⟨rfl, rfl⟩
  · rintro ⟨rfl, rfl⟩
    obtain ⟨above, lead, htake, hlead, habove⟩ := exists_lineStart (t.take offset)
    obtain ⟨hrow, hcolumn⟩ := row_column_of_take htake habove hlead
    exact ⟨above, lead, htake, habove, hlead, by rw [hrow], by rw [hcolumn]⟩

end Text

/-! ## Nodes at fault -/

namespace Node

/-- Whether the node itself is at fault: text that did not fit in, or made up to go on. -/
def isFaulty (n : Node) : Bool := n.info.error || n.info.missing

/-- The first node at fault in a tree, with its nodes in document order. -/
def IsFirstFault (root n : Node) : Prop :=
  ∃ before after, root.preorder = before ++ n :: after ∧ n.isFaulty = true ∧ ∀ m ∈ before, m.isFaulty = false

/-- A node holds a fault if it or a node below it is at fault. -/
theorem hasFault_iff {n : Node} : n.hasFault = true ↔ ∃ m ∈ n.preorder, m.isFaulty = true := by
  induction n using Node.ind with
  | h n ih =>
    have hbelow : (∃ c ∈ n.children, c.hasFault = true) ↔ ∃ m, (∃ c ∈ n.children, m ∈ c.preorder) ∧
      m.isFaulty = true := by
      constructor
      · rintro ⟨c, hc, hfault⟩
        obtain ⟨m, hm, hfaulty⟩ := (ih c hc).1 hfault
        exact ⟨m, ⟨c, hc, hm⟩, hfaulty⟩
      · rintro ⟨m, ⟨c, hc, hm⟩, hfaulty⟩
        exact ⟨c, hc, (ih c hc).2 ⟨m, hm, hfaulty⟩⟩
    have hself : (n.info.error || n.info.missing) = n.isFaulty := rfl
    rw [hasFault_eq, preorder_eq, hself, Bool.or_eq_true, List.any_eq_true, hbelow]
    simp only [List.mem_cons, List.mem_flatMap, exists_eq_or_imp]

/-- A list in which nothing holds a fault has no first one. -/
theorem find?_flatMap_preorder {cs : List Node} (h : cs.any hasFault = false) :
    (cs.flatMap preorder).find? isFaulty = none := by
  rw [List.find?_eq_none]
  intro m hm hfaulty
  obtain ⟨c, hc, hm⟩ := List.mem_flatMap.1 hm
  exact List.any_eq_false.1 h c hc (hasFault_iff.2 ⟨m, hm, hfaulty⟩)

theorem firstFaultOf?_eq {cs : List Node} (h : ∀ c ∈ cs, c.firstFault? = c.preorder.find? isFaulty) :
    firstFaultOf? cs = (cs.flatMap preorder).find? isFaulty := by
  induction cs with
  | nil =>
    rw [firstFaultOf?]
    rfl
  | cons c cs ih =>
    obtain ⟨hc, hcs⟩ := List.forall_mem_cons.1 h
    rw [firstFaultOf?, hc, ih hcs, List.flatMap_cons, List.find?_append]

/-- The search comes to the first node at fault in document order. Where it turns away there is none. -/
theorem firstFault?_eq (n : Node) : n.firstFault? = n.preorder.find? isFaulty := by
  induction n using Node.ind with
  | h n ih =>
    obtain ⟨i, cs⟩ := n
    rw [children_mk] at ih
    rw [preorder_eq, List.find?_cons, firstFault?, firstFaultOf?_eq ih, anyHasFault_eq, children_mk]
    change (if isFaulty (mk i cs) = true then _ else _) = _
    cases isFaulty (mk i cs) with
    | true => rfl
    | false =>
      rw [if_neg Bool.false_ne_true]
      cases hany : cs.any hasFault with
      | true => rfl
      | false => exact (find?_flatMap_preorder hany).symm

theorem firstFault?_eq_some {root n : Node} : root.firstFault? = some n ↔ root.IsFirstFault n := by
  rw [firstFault?_eq, List.find?_eq_some_iff_append]
  constructor
  · rintro ⟨hfaulty, before, after, hsplit, hbefore⟩
    exact ⟨before, after, hsplit, hfaulty, fun m hm => by simpa using hbefore m hm⟩
  · rintro ⟨before, after, hsplit, hfaulty, hbefore⟩
    exact ⟨hfaulty, before, after, hsplit, fun m hm => by simp [hbefore m hm]⟩

/-- The search comes to a node exactly in trees that hold a fault. -/
theorem isSome_firstFault? {root : Node} : root.firstFault?.isSome = true ↔ root.hasFault = true := by
  rw [firstFault?_eq, List.find?_isSome, hasFault_iff]

end Node

/-! ## Reports -/

namespace ParseFault

/-- A tree is reported at the first node at fault, if it has one. -/
theorem ofTree?_eq (t : SyntaxTree) :
    ofTree? t = t.root.firstFault?.map fun n => ⟨[], t.lineAt n.start, t.columnAt n.start, describe t.source n⟩ := by
  unfold ofTree?
  cases hfirst : t.root.firstFault? with
  | none =>
    have hsound : ¬ t.root.hasFault = true := by
      rw [← Node.isSome_firstFault?, hfirst]
      exact Bool.false_ne_true
    rw [if_neg hsound]
    rfl
  | some n =>
    rw [if_pos (Node.isSome_firstFault?.1 (Option.isSome_of_eq_some hfirst))]
    rfl

/-- A bracket that is not closed on the second line. -/
def unclosed : Node :=
  .named "program" none 0 4 [.named "expression_statement" none 0 1 [.token "a" 0 1],
    .named "expression_statement" none 2 4 [.token "(" 2 3, .token "b" 3 4,
    .mk ⟨")", none, 4, 4, false, false, true, false⟩ []]]

example : ParseFault.ofTree? ⟨"a\n(b", unclosed⟩ = some ⟨[], 2, 3, "missing )"⟩ := by decide

/-- The report of a source: at this node of its tree, with the place of the node and what is wrong there. -/
structure IsAt (f : ParseFault) (src : Text) (n : Node) : Prop where
  path : f.path = []
  place : src.IsPlace n.start f.line f.column
  what : f.what = describe src n

theorem ofTree?_eq_some {src : Text} {root : Node} {f : ParseFault} :
    ofTree? ⟨src, root⟩ = some f ↔ ∃ n, root.IsFirstFault n ∧ f.IsAt src n := by
  rw [ofTree?_eq, Option.map_eq_some_iff]
  refine exists_congr fun n => and_congr Node.firstFault?_eq_some ?_
  constructor
  · rintro rfl
    exact ⟨rfl, Text.isPlace_iff.2 ⟨rfl, rfl⟩, rfl⟩
  · rintro ⟨hpath, hplace, hwhat⟩
    obtain ⟨hline, hcolumn⟩ := Text.isPlace_iff.1 hplace
    obtain ⟨path, line, column, what⟩ := f
    cases hpath
    cases hline
    cases hcolumn
    cases hwhat
    rfl

end ParseFault

namespace Parsers

variable {gs : Grammars} {g : Grammar} {src : Text}

/-- A parse reports a malformed source exactly as its tree is reported. -/
theorem fault_parse (p : Parsers) (f : ParseFault) :
    (p.parse gs g src).fault = some (.parse f) ↔ ∃ root, gs g src = some root ∧
    ParseFault.ofTree? ⟨src, root⟩ = some f := by
  unfold parse
  simp only
  cases gs g src with
  | none => simp
  | some root =>
    simp only [Option.some.injEq, exists_eq_left']
    cases ParseFault.ofTree? ⟨src, root⟩ <;> simp

/-- A parse reports a malformed source exactly if its tree has a node at fault, and then at the first one in document
order. The search for this node comes to one in every tree that holds a fault. -/
theorem parse_reports_first (gs : Grammars) (p : Parsers) (g : Grammar) (src : Text) :
    ((∃ f, (p.parse gs g src).fault = some (.parse f)) ↔
      ∃ root, gs g src = some root ∧ ∃ n ∈ root.preorder, n.isFaulty = true) ∧
    (∀ f, (p.parse gs g src).fault = some (.parse f) ↔
      ∃ root, gs g src = some root ∧ ∃ n, root.IsFirstFault n ∧ f.IsAt src n) ∧
    ∀ root : Node, root.firstFault?.isSome = true ↔ root.hasFault = true := by
  refine ⟨?_, fun f => ?_, fun root => Node.isSome_firstFault?⟩
  · simp only [fault_parse, ← Node.hasFault_iff, ← Node.isSome_firstFault?, ParseFault.ofTree?_eq]
    rw [exists_comm]
    refine exists_congr fun root => ?_
    rw [exists_and_left, ← Option.isSome_iff_exists, Option.isSome_map]
  · simp only [fault_parse, ParseFault.ofTree?_eq_some]

end Parsers

end DocAtlas

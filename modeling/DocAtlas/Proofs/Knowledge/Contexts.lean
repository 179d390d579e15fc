/-
Two ways to the name of a function. A survey comes from above: a declarator binds its name to the function
that is its value, in parentheses or not. The record of a call comes from below: of the functions around the
call the nearest with a name counts, and one without a name of its own has that of the declarator directly
above it. The two agree on a function that is the value itself. Parentheses stop the way up, so a function in
them is looked through, and the call has the context of the declarator.
-/
import DocAtlas.Component.Candidate
import DocAtlas.Knowledge.Calls
import DocAtlas.Proofs.Component.Alike
import DocAtlas.Proofs.Tree.Querying

namespace DocAtlas

namespace Cursor

/-! ## The function around a place -/

/-- The nearest function on the way up. -/
def enclosingIn? : List Frame → Option Cursor
  | [] => none
  | f :: above => if f.parent.isFunction then some ⟨f.parent, above⟩ else enclosingIn? above

/-- The nearest function around a place. -/
def enclosing? (c : Cursor) : Option Cursor := enclosingIn? c.above

/-- What stands around a node in parentheses: the parentheses, and what stands around them. -/
theorem ancestors_of_stripParens? {c d : Cursor} (h : c.stripParens? = some d) :
    ∃ ps, d.ancestors = ps ++ c.ancestors ∧ (∀ p ∈ ps, p.shape = .parenthesized) ∧ (ps = [] → d = c) := by
  obtain ⟨n, above⟩ := c
  induction n using Node.ind generalizing above with
  | h n ih =>
    rw [stripParens?_eq] at h
    split at h
    · rename_i hs
      obtain ⟨e, he, hd⟩ := Option.bind_eq_some_iff.1 h
      have hm := firstProper?_mem he
      obtain ⟨ps, hps, hshape, -⟩ := ih e.node (node_mem_of_child hm) e.above hd
      change d.ancestors = ps ++ e.ancestors at hps
      refine ⟨ps ++ [n], ?_, ?_, by simp⟩
      · rw [hps, ancestors_of_child hm, List.append_assoc]
        rfl
      · rw [List.forall_mem_append, List.forall_mem_singleton]
        exact ⟨hshape, hs⟩
    · cases h
      exact ⟨[], rfl, by simp, fun _ => rfl⟩

theorem node_of_parent? {c p : Cursor} (h : c.parent? = some p) : c.ancestors.head? = some p.node := by
  obtain ⟨n, above⟩ := c
  cases above with
  | nil => cases h
  | cons f above =>
    cases h
    rfl

end Cursor

namespace CallFact

/-! ## Records of calls -/

/-- The fact is the record of the call. -/
def Records (g : Grammar) (tree : SyntaxTree) (call : Cursor) (fact : CallFact) : Prop :=
  ∃ m ∈ QueryKind.calls.run g tree.root, m.get? "call.expression" = some call ∧
    (ofMatch? tree m).map Prod.snd = some fact

/-- A call by a name is recorded wherever it stands. -/
theorem records_of_down? {g : Grammar} {tree : SyntaxTree} {call : Cursor} {p : Pattern} {captures : List Capture}
    {fact : CallFact} (way : List Nat) (hway : (Cursor.ofRoot tree.root).down? way = some call)
    (hp : (QueryKind.calls.patterns g).head? = some p) (hcaptures : p.captures? call = some captures)
    (hcall : (Match.mk 0 captures).get? "call.expression" = some call)
    (hfact : (ofMatch? tree ⟨0, captures⟩).map Prod.snd = some fact) : Records g tree call fact := by
  obtain ⟨ps, hps⟩ := List.head?_eq_some_iff.1 hp
  refine ⟨⟨0, captures⟩, QueryKind.mem_run.2 ⟨call, Cursor.mem_preorder.2 (Cursor.contains_of_down? hway), ?_⟩,
    hcall, hfact⟩
  rw [QueryKind.matchesAt, hps, List.zipIdx_cons]
  exact List.mem_filterMap.2 ⟨(p, 0), List.mem_cons_self .., Option.map_eq_some_iff.2 ⟨captures, hcaptures, rfl⟩⟩

theorem Records.context_eq {g : Grammar} {tree : SyntaxTree} {call : Cursor} {fact : CallFact}
    (h : Records g tree call fact) :
    fact.context = contextOf tree.source call.ancestors := by
  obtain ⟨m, -, hcall, hfact⟩ := h
  unfold ofMatch? at hfact
  rw [hcall] at hfact
  cases hname : m.get? "call.name" with
  | none =>
    rw [hname] at hfact
    cases hfact
  | some name =>
    rw [hname] at hfact
    cases hfact
    rfl

/-! ## The way up -/

section Kinds

variable {n : Node}

theorem kind_of_declarator (h : n.shape = .declarator) : n.kind = "variable_declarator" := by
  unfold Node.shape Shape.ofKind at h
  split at h <;> first | assumption | cases h

theorem kind_of_parenthesized (h : n.shape = .parenthesized) : n.kind = "parenthesized_expression" := by
  unfold Node.shape Shape.ofKind at h
  split at h <;> first | assumption | cases h

theorem kind_of_unnamed (h : n.shape = .arrow ∨ n.shape = .functionExpr) :
    n.kind ∈ ["arrow_function", "function_expression", "function", "generator_function"] := by
  unfold Node.shape Shape.ofKind at h
  split at h <;> first | (rename_i hk; rw [hk]; decide) | (rcases h with h | h <;> cases h)

end Kinds

section Context

variable {src : Text} {p : Node} {above : List Node}

/-- A node that is no function is passed. -/
theorem contextOf_cons (h : p.isFunction = false) : contextOf src (p :: above) = contextOf src above := by
  rw [contextOf]
  split
  case h_8 => rfl
  -- every other branch is one for a kind of function
  all_goals
    rename_i hk
    rw [Node.isFunction, Node.shape, hk] at h
    exact absurd h (by decide)

theorem contextOf_append {ps : List Node} (h : ∀ p ∈ ps, p.isFunction = false) :
    contextOf src (ps ++ above) = contextOf src above := by
  induction ps with
  | nil => rfl
  | cons p ps ih =>
    obtain ⟨hp, hps⟩ := List.forall_mem_cons.1 h
    rw [List.cons_append, contextOf_cons hp, ih hps]

/-- A function without a name of its own has the name it is bound to, or none. -/
theorem contextOf_unnamed (hs : p.shape = .arrow ∨ p.shape = .functionExpr) (hname : p.child? "name" = none) :
    contextOf src (p :: above) =
      if bindingName src above.head? = [] then contextOf src above else bindingName src above.head? := by
  have hkind := kind_of_unnamed hs
  rw [contextOf, hname]
  simp only [List.mem_cons, List.not_mem_nil, or_false] at hkind
  rcases hkind with hk | hk | hk | hk <;> simp only [hk, List.isEmpty_iff]

/-- The context of a call begins at the function around it. -/
theorem contextOf_enclosing {c f : Cursor} (h : c.enclosing? = some f) :
    contextOf src c.ancestors = contextOf src (f.node :: f.ancestors) := by
  obtain ⟨n, frames⟩ := c
  unfold Cursor.enclosing? at h
  unfold Cursor.ancestors
  simp only at h ⊢
  induction frames with
  | nil => cases h
  | cons frame frames ih =>
    rw [Cursor.enclosingIn?] at h
    split at h
    · cases h
      rfl
    · rename_i hf
      rw [List.map_cons, contextOf_cons (by simpa using hf)]
      exact ih h

end Context

/-! ## The two names -/

theorem bindingName_declarator {src : Text} {p name : Node} (hs : p.shape = .declarator)
    (hname : p.child? "name" = some name) (hid : name.shape = .identifier) :
      bindingName src (some p) = name.text src := by
  simp [bindingName, kind_of_declarator hs, hname, Node.kind_of_identifier hid]

theorem bindingName_parenthesized {src : Text} {p : Node} (hs : p.shape = .parenthesized) :
    bindingName src (some p) = [] := by
  simp [bindingName, kind_of_parenthesized hs]

/-- What a candidate at a declarator is made of. -/
theorem ofDeclarator?_eq_some {k : Classifier} {c : Cursor} {cand : Candidate}
    (h : Candidate.ofDeclarator? k c = some cand) :
    ∃ name value, c.node.child? "name" = some name ∧ name.shape = .identifier ∧ cand.name = name.text k.src ∧
      c.child? "value" = some value ∧ value.stripParens? = some cand.node ∧
        Candidate.boundKind? cand.node.node.shape = some cand.kind := by
  unfold Candidate.ofDeclarator? at h
  split at h
  · rename_i name inner hname hvalue
    split at h
    · rename_i hid
      obtain ⟨kind, hkind, rfl⟩ := Option.map_eq_some_iff.1 h
      obtain ⟨value, hvalue, hstrip⟩ := Option.bind_eq_some_iff.1 hvalue
      exact ⟨name, value, hname, by simpa using hid, rfl, hvalue, hstrip, hkind⟩
    · cases h
  · cases h

theorem shape_of_boundKind? {s : Shape} {kind : ComponentKind} (h : Candidate.boundKind? s = some kind)
    (hf : s.isFunction = true) :
    s = .arrow ∨ s = .functionExpr := by
  cases s <;> first | exact .inl rfl | exact .inr rfl | exact absurd hf (by decide) | cases h

/-- A declarator binds its name to a function without one. A call directly in the function has this name as its
context exactly if the function is the value itself, in no parentheses, or the declarator stands in a function
that happens to have the same name. -/
theorem context_eq_iff {k : Classifier} {g : Grammar} {tree : SyntaxTree} (hsource : k.src = tree.source) {c : Cursor}
    {cand : Candidate} (hc : c.node.shape = .declarator) (hcand : Candidate.at? k c = some cand)
    (hf : cand.node.node.isFunction = true) (hown : cand.node.node.child? "name" = none) {call : Cursor}
    {fact : CallFact} (hcall : Records g tree call fact) (hin : call.enclosing? = some cand.node) :
    fact.context = cand.name ↔
      (cand.node.parent? = some c ∧ cand.name ≠ []) ∨ contextOf tree.source c.ancestors = cand.name := by
  have hdeclared : Candidate.ofDeclarator? k c = some cand := by
    unfold Candidate.at? at hcand
    rwa [hc] at hcand
  obtain ⟨name, value, hname, hid, hnamed, hvalue, hstrip, hkind⟩ := ofDeclarator?_eq_some hdeclared
  have hm := Cursor.child?_mem hvalue
  obtain ⟨ps, hps, hparens, hdirect⟩ := Cursor.ancestors_of_stripParens? hstrip
  have habove : cand.node.ancestors = ps ++ c.node :: c.ancestors := by rw [hps, Cursor.ancestors_of_child hm]
  have hfunction : ∀ p ∈ ps ++ [c.node], p.isFunction = false := by
    rw [List.forall_mem_append, List.forall_mem_singleton]
    refine ⟨fun p hp => ?_, ?_⟩
    · rw [Node.isFunction, hparens p hp]
      rfl
    · rw [Node.isFunction, hc]
      rfl
  have hpassed : contextOf tree.source cand.node.ancestors = contextOf tree.source c.ancestors := by
    rw [habove, show ps ++ c.node :: c.ancestors = (ps ++ [c.node]) ++ c.ancestors by simp, contextOf_append hfunction]
  have hcontext : fact.context = if bindingName tree.source cand.node.ancestors.head? = [] then
      contextOf tree.source c.ancestors else bindingName tree.source cand.node.ancestors.head? := by
    rw [hcall.context_eq, contextOf_enclosing hin, contextOf_unnamed (shape_of_boundKind? hkind hf) hown, hpassed]
  cases ps with
  | nil =>
    -- the function is the value
    have hparent : cand.node.parent? = some c := by
      rw [hdirect rfl]
      exact Cursor.parent?_of_child hm
    have hbound : bindingName tree.source cand.node.ancestors.head? = cand.name := by
      rw [habove, List.nil_append, List.head?_cons, bindingName_declarator hc hname hid, hnamed, hsource]
    rw [hcontext, hbound]
    by_cases hempty : cand.name = [] <;> simp [hempty, hparent]
  | cons p ps =>
    -- the node above the function is a parenthesis, which binds nothing
    have hshape := hparens p (List.mem_cons_self ..)
    have hbound : bindingName tree.source cand.node.ancestors.head? = [] := by
      rw [habove, List.cons_append, List.head?_cons, bindingName_parenthesized hshape]
    have hparent : cand.node.parent? ≠ some c := by
      intro h
      have hhead := Cursor.node_of_parent? h
      rw [habove, List.cons_append, List.head?_cons] at hhead
      cases hhead
      rw [hc] at hshape
      cases hshape
    rw [hcontext, if_pos hbound]
    simp [hparent]

/-! ## A function in parentheses -/

/-- The function `() => f()`. -/
def callingArrow (field : Option String) (start : Nat) : Node :=
  .named "arrow_function" field start (start + 9)
    [.named "formal_parameters" (some "parameters") start (start + 2)
      [.token "(" start (start + 1), .token ")" (start + 1) (start + 2)],
      .token "=>" (start + 3) (start + 5),
      .named "call_expression" (some "body") (start + 6) (start + 9)
        [.named "identifier" (some "function") (start + 6) (start + 7) [],
          .named "arguments" (some "arguments") (start + 7) (start + 9)
            [.token "(" (start + 7) (start + 8), .token ")" (start + 8) (start + 9)]]]

/-- The file `const A = …;` with a value that ends at `stop`. -/
def boundTree (source : Text) (stop : Nat) (value : Node) : SyntaxTree :=
  ⟨source, .named "program" none 0 (stop + 1)
    [.named "lexical_declaration" none 0 (stop + 1)
      [.mk ⟨"const", some "kind", 0, 5, false, false, false, false⟩ [],
        .named "variable_declarator" none 6 stop [.named "identifier" (some "name") 6 7 [], .token "=" 8 9, value],
        .token ";" stop (stop + 1)]]⟩

def directTree : SyntaxTree := boundTree "const A = () => f();" 19 (callingArrow (some "value") 10)

def wrappedTree : SyntaxTree := boundTree "const A = (() => f());" 21
  (.named "parenthesized_expression" (some "value") 10 21 [.token "(" 10 11, callingArrow none 11, .token ")" 20 21])

/-- The place some way down a file. -/
def down (tree : SyntaxTree) (way : List Nat) : Cursor := ((Cursor.ofRoot tree.root).down? way).getD (.ofRoot tree.root)

/-- The candidate `A` in such a file, whose function is some way down. -/
def boundCandidate (tree : SyntaxTree) (way : List Nat) : Candidate := ⟨"A", .arrow, down tree way, down tree [0]⟩

def classifierOf (tree : SyntaxTree) : Classifier := ⟨defaultWrappers, tree.source⟩

theorem directCall_recorded : Records .javascript directTree (down directTree [0, 1, 2, 2]) ⟨"f", some [], "A", 1, 1⟩ :=
  records_of_down? [0, 1, 2, 2] rfl rfl rfl rfl rfl

theorem wrappedCall_recorded :
    Records .javascript wrappedTree (down wrappedTree [0, 1, 2, 1, 2]) ⟨"f", some [], "global", 1, 1⟩ :=
  records_of_down? [0, 1, 2, 1, 2] rfl rfl rfl rfl rfl

/-- The function that is the value itself gives its call the name. -/
theorem directCall_named : (classifierOf directTree).src = directTree.source ∧
    (down directTree [0, 1]).node.shape = .declarator ∧
      Candidate.at? (classifierOf directTree) (down directTree [0, 1]) = some (boundCandidate directTree [0, 1, 2]) ∧
        (boundCandidate directTree [0, 1, 2]).node.node.isFunction = true ∧
          (boundCandidate directTree [0, 1, 2]).node.node.child? "name" = none ∧
            Records .javascript directTree (down directTree [0, 1, 2, 2]) ⟨"f", some [], "A", 1, 1⟩ ∧
              (down directTree [0, 1, 2, 2]).enclosing? = some (boundCandidate directTree [0, 1, 2]).node ∧
                (⟨"f", some [], "A", 1, 1⟩ : CallFact).context = (boundCandidate directTree [0, 1, 2]).name := by
  have hparent : (boundCandidate directTree [0, 1, 2]).node.parent? = some (down directTree [0, 1]) := rfl
  have hname : (boundCandidate directTree [0, 1, 2]).name ≠ [] := by decide
  refine ⟨rfl, rfl, rfl, rfl, rfl, directCall_recorded, rfl, ?_⟩
  exact (context_eq_iff (k := classifierOf directTree) (c := down directTree [0, 1]) rfl rfl rfl rfl rfl
    directCall_recorded rfl).2 (.inl ⟨hparent, hname⟩)

/-- In parentheses the survey still finds the name, and the record of the call does not. -/
theorem wrappedCall_not_named : ¬ ∀ (k : Classifier) (g : Grammar) (tree : SyntaxTree) (c : Cursor) (cand : Candidate)
    (call : Cursor) (fact : CallFact), k.src = tree.source → tree.root.hasFault = false →
    (Cursor.ofRoot tree.root).Contains c → c.node.shape = .declarator → Candidate.at? k c = some cand →
    cand.node.node.isFunction = true → cand.node.node.child? "name" = none → Records g tree call fact →
    call.enclosing? = some cand.node → fact.context = cand.name := by
  intro h
  have hin : (Cursor.ofRoot wrappedTree.root).Contains (down wrappedTree [0, 1]) :=
    Cursor.contains_of_down? (show (Cursor.ofRoot wrappedTree.root).down? [0, 1] = some _ from rfl)
  have hnamed := h (classifierOf wrappedTree) .javascript wrappedTree (down wrappedTree [0, 1])
    (boundCandidate wrappedTree [0, 1, 2, 1]) _ _ rfl rfl hin rfl rfl rfl rfl wrappedCall_recorded rfl
  exact absurd hnamed (by decide)

end CallFact

end DocAtlas

/-
Queries over trees that differ by comments. No pattern is for comments, and what a pattern asks of a node
and of the children with a role comments do not touch; so corresponding nodes match the same patterns and
capture corresponding nodes. If the places of all nodes move, but never past each other, the
matches also come in the same order.
-/
import DocAtlas.Proofs.Order.Sorting
import DocAtlas.Proofs.Tree.Commented
import DocAtlas.Tree.Query
import DocAtlas.Knowledge.Symbols

namespace DocAtlas

/-- Records of places that have moved, but not past each other, keep their order. -/
theorem forall₂_inDocumentOrder {γ δ : Type} {S : γ → δ → Prop} {place : Nat → Nat} (hplace : StrictMono place)
    {l : List (Nat × γ)} {l' : List (Nat × δ)} (h : List.Forall₂ (fun x y => y.1 = place x.1 ∧ S x.2 y.2) l l') :
    List.Forall₂ S (inDocumentOrder l) (inDocumentOrder l') := by
  unfold inDocumentOrder
  rw [List.forall₂_map_left_iff, List.forall₂_map_right_iff]
  refine (forall₂_mergeSort h fun a a' b b' ha hb => ?_).imp fun _ _ hxy => hxy.2
  rw [ha.1, hb.1]
  exact decide_eq_decide.2 (hplace.le_iff_le).symm

/-! ## Patterns -/

/-- A node that only stands at the top of a tree. -/
def Node.isProgram (n : Node) : Bool := n.kind == "program" && n.info.field.isNone

theorem Node.isProgram_of_hasField {n : Node} {f : String} (h : n.hasField f = true) : n.isProgram = false := by
  unfold hasField at h
  unfold isProgram
  rw [beq_iff_eq.1 h]
  simp

/-- Related captures. -/
structure Capture.Alike (M : Cursor → Cursor → Prop) (x x' : Capture) : Prop where
  label : x'.label = x.label
  node : M x.node x'.node

/-- Related matches. -/
structure Match.Alike (M : Cursor → Cursor → Prop) (m m' : Match) : Prop where
  pattern : m'.pattern = m.pattern
  captures : List.Forall₂ (Capture.Alike M) m.captures m'.captures
  ne_nil : m.captures ≠ []

theorem Match.Alike.get? {M : Cursor → Cursor → Prop} {m m' : Match} (h : Match.Alike M m m') (label : String) :
    Option.Rel M (m.get? label) (m'.get? label) := by
  unfold Match.get?
  have hw : Woven (fun _ => False) (Capture.Alike M) m.captures m'.captures := .of_forall₂ h.captures
  have hfind := hw.find? (p := fun x => x.label == label) (q := fun x => x.label == label) (fun _ hb => hb.elim)
    fun _ _ _ hxy => by rw [hxy.label]
  generalize m.captures.find? (fun x => x.label == label) = o at hfind
  generalize m'.captures.find? (fun x => x.label == label) = o' at hfind
  cases hfind with
  | none => exact .none
  | some hxy => exact .some hxy.node

namespace Cursor.Pairing

variable {M : Cursor → Cursor → Prop} (h : Pairing M) {c c' : Cursor}

include h

theorem follow? (hc : M c c') (s : FieldStep) :
    Option.Rel (fun d d' => M d d' ∧ d.node.isProgram = false) (s.follow? c) (s.follow? c') := by
  unfold FieldStep.follow?
  have hfind := (h.children hc).find?_spec (p := fun d => s.accepts d.node) (q := fun d => s.accepts d.node)
    (fun d hd => ?_)
    fun d _ d' hdd => ?_
  · refine rel_imp hfind fun d _ d' hd => ⟨hd.1, ?_⟩
    have haccepts := hd.2.2
    unfold FieldStep.accepts at haccepts
    rw [Bool.and_eq_true, Bool.and_eq_true] at haccepts
    exact Node.isProgram_of_hasField haccepts.1.1
  · unfold FieldStep.accepts
    rw [hd.not_hasField, Bool.false_and, Bool.false_and]
  · unfold FieldStep.accepts
    rw [h.nodes.hasField (onNodes hdd), h.nodes.named (onNodes hdd), h.nodes.kind (onNodes hdd)]

theorem follow (hc : M c c') (hp : c.node.isProgram = false) (steps : List FieldStep) :
    Option.Rel (fun d d' => M d d' ∧ d.node.isProgram = false) (steps.foldl (fun at? s => at?.bind s.follow?) (some c))
      (steps.foldl (fun at? s => at?.bind s.follow?) (some c')) := by
  have hfold : ∀ o o', Option.Rel (fun d d' => M d d' ∧ d.node.isProgram = false) o o' →
      Option.Rel (fun d d' => M d d' ∧ d.node.isProgram = false) (steps.foldl (fun at? s => at?.bind s.follow?) o)
        (steps.foldl (fun at? s => at?.bind s.follow?) o') := by
    induction steps with
    | nil => exact fun _ _ ho => ho
    | cons s steps ih => exact fun _ _ ho => ih _ _ (rel_bind ho fun a _ b hab => h.follow? hab.1 s)
  exact hfold _ _ (.some ⟨hc, hp⟩)

/-- The captures at paired nodes are of paired nodes. -/
theorem captureParts? (hc : M c c') (hp : c.node.isProgram = false) (parts : List (List FieldStep × String)) :
    Option.Rel (List.Forall₂ (Capture.Alike fun d d' => M d d' ∧ d.node.isProgram = false))
    (Pattern.captureParts? c parts) (Pattern.captureParts? c' parts) := by
  induction parts with
  | nil => exact .some .nil
  | cons part parts ih =>
    obtain ⟨steps, label⟩ := part
    rw [Pattern.captureParts?, Pattern.captureParts?]
    have hsteps := h.follow hc hp steps
    generalize steps.foldl (fun at? s => at?.bind s.follow?) (some c) = o at hsteps
    generalize steps.foldl (fun at? s => at?.bind s.follow?) (some c') = o' at hsteps
    generalize Pattern.captureParts? c parts = rest at ih
    generalize Pattern.captureParts? c' parts = rest' at ih
    cases hsteps with
    | none => exact .none
    | some hd =>
      cases ih with
      | none => exact .none
      | some hrest => exact .some (.cons ⟨rfl, hd⟩ hrest)

theorem matchesAt {ps : List Pattern} (hps : ∀ p ∈ ps, p.kind ≠ "program") (hc : M c c') :
    List.Forall₂ (Match.Alike fun d d' => M d d' ∧ d.node.isProgram = false) (QueryKind.matchesAt ps c)
      (QueryKind.matchesAt ps c') := by
  unfold QueryKind.matchesAt
  have hsame : Woven (fun _ => False) (fun x y => x = y ∧ x.1 ∈ ps) ps.zipIdx ps.zipIdx :=
    .of_forall₂ (List.forall₂_same.2 fun x hx => ⟨rfl, (List.mem_zipIdx' hx).2 ▸ List.getElem_mem _⟩)
  refine hsame.filterMap (fun _ hb => hb.elim) ?_
  rintro ⟨p, i⟩ - _ ⟨rfl, hp⟩
  simp only [Pattern.captures?, h.nodes.named (onNodes hc), h.nodes.kind (onNodes hc)]
  split
  · rename_i hkind
    have hprogram : c.node.isProgram = false := by
      rw [Bool.and_eq_true, beq_iff_eq] at hkind
      unfold Node.isProgram
      rw [hkind.2, beq_eq_false_iff_ne.2 (hps p hp), Bool.false_and]
    have hparts := h.captureParts? hc hprogram p.parts
    generalize Pattern.captureParts? c p.parts = o at hparts
    generalize Pattern.captureParts? c' p.parts = o' at hparts
    cases hparts with
    | none => exact .none
    | some hrest => exact .some ⟨rfl, .cons ⟨rfl, hc, hprogram⟩ hrest, List.cons_ne_nil _ _⟩
  · exact .none

end Cursor.Pairing

/-- Patterns are neither for comments nor for the top of a tree. -/
theorem QueryKind.kind_of_mem_patterns {q : QueryKind} {g : Grammar} {p : Pattern} (hp : p ∈ q.patterns g) :
    p.kind ≠ "comment" ∧ p.kind ≠ "program" := by
  have hall : ((q.patterns g).all fun p => p.kind != "comment" && p.kind != "program") = true := by
    cases q with
    | symbols =>
      unfold patterns
      cases g.isTyped <;> decide
    | imports => rfl
    | calls => rfl
  simpa using List.all_eq_true.1 hall p hp

theorem matchesAt_of_stray {ps : List Pattern} (hps : ∀ p ∈ ps, p.kind ≠ "comment") {c : Cursor} (hc : c.node.IsStray) :
    QueryKind.matchesAt ps c = [] := by
  unfold QueryKind.matchesAt
  rw [List.filterMap_eq_nil_iff]
  rintro ⟨p, i⟩ hp
  have hkind : c.node.kind = "comment" := beq_iff_eq.1 hc.comment
  have hne : ("comment" == p.kind) = false :=
    beq_eq_false_iff_ne.2 (hps p ((List.mem_zipIdx' hp).2 ▸ List.getElem_mem _)).symm
  simp [Pattern.captures?, hkind, hne]

/-! ## Runs -/

section Runs

variable {place : Nat → Nat} {M : Cursor → Cursor → Prop} {m m' : Match}

/-- The last capture of a match has moved like all others. -/
theorem Match.Alike.lastStart (hstart : ∀ c c', M c c' → c'.node.start = place c.node.start) (h : Match.Alike M m m') :
    m'.lastStart = place m.lastStart := by
  obtain ⟨-, hcaptures, hne⟩ := h
  unfold Match.lastStart
  rw [← List.head?_reverse, ← List.head?_reverse]
  have hreverse := List.forall₂_reverse_iff.2 hcaptures
  have hne' : m.captures.reverse ≠ [] := by simpa using hne
  generalize m.captures.reverse = l at hreverse hne'
  generalize m'.captures.reverse = l' at hreverse
  cases hreverse with
  | nil => exact absurd rfl hne'
  | cons hxy _ => exact hstart _ _ hxy.node

/-- A query has related matches in trees that differ by comments, in the same order. -/
theorem QueryKind.run_alike {P : Node → Node → Prop} (hplace : StrictMono place)
    (hstart : ∀ n n', P n n' → n.isProgram = false → n'.start = place n.start) {root root' : Node}
    (hroot : Node.Commented P root root') (q : QueryKind) (g : Grammar) :
    List.Forall₂ (Match.Alike fun c c' => Cursor.Commented P c c' ∧
      c.node.isProgram = false) (q.run g root) (q.run g root') := by
  unfold run
  have hmatches : Woven (fun _ => False) (Match.Alike fun c c' => Cursor.Commented P c c' ∧ c.node.isProgram = false)
      ((Cursor.ofRoot root).preorder.flatMap (matchesAt (q.patterns g)))
      ((Cursor.ofRoot root').preorder.flatMap (matchesAt (q.patterns g))) := by
    refine (Cursor.Commented.ofRoot hroot).preorder.flatMap (fun b hb d hd => ?_) fun c _ c' hc => ?_
    · rw [matchesAt_of_stray (fun p hp => (kind_of_mem_patterns hp).1) hb] at hd
      cases hd
    · exact .of_forall₂ (Cursor.Commented.pairing.matchesAt (fun p hp => (kind_of_mem_patterns hp).2) hc)
  refine forall₂_mergeSort hmatches.forall₂ fun a a' b b' ha hb => ?_
  have hmoved : ∀ c c', Cursor.Commented P c c' ∧ c.node.isProgram = false → c'.node.start = place c.node.start :=
    fun c c' hc => hstart _ _ hc.1.node.kept hc.2
  rw [ha.lastStart hmoved, hb.lastStart hmoved]
  exact decide_eq_decide.2 (hplace.le_iff_le).symm

end Runs

/-! ## What is captured -/

/-- Steps end at what the last of them asks for. -/
theorem FieldStep.accepts_of_follow {steps : List FieldStep} {s : FieldStep} (hs : steps.getLast? = some s)
    {c d : Cursor} (h : steps.foldl (fun at? s => at?.bind s.follow?) (some c) = some d) : s.accepts d.node = true := by
  obtain ⟨init, rfl⟩ := List.getLast?_eq_some_iff.1 hs
  rw [List.foldl_append] at h
  obtain ⟨e, -, he⟩ := Option.bind_eq_some_iff.1 h
  have haccepts := List.find?_some he
  exact haccepts

theorem FieldStep.kind_of_accepts {f k : String} {n : Node} (h : (FieldStep.mk f (some k)).accepts n = true) :
    n.kind = k := by
  unfold accepts at h
  rw [Bool.and_eq_true] at h
  simpa using h.2

theorem Pattern.mem_captureParts? {c : Cursor} {parts : List (List FieldStep × String)} {rest : List Capture}
    (h : captureParts? c parts = some rest) {x : Capture} (hx : x ∈ rest) :
    ∃ part ∈ parts, x.label = part.2 ∧ part.1.foldl (fun at? s => at?.bind s.follow?) (some c) = some x.node := by
  induction parts generalizing rest with
  | nil =>
    cases h
    cases hx
  | cons part parts ih =>
    obtain ⟨steps, label⟩ := part
    rw [captureParts?] at h
    split at h
    · rename_i d more hd hmore
      cases h
      rcases List.mem_cons.1 hx with rfl | hx
      · exact ⟨_, List.mem_cons_self .., rfl, hd⟩
      · obtain ⟨part, hpart, hspec⟩ := ih hmore hx
        exact ⟨part, List.mem_cons_of_mem _ hpart, hspec⟩
    · cases h

/-- What is captured is the node a pattern is for, or stands where a part of the pattern asks for it. -/
theorem Match.captured {q : QueryKind} {g : Grammar} {root : Node} {m : Match} (hm : m ∈ q.run g root) {label : String}
    {d : Cursor} (hd : m.get? label = some d) :
    ∃ c ∈ (Cursor.ofRoot root).preorder, ∃ p ∈ q.patterns g, c.node.kind = p.kind ∧
      (label = p.label ∧ d = c ∨ ∃ part ∈ p.parts, label = part.2 ∧
        part.1.foldl (fun at? s => at?.bind s.follow?) (some c) = some d) := by
  unfold QueryKind.run at hm
  rw [List.mem_mergeSort, List.mem_flatMap] at hm
  obtain ⟨c, hc, hm⟩ := hm
  obtain ⟨⟨p, i⟩, hp, hat⟩ := List.mem_filterMap.1 hm
  obtain ⟨captures, hcaptures, rfl⟩ := Option.map_eq_some_iff.1 hat
  have hpatterns : p ∈ q.patterns g := (List.mem_zipIdx' hp).2 ▸ List.getElem_mem _
  unfold Pattern.captures? at hcaptures
  split at hcaptures
  · rename_i hkind
    rw [Bool.and_eq_true, beq_iff_eq] at hkind
    obtain ⟨rest, hrest, rfl⟩ := Option.map_eq_some_iff.1 hcaptures
    obtain ⟨x, hx, rfl⟩ := Option.map_eq_some_iff.1 hd
    have hlabel : x.label = label := by simpa using List.find?_some hx
    refine ⟨c, hc, p, hpatterns, hkind.2, ?_⟩
    rcases List.mem_cons.1 (List.mem_of_find?_eq_some hx) with rfl | hx
    · exact .inl ⟨hlabel.symm, rfl⟩
    · obtain ⟨part, hpart, hspec, hfollow⟩ := Pattern.mem_captureParts? hrest hx
      exact .inr ⟨part, hpart, hlabel.symm.trans hspec, hfollow⟩
  · cases hcaptures

/-- Under a label that only patterns for one kind have, only nodes of that kind are captured. -/
theorem Match.kind_of_get? {q : QueryKind} {g : Grammar} {root : Node} {m : Match} (hm : m ∈ q.run g root)
    {label kind : String} (hlabel :
      ((q.patterns g).all fun p => (p.label != label || p.kind == kind) && p.parts.all fun part => part.2 != label) =
        true)
    {d : Cursor} (hd : m.get? label = some d) : d.node.kind = kind := by
  obtain ⟨c, -, p, hp, hkind, hcaptured⟩ := captured hm hd
  have hchecked := List.all_eq_true.1 hlabel p hp
  rw [Bool.and_eq_true, List.all_eq_true] at hchecked
  rcases hcaptured with ⟨rfl, rfl⟩ | ⟨part, hpart, rfl, -⟩
  · rw [hkind]
    simpa using hchecked.1
  · simpa using hchecked.2 part hpart

end DocAtlas

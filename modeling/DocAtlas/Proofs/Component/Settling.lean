/-
Documenting a documented source changes nothing. A survey of the result, in the tree regrown from the
first one, makes the same findings in the same order, except that no component is documented: those
that were are annotated now, by the blocks that were put above them.
-/
import DocAtlas.Component.Documenter
import DocAtlas.Proofs.Component.Counterparts
import DocAtlas.Proofs.Component.Regrowth
import DocAtlas.Proofs.Doc.Reading

namespace DocAtlas.Survey

/-- What a finding becomes when the result is surveyed: a documented component is annotated, and what
was skipped is skipped, for its reason or because its anchor has a block now. -/
inductive Settled : Finding → Finding → Prop where
  | documented (info : ComponentInfo) (ins : Insertion) (line : Nat) :
      Settled (.documented info ins) (.skipped ⟨info.name, line, .annotated⟩)
  | skipped {name : Text} {line line' : Nat} {reason reason' : SkipReason} : reason' = reason ∨ reason' = .annotated →
      Settled (.skipped ⟨name, line, reason⟩) (.skipped ⟨name, line', reason'⟩)

/-- The survey of the result in a tree of it, at another time. -/
def again (s : Survey) (root' : Node) (stamp : Option Int) : Survey :=
  ⟨{ s.options with stamp }, ⟨s.result, root'⟩, s.result⟩

/-- The comment of a block reads back as the annotation of a component. -/
theorem hasTag_commentNode (s : Survey) {p : Placement} {k : Nat} (hk : s.placements[k]? = some p) :
    (Doc.Comment.parse? ((s.commentNode p k).text s.result)).any (fun d => d.hasTag "component") = true := by
  have hplaced := s.placed (List.mem_of_getElem? hk)
  have hki : s.insertions[k]? = some p.insertion := by
    rw [← s.map_insertion_placements, List.getElem?_map, hk]
    rfl
  have hfits : p.insertion.offset.toNat ≤ s.src.length := by
    have := hplaced.nonempty
    have := hplaced.stop
    rw [s.offset_of_placed hplaced]
    omega
  have htext : p.insertion.text = s.commentFor p.info p.anchor.node.start ++
      (Text.ofString "\n" ++ lineIndent s.src p.anchor.node.start) := by
    rw [hplaced.insertion, ← List.append_assoc]
    rfl
  -- the node spans the block where it landed, up to the newline after it
  have hslice := Insertion.slice_landing hki hfits htext
  have hopen := Doc.opens_indent_render (lineIndent s.src p.anchor.node.start) (factsOf p.info) s.options.stamp
  have hne : s.commentFor p.info p.anchor.node.start ≠ [] := by
    intro he
    have := hopen.length_le
    change _ ≤ (s.commentFor p.info p.anchor.node.start).length at this
    rw [Doc.Comment.length_opener, he] at this
    cases this
  have hcomment : (s.commentNode p k).text s.result = s.commentFor p.info p.anchor.node.start := by
    have hle := Text.le_length_of_slice hslice hne
    unfold Node.text
    exact (if_neg (Nat.not_lt.2 hle)).trans hslice
  rw [hcomment]
  exact Doc.Comment.hasTag_indent_render (fun b hb => isIndent_of_mem_lineIndent hb) _ _

section

variable {s : Survey} (hfit : s.tree.Fits) (hsrc : s.src = s.tree.source) {root' : Node} {c c' : Cursor}

include hfit hsrc

/-! ## The same texts -/

theorem text_of_moved {e : Cursor} {n' : Node} (he : (Cursor.ofRoot s.tree.root).Contains e) (hm : s.Moved e n')
    (hno : ∀ p ∈ s.placements, e.Contains p.anchor → e = p.anchor) : n'.text s.result = e.node.text s.src :=
  s.text_regrown hfit.laid (hsrc ▸ hfit.within) he hm hno

theorem text_of_leaf {e : Cursor} {n' : Node} (he : (Cursor.ofRoot s.tree.root).Contains e) (hm : s.Moved e n')
    (hleaf : e.node.children = []) : n'.text s.result = e.node.text s.src :=
  text_of_moved hfit hsrc he hm fun _ _ h => Cursor.eq_of_contains_leaf h hleaf

/-- Matched places are counterparts: words are leaves. -/
theorem counterparts (stamp : Option Int) :
    Counterparts s.classifier (s.again root' stamp).classifier (s.Matched root') where
  pairing := Matched.pairing
  parent h := h.parent?
  wrappers := rfl
  words := by
    rintro _ _ ⟨c, c', hM, rfl, rfl⟩
    have hworded := hfit.worded c.node (Cursor.mem_preorder_of_contains hM.contains)
    refine ⟨fun hs => ?_, fun hs p p' hp hp' => ?_⟩
    · exact text_of_leaf hfit hsrc hM.contains hM.moved (hworded.leaf (.inl hs))
    · have hleaf := hworded.property hs p hp
      have hrel := Matched.pairing.child? hM "property"
      rw [← Cursor.map_node_child?] at hp hp'
      obtain ⟨d, hd, rfl⟩ := Option.map_eq_some_iff.1 hp
      obtain ⟨d', hd', rfl⟩ := Option.map_eq_some_iff.1 hp'
      rw [hd, hd'] at hrel
      cases hrel with
      | some hM => exact text_of_leaf hfit hsrc hM.contains hM.moved hleaf

/-- Inside a component all texts are the same. -/
theorem sameTexts (stamp : Option Int) (hc : c ∈ (Cursor.ofRoot s.tree.root).frontier s.closes) :
    Counterparts.SameTexts s.classifier (s.again root' stamp).classifier (s.Matched root') c :=
  fun _ _ hd hM => text_of_moved hfit hsrc hM.contains hM.moved fun _ hp h => s.eq_anchor_of_contains hc hd hp h

/-! ## Anchors -/

omit hsrc hfit in
/-- An anchor with a block is annotated. -/
theorem isAnnotated_of_placement {p : Placement} (hp : p ∈ s.placements) (hM : s.Matched root' p.anchor c') :
    isAnnotated s.result c' = true := by
  obtain ⟨k, hk⟩ := List.mem_iff_getElem?.1 hp
  have hmem : s.commentNode p k ∈ (s.commentsAbove p.anchor).reverse :=
    List.mem_reverse.2 (s.mem_commentsAbove.2 ⟨p, k, hk, rfl, rfl⟩)
  have hcomments : ∀ n ∈ (s.commentsAbove p.anchor).reverse, n.isComment = true := fun n hn =>
    (s.isStray_of_mem_commentsAbove (List.mem_reverse.1 hn)).comment
  obtain ⟨rest, hrest⟩ := hM.comments_before
  unfold isAnnotated
  rw [← hrest, List.takeWhile_append_of_pos hcomments]
  exact List.any_eq_true.2 ⟨_, List.mem_append_left _ hmem, s.hasTag_commentNode hk⟩

/-- An anchor that was annotated is annotated. -/
theorem isAnnotated_of_matched (hM : s.Matched root' c c') (h : isAnnotated s.src c = true) :
    isAnnotated s.result c' = true := by
  refine Node.any_takeWhile_of_woven hM.woven_before ?_ ?_ h
  · rintro _ b' ⟨e, -, rfl, hm⟩
    unfold Node.isComment Node.kind
    rw [hm.info]
  · rintro _ b' ⟨e, he, rfl, hm⟩ hc hq
    have hshape : e.node.shape = .comment := by
      unfold Node.shape
      rw [beq_iff_eq.1 hc]
      rfl
    have hleaf := (hfit.worded e.node (Cursor.mem_preorder_of_contains he)).leaf (.inr hshape)
    rwa [text_of_leaf hfit hsrc he hm hleaf]

/-- An anchor with a place in the source has one in the result, and only such. -/
theorem isSome_offset? (hM : s.Matched root' c c') :
    (offset? s.result c'.node).isSome = (offset? s.src c.node).isSome := by
  have hmoved := hM.moved
  have hstop := s.stop_le_length hfit.laid (hsrc ▸ hfit.within) hM.contains
  unfold offset?
  by_cases hne : c.node.start < c.node.stop
  · have h1 := s.bytesBefore_le hne
    have h2 := Insertion.shift_mono s.insertions (show c.node.stop ≤ s.src.length + 1 by omega)
    have h3 := Insertion.length_weave s.insertions s.src
    have hstart' := hmoved.start hne
    have hstop' := hmoved.stop hne
    have hplace : c'.node.start < c'.node.stop ∧ c'.node.stop ≤ s.result.length := by
      unfold result
      omega
    rw [if_pos hplace, if_pos ⟨hne, hstop⟩]
    rfl
  · have := hmoved.empty (by omega)
    rw [if_neg (by omega), if_neg (by omega)]

/-! ## Findings -/

theorem contract_eq {f f' : Cursor} (hc : c ∈ (Cursor.ofRoot s.tree.root).frontier s.closes) (hin : c.Contains f)
    (hM : s.Matched root' f f') : Contract.ofFunction s.result f'.node = Contract.ofFunction s.src f.node := by
  have htexts : Counterparts.SameTexts s.classifier (s.again root' none).classifier (s.Matched root') c :=
    sameTexts hfit hsrc none hc
  refine Contract.ofFunction_eq (Matched.pairing.inside c).nodes ?_ ⟨f, f', ⟨hin, hM⟩, rfl, rfl⟩
  rintro _ _ ⟨d, d', ⟨hd, hM⟩, rfl, rfl⟩ -
  exact htexts d d' hd hM

/-- A judged component is settled. -/
theorem judge_settled (stamp : Option Int) {cand cand' : Candidate} {f f' : Cursor}
    (hc : c ∈ (Cursor.ofRoot s.tree.root).frontier s.closes) (hcomp : s.component? c = some (cand, f))
    (hcand : Counterparts.Alike s.classifier (s.again root' stamp).classifier (s.Matched root') c cand cand')
    (hf : s.Matched root' f f') :
    Settled (s.judge cand (some f)) ((s.again root' stamp).judge cand' (some f')) := by
  have hname := hcand.name (sameTexts hfit hsrc stamp hc).names
  have hoffset := isSome_offset? hfit hsrc hcand.anchor
  have hcontract := contract_eq hfit hsrc hc (s.component?_spec hcomp).2.1 hf
  have hann := isAnnotated_of_matched hfit hsrc hcand.anchor
  -- a component that gets a block has an anchor with a block
  have hblock : ∀ info ins, s.judge cand (some f) = .documented info ins →
      isAnnotated s.result cand'.anchor = true := by
    intro info ins hj
    have hp : s.placement? c = some ⟨cand.anchor, info, ins⟩ :=
      s.placement?_eq_some.2 ⟨cand, f, hcomp, hj, rfl⟩
    exact isAnnotated_of_placement (List.mem_filterMap.2 ⟨c, hc, hp⟩) hcand.anchor
  unfold judge at hblock ⊢
  rw [show (s.again root' stamp).src = s.result from rfl, hname]
  cases ho : offset? s.src cand.anchor.node with
  | none =>
    rw [ho, Option.isSome_none, Option.isSome_eq_false_iff, Option.isNone_iff_eq_none] at hoffset
    rw [hoffset]
    exact .skipped (.inl rfl)
  | some offset =>
    rw [ho, Option.isSome_some, Option.isSome_iff_exists] at hoffset
    obtain ⟨offset', ho'⟩ := hoffset
    rw [ho] at hblock
    rw [ho']
    simp only [Option.map_some, Option.getD_some] at hblock ⊢
    by_cases hann' : isAnnotated s.result cand'.anchor = true
    · rw [if_pos hann']
      split
      · exact .skipped (.inl rfl)
      · split
        · exact .skipped (.inr rfl)
        · exact .documented _ _ _
    · -- nothing was put above the anchor, so the component has no props
      have hold : ¬ isAnnotated s.src cand.anchor = true := fun h => hann' (hann h)
      rw [if_neg hold] at hblock ⊢
      rw [if_neg hann', hcontract, show (s.again root' stamp).options.skipEmpty = s.options.skipEmpty from rfl]
      split
      · exact .skipped (.inl rfl)
      · rename_i hbare
        rw [if_neg hbare] at hblock
        exact absurd (hblock _ _ rfl) hann'

/-- The entries of a survey and of the survey of its result. -/
theorem relatesEntries (stamp : Option Int) (hc : c ∈ (Cursor.ofRoot s.tree.root).frontier s.closes) :
    RelatesEntries s (s.again root' stamp) (s.Matched root') (fun e e' => Settled e.finding e'.finding) c where
  nested hin _ _ _ hcand := by
    unfold nestedEntry
    simp only
    rw [hcand.name ((sameTexts hfit hsrc stamp hc).names.mono hin)]
    exact .skipped (.inl rfl)
  judged _ hp _ hcand hf := judge_settled hfit hsrc stamp hc hp hcand hf

/-- Every finding is settled. -/
theorem findings_settled (stamp : Option Int) (h : s.Regrown root') :
    List.Forall₂ Settled s.findings (s.again root' stamp).findings := by
  have hcp : Counterparts s.classifier (s.again root' stamp).classifier (s.Matched root') :=
    counterparts hfit hsrc stamp
  rw [← s.map_finding_entries, ← (s.again root' stamp).map_finding_entries, List.forall₂_map_left_iff,
    List.forall₂_map_right_iff]
  exact entries_rel hcp (.root h) fun _ hc => relatesEntries hfit hsrc stamp hc

end

theorem insertions_eq_nil_of_settled {s s' : Survey} (h : List.Forall₂ Settled s.findings s'.findings) :
    s'.insertions = [] := by
  unfold insertions
  generalize s.findings = l at h
  generalize s'.findings = l' at h
  induction h with
  | nil => rfl
  | cons hab _ ih => cases hab <;> exact ih

/-! ## Documenting twice -/

/-- A source with a tree is documented, the blocks of the survey being inserted. -/
theorem document_eq (s : Survey) : document s.options s.tree s.src = .ok ⟨s.findings, s.result⟩ := by
  have happly := s.apply_insertions
  unfold insertions at happly
  unfold document
  simp only
  rw [happly]
  rfl

theorem document_of_settled {s s' : Survey} (h : List.Forall₂ Settled s.findings s'.findings) :
    document s'.options s'.tree s'.src = .ok ⟨s'.findings, s'.src⟩ := by
  have hnone := insertions_eq_nil_of_settled h
  rw [s'.document_eq]
  unfold result
  rw [hnone, Insertion.weave_nil]

section

variable {gs : Grammars} {g : Grammar} {path src : Text} {root : Node} (hg : Grammar.ofPath? path = some g)
  (hroot : gs g src = some root) (p : Parsers) (o : DocOptions)

include hg hroot

/-- A source with a sound tree is documented in that tree. -/
theorem annotate_eq_document (hsound : root.hasFault = false) :
    (annotate gs p o path src).1 = document o ⟨src, root⟩ src := by
  have hnone : ParseFault.ofTree? ⟨src, root⟩ = none := by
    unfold ParseFault.ofTree?
    rw [if_neg (by simp [hsound])]
  unfold annotate Parsers.parseFile Parsers.parse
  simp only [hg, hroot, hnone, Option.map_none]
  cases document o ⟨src, root⟩ src <;> rfl

/-- A malformed source is refused. -/
theorem annotate_of_hasFault (hfault : root.hasFault = true) :
    ∃ f, (annotate gs p o path src).1 = .error (.parse f) := by
  obtain ⟨f, hf⟩ : ∃ f, ParseFault.ofTree? ⟨src, root⟩ = some f := by
    unfold ParseFault.ofTree?
    rw [if_pos hfault]
    split <;> exact ⟨_, rfl⟩
  unfold annotate Parsers.parseFile Parsers.parse
  simp only [hg, hroot, hf, Option.map_some]
  exact ⟨_, rfl⟩

end

/-- Documenting is idempotent. The blocks of a survey can be inserted. A survey of the result in the
regrown tree, at any time, has no insertions, and it makes the findings of the first with every
documented component annotated. So documenting the result gives the result back; if the source was
malformed, both are refused. -/
theorem document_twice (t : SyntaxTree) (o : DocOptions) (ht : t.Fits) :
    let s : Survey := ⟨o, t, t.source⟩
    ∃ out, Insertion.apply t.source s.insertions = .ok out ∧ ∀ root' stamp, s.Regrown root' →
      let s' : Survey := ⟨{ o with stamp }, ⟨out, root'⟩, out⟩
      s'.insertions = [] ∧ List.Forall₂ Settled s.findings s'.findings ∧
        ∀ (gs : Grammars) (p p' : Parsers) (path : Text) (g : Grammar), Grammar.ofPath? path = some g →
          gs g t.source = some t.root → gs g out = some root' →
            (t.root.hasFault = false → (annotate gs p o path t.source).1 = .ok ⟨s.findings, out⟩ ∧
              (annotate gs p' { o with stamp } path out).1 = .ok ⟨s'.findings, out⟩) ∧
            (t.root.hasFault = true → ∃ f f', (annotate gs p o path t.source).1 = .error (.parse f) ∧
              (annotate gs p' { o with stamp } path out).1 = .error (.parse f')) := by
  intro s
  refine ⟨s.result, s.apply_insertions, fun root' stamp hr => ?_⟩
  intro s'
  have hsettled : List.Forall₂ Settled s.findings s'.findings := findings_settled ht rfl stamp hr
  refine ⟨insertions_eq_nil_of_settled hsettled, hsettled, fun gs p p' path g hg hsrc hout => ?_⟩
  have hfault : t.root.hasFault = root'.hasFault :=
    Matched.pairing.nodes.hasFault ⟨_, _, .root hr, rfl, rfl⟩
  constructor
  · intro hsound
    rw [annotate_eq_document hg hsrc p o hsound, annotate_eq_document hg hout p' _ (hfault ▸ hsound)]
    exact ⟨s.document_eq, document_of_settled hsettled⟩
  · intro hbad
    obtain ⟨f, hf⟩ := annotate_of_hasFault hg hsrc p o hbad
    obtain ⟨f', hf'⟩ := annotate_of_hasFault hg hout p' { o with stamp } (hfault ▸ hbad)
    exact ⟨f, f', hf, hf'⟩

/-- The tree of `threeDeepText`, and for every other source the tree with the block. -/
def threeDeepGrammars : Grammars := fun _ src =>
  if src = threeDeepText then some threeDeep.tree.root else some threeDeep.regrow

/-- A block goes above the outermost of three components, and documenting again leaves it alone. -/
theorem threeDeep_document_twice : threeDeep.tree.Fits ∧ threeDeep.Regrown threeDeep.regrow ∧
    ∃ out, Insertion.apply threeDeepText threeDeep.insertions = .ok out ∧ out ≠ threeDeepText ∧
      (annotate threeDeepGrammars (.fresh 1) threeDeep.options "a.jsx" threeDeepText).1 =
        .ok ⟨threeDeep.findings, out⟩ ∧
      ∃ findings, (annotate threeDeepGrammars (.fresh 1) { threeDeep.options with stamp := some 0 } "a.jsx" out).1 =
        .ok ⟨findings, out⟩ := by
  have hfits : threeDeep.tree.Fits := by decide +kernel
  have hregrown : threeDeep.Regrown threeDeep.regrow :=
    threeDeep.regrown_regrow (List.isEmpty_iff.1 (by decide +kernel))
  obtain ⟨out, happly, htwice⟩ := document_twice threeDeep.tree threeDeep.options hfits
  have hchanged : out ≠ threeDeepText := by
    have hout : threeDeep.result = out := Except.ok.inj (threeDeep.apply_insertions.symm.trans happly)
    rw [← hout]
    decide +kernel
  obtain ⟨-, -, hannotate⟩ := htwice threeDeep.regrow (some 0) hregrown
  obtain ⟨hfirst, hagain⟩ := (hannotate threeDeepGrammars (.fresh 1) (.fresh 1) "a.jsx" .javascript
    (by decide +kernel) (if_pos rfl) (if_neg hchanged)).1 (by decide +kernel)
  exact ⟨hfits, hregrown, out, happly, hchanged, hfirst, _, hagain⟩

end DocAtlas.Survey

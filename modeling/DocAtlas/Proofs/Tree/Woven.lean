/-
Trees that differ by comments. `Woven stray R` pairs the members of a list, in order, with those of a
list that has stray members besides. A relation between nodes is a `Pairing` if paired nodes are of one
kind and role and their children are woven, the strays being comments without a role.

Whatever looks only at kinds, roles and proper children finds paired nodes in both trees: a child with
a role, the first proper child, the node inside parentheses, the markup in an expression. The same goes
for places, and walks that stop at paired places stop at paired places only.
-/
import DocAtlas.Proofs.Tree.Descent

namespace DocAtlas

/-- The members of the first list are related, in order, to those of the second that are not
strays. -/
inductive Woven {α β : Type} (stray : β → Prop) (R : α → β → Prop) : List α → List β → Prop where
  | nil : Woven stray R [] []
  | stray {b : β} {l : List α} {l' : List β} : stray b → Woven stray R l l' → Woven stray R l (b :: l')
  | keep {a : α} {b : β} {l : List α} {l' : List β} : R a b → Woven stray R l l' → Woven stray R (a :: l) (b :: l')

namespace Woven

variable {α β γ δ : Type} {stray : β → Prop} {R : α → β → Prop} {l : List α} {l' : List β}

theorem imp_of_mem {S : α → β → Prop} (h : Woven stray R l l') (hRS : ∀ a ∈ l, ∀ b ∈ l', R a b → S a b) :
    Woven stray S l l' := by
  induction h with
  | nil => exact .nil
  | stray hb _ ih => exact .stray hb (ih fun a ha b hb => hRS a ha b (List.mem_cons_of_mem _ hb))
  | keep hab _ ih =>
    refine .keep (hRS _ (List.mem_cons_self ..) _ (List.mem_cons_self ..) hab) (ih fun a ha b hb => ?_)
    exact hRS a (List.mem_cons_of_mem _ ha) b (List.mem_cons_of_mem _ hb)

theorem imp {S : α → β → Prop} (h : Woven stray R l l') (hRS : ∀ a ∈ l, ∀ b, R a b → S a b) : Woven stray S l l' :=
  h.imp_of_mem fun a ha b _ => hRS a ha b

theorem strays : ∀ {bs : List β}, (∀ b ∈ bs, stray b) → Woven stray R l l' → Woven stray R l (bs ++ l')
  | [], _, h => h
  | b :: _, hbs, h =>
    .stray (hbs b (List.mem_cons_self ..)) (strays (fun c hc => hbs c (List.mem_cons_of_mem _ hc)) h)

/-- A function that says nothing about strays gives related values for both lists. -/
theorem filterMap {S : γ → δ → Prop} {f : α → Option γ} {g : β → Option δ} (h : Woven stray R l l')
    (hs : ∀ b, stray b → g b = none) (hR : ∀ a ∈ l, ∀ b, R a b → Option.Rel S (f a) (g b)) :
    List.Forall₂ S (l.filterMap f) (l'.filterMap g) := by
  induction h with
  | nil => exact .nil
  | stray hb _ ih =>
    rw [List.filterMap_cons_none (hs _ hb)]
    exact ih hR
  | keep hab _ ih =>
    have hrest := ih fun a ha => hR a (List.mem_cons_of_mem _ ha)
    have hfirst := hR _ (List.mem_cons_self ..) _ hab
    cases hfirst' : f _ <;> cases hfirst'' : g _ <;> rw [hfirst', hfirst''] at hfirst <;> cases hfirst
    · rwa [List.filterMap_cons_none hfirst', List.filterMap_cons_none hfirst'']
    · rename_i hS
      rw [List.filterMap_cons_some hfirst', List.filterMap_cons_some hfirst'']
      exact .cons hS hrest

theorem filter {p : α → Bool} {q : β → Bool} (h : Woven stray R l l') (hs : ∀ b, stray b → q b = false)
    (hR : ∀ a ∈ l, ∀ b, R a b → p a = q b) : List.Forall₂ R (l.filter p) (l'.filter q) := by
  rw [← List.filterMap_eq_filter, ← List.filterMap_eq_filter]
  refine h.filterMap (fun b hb => by simp [Option.guard, hs b hb]) fun a ha b hab => ?_
  simp only [Option.guard, hR a ha b hab]
  split
  · exact .some hab
  · exact .none

theorem find? {p : α → Bool} {q : β → Bool} (h : Woven stray R l l') (hs : ∀ b, stray b → q b = false)
    (hR : ∀ a ∈ l, ∀ b, R a b → p a = q b) : Option.Rel R (l.find? p) (l'.find? q) := by
  have hf := h.filter hs hR
  rw [← List.head?_filter, ← List.head?_filter]
  generalize l.filter p = m at hf
  generalize l'.filter q = m' at hf
  cases hf with
  | nil => exact .none
  | cons hab _ => exact .some hab

/-- The same, with what the search says of the first. -/
theorem find?_spec {p : α → Bool} {q : β → Bool} (h : Woven stray R l l') (hs : ∀ b, stray b → q b = false)
    (hR : ∀ a ∈ l, ∀ b, R a b → p a = q b) :
    Option.Rel (fun a b => R a b ∧ a ∈ l ∧ p a = true) (l.find? p) (l'.find? q) := by
  have hfind := h.find? hs hR
  generalize l'.find? q = o' at hfind
  cases ho : l.find? p with
  | none =>
    rw [ho] at hfind
    cases hfind
    exact .none
  | some a =>
    rw [ho] at hfind
    cases hfind with
    | some hab => exact .some ⟨hab, List.mem_of_find?_eq_some ho, List.find?_some ho⟩

/-- Without a word on strays, the second search may stop at one. -/
theorem find?_or {p : α → Bool} {q : β → Bool} (h : Woven stray R l l') (hR : ∀ a ∈ l, ∀ b, R a b → p a = q b) :
    Option.Rel R (l.find? p) (l'.find? q) ∨ ∃ b, l'.find? q = some b ∧ stray b := by
  induction h with
  | nil => exact .inl .none
  | @stray b l l' hb _ ih =>
    rw [List.find?_cons]
    cases q b with
    | true => exact .inr ⟨b, rfl, hb⟩
    | false => exact ih hR
  | @keep a b l l' hab _ ih =>
    rw [List.find?_cons, List.find?_cons, hR _ (List.mem_cons_self ..) _ hab]
    cases q b with
    | true => exact .inl (.some hab)
    | false => exact ih fun a ha => hR a (List.mem_cons_of_mem _ ha)

theorem any {p : α → Bool} {q : β → Bool} (h : Woven stray R l l') (hs : ∀ b, stray b → q b = false)
    (hR : ∀ a ∈ l, ∀ b, R a b → p a = q b) : l.any p = l'.any q := by
  induction h with
  | nil => rfl
  | stray hb _ ih => rw [List.any_cons, hs _ hb, Bool.false_or, ih hR]
  | keep hab _ ih =>
    rw [List.any_cons, List.any_cons, hR _ (List.mem_cons_self ..) _ hab,
      ih fun a ha => hR a (List.mem_cons_of_mem _ ha)]

theorem map {γ δ : Type} {S : γ → δ → Prop} {stray' : δ → Prop} {f : α → γ} {g : β → δ} (h : Woven stray R l l')
    (hs : ∀ b, stray b → stray' (g b)) (hR : ∀ a ∈ l, ∀ b, R a b → S (f a) (g b)) :
    Woven stray' S (l.map f) (l'.map g) := by
  induction h with
  | nil => exact .nil
  | stray hb _ ih => exact .stray (hs _ hb) (ih hR)
  | keep hab _ ih =>
    exact .keep (hR _ (List.mem_cons_self ..) _ hab) (ih fun a ha => hR a (List.mem_cons_of_mem _ ha))

theorem append {m : List α} {m' : List β} (h : Woven stray R l l') (hm : Woven stray R m m') :
    Woven stray R (l ++ m) (l' ++ m') := by
  induction h with
  | nil => exact hm
  | stray hb _ ih => exact .stray hb ih
  | keep hab _ ih => exact .keep hab ih

theorem flatMap {S : γ → δ → Prop} {stray' : δ → Prop} {f : α → List γ} {g : β → List δ} (h : Woven stray R l l')
    (hs : ∀ b, stray b → ∀ d ∈ g b, stray' d) (hR : ∀ a ∈ l, ∀ b, R a b → Woven stray' S (f a) (g b)) :
    Woven stray' S (l.flatMap f) (l'.flatMap g) := by
  induction h with
  | nil => exact .nil
  | stray hb _ ih =>
    rw [List.flatMap_cons]
    exact strays (hs _ hb) (ih hR)
  | keep hab _ ih =>
    rw [List.flatMap_cons, List.flatMap_cons]
    exact (hR _ (List.mem_cons_self ..) _ hab).append (ih fun a ha => hR a (List.mem_cons_of_mem _ ha))

theorem of_forall₂ (h : List.Forall₂ R l l') : Woven stray R l l' := by
  induction h with
  | nil => exact .nil
  | cons hab _ ih => exact .keep hab ih

theorem forall₂ (h : Woven (fun _ => False) R l l') : List.Forall₂ R l l' := by
  induction h with
  | nil => exact .nil
  | stray hb _ _ => exact hb.elim
  | keep hab _ ih => exact .cons hab ih

end Woven

theorem forall₂_flatMap {α β γ δ : Type} {R : α → β → Prop} {S : γ → δ → Prop} {f : α → List γ} {g : β → List δ}
    {l : List α} {l' : List β} (h : List.Forall₂ R l l') (hR : ∀ a ∈ l, ∀ b, R a b → List.Forall₂ S (f a) (g b)) :
    List.Forall₂ S (l.flatMap f) (l'.flatMap g) := by
  have hw : Woven (fun _ => False) R l l' := .of_forall₂ h
  exact (hw.flatMap (fun _ hb => hb.elim) fun a ha b hab => .of_forall₂ (hR a ha b hab)).forall₂

theorem forall₂_filterMap {α β γ δ : Type} {R : α → β → Prop} {S : γ → δ → Prop} {f : α → Option γ} {g : β → Option δ}
    {l : List α} {l' : List β} (h : List.Forall₂ R l l') (hR : ∀ a ∈ l, ∀ b, R a b → Option.Rel S (f a) (g b)) :
    List.Forall₂ S (l.filterMap f) (l'.filterMap g) := by
  have hw : Woven (fun _ => False) R l l' := .of_forall₂ h
  exact hw.filterMap (fun _ hb => hb.elim) hR

theorem forall₂_filter {α β : Type} {R : α → β → Prop} {p : α → Bool} {q : β → Bool} {l : List α} {l' : List β}
    (h : List.Forall₂ R l l') (hR : ∀ a ∈ l, ∀ b, R a b → p a = q b) : List.Forall₂ R (l.filter p) (l'.filter q) := by
  have hw : Woven (fun _ => False) R l l' := .of_forall₂ h
  exact hw.filter (fun _ hb => hb.elim) hR

theorem forall₂_findSome? {α β γ δ : Type} {R : α → β → Prop} {S : γ → δ → Prop} {f : α → Option γ} {g : β → Option δ}
    {l : List α} {l' : List β} (h : List.Forall₂ R l l') (hR : ∀ a ∈ l, ∀ b, R a b → Option.Rel S (f a) (g b)) :
    Option.Rel S (l.findSome? f) (l'.findSome? g) := by
  have hall := forall₂_filterMap h hR
  rw [← List.head?_filterMap, ← List.head?_filterMap]
  generalize l.filterMap f = m at hall
  generalize l'.filterMap g = m' at hall
  cases hall with
  | nil => exact .none
  | cons hab _ => exact .some hab

theorem any_eq_of_forall₂ {α β : Type} {R : α → β → Prop} {p : α → Bool} {q : β → Bool} {l : List α} {l' : List β}
    (h : List.Forall₂ R l l') (hR : ∀ a ∈ l, ∀ b, R a b → p a = q b) : l.any p = l'.any q := by
  have hw : Woven (fun _ => False) R l l' := .of_forall₂ h
  exact hw.any (fun _ hb => hb.elim) hR

theorem any_eq_of_rel {α β : Type} {R : α → β → Prop} {p : α → Bool} {q : β → Bool} {o : Option α} {o' : Option β}
    (h : Option.Rel R o o') (hR : ∀ a, o = some a → ∀ b, R a b → p a = q b) : o.any p = o'.any q := by
  cases h with
  | none => rfl
  | some hab => exact hR _ rfl _ hab

theorem rel_bind {α β γ δ : Type} {R : α → β → Prop} {S : γ → δ → Prop} {o : Option α} {o' : Option β}
    {f : α → Option γ} {g : β → Option δ} (h : Option.Rel R o o')
    (hR : ∀ a, o = some a → ∀ b, R a b → Option.Rel S (f a) (g b)) : Option.Rel S (o.bind f) (o'.bind g) := by
  cases h with
  | none => exact .none
  | some hab => exact hR _ rfl _ hab

theorem rel_imp {α β : Type} {R S : α → β → Prop} {o : Option α} {o' : Option β} (h : Option.Rel R o o')
    (hRS : ∀ a, o = some a → ∀ b, R a b → S a b) : Option.Rel S o o' := by
  cases h with
  | none => exact .none
  | some hab => exact .some (hRS _ rfl _ hab)

theorem rel_map {α β γ δ : Type} {R : α → β → Prop} {S : γ → δ → Prop} {o : Option α} {o' : Option β} {f : α → γ}
    {g : β → δ} (h : Option.Rel R o o') (hR : ∀ a, o = some a → ∀ b, R a b → S (f a) (g b)) :
    Option.Rel S (o.map f) (o'.map g) := by
  cases h with
  | none => exact .none
  | some hab => exact .some (hR _ rfl _ hab)

theorem rel_getD {α β : Type} {R : α → β → Prop} {o : Option α} {o' : Option β} {a : α} {b : β} (h : Option.Rel R o o')
    (hd : R a b) : R (o.getD a) (o'.getD b) := by
  cases h with
  | none => exact hd
  | some hab => exact hab

namespace Node

/-- A comment that stands where the grammar has no place for it. -/
structure IsStray (n : Node) : Prop where
  comment : n.isComment = true
  field : n.info.field = none
  children : n.children = []
  error : n.info.error = false
  missing : n.info.missing = false

/-- Paired nodes are of one kind and role, and their children are woven. -/
structure Pairing (R : Node → Node → Prop) : Prop where
  kind : ∀ {n n'}, R n n' → n'.kind = n.kind
  field : ∀ {n n'}, R n n' → n'.info.field = n.info.field
  named : ∀ {n n'}, R n n' → n'.isNamed = n.isNamed
  error : ∀ {n n'}, R n n' → n'.info.error = n.info.error
  missing : ∀ {n n'}, R n n' → n'.info.missing = n.info.missing
  children : ∀ {n n'}, R n n' → Woven IsStray R n.children n'.children

namespace IsStray

variable {n : Node}

theorem not_proper (h : n.IsStray) : n.isProper = false := by simp [isProper, h.comment]

theorem not_hasField (h : n.IsStray) (f : String) : hasField f n = false := by simp [hasField, h.field]

theorem shape (h : n.IsStray) : n.shape = .comment := by
  unfold Node.shape
  rw [beq_iff_eq.1 h.comment]
  rfl

end IsStray

namespace Pairing

variable {R : Node → Node → Prop} (h : Pairing R) {n n' : Node}

include h

theorem shape (hn : R n n') : n'.shape = n.shape := by unfold Node.shape; rw [h.kind hn]

theorem isFunction (hn : R n n') : n'.isFunction = n.isFunction := by unfold Node.isFunction; rw [h.shape hn]

theorem isProper (hn : R n n') : n.isProper = n'.isProper := by
  unfold Node.isProper isComment; rw [h.kind hn, h.named hn]

theorem hasField (hn : R n n') (f : String) : n.hasField f = n'.hasField f := by unfold Node.hasField; rw [h.field hn]

theorem child? (hn : R n n') (f : String) : Option.Rel R (n.child? f) (n'.child? f) :=
  (h.children hn).find? (fun _ hb => hb.not_hasField f) fun _ _ _ hab => h.hasField hab f

/-- The children with a role, where they are and with their role. -/
theorem child?_spec (hn : R n n') (f : String) :
    Option.Rel (fun c c' => R c c' ∧ c ∈ n.children ∧ c.hasField f = true) (n.child? f) (n'.child? f) :=
  (h.children hn).find?_spec (fun _ hb => hb.not_hasField f) fun _ _ _ hab => h.hasField hab f

theorem firstProper? (hn : R n n') : Option.Rel R n.firstProper? n'.firstProper? :=
  (h.children hn).find? (fun _ hb => hb.not_proper) fun _ _ _ hab => h.isProper hab

theorem proper (hn : R n n') : List.Forall₂ R n.proper n'.proper :=
  (h.children hn).filter (fun _ hb => hb.not_proper) fun _ _ _ hab => h.isProper hab

theorem stripParens? (hn : R n n') : Option.Rel R n.stripParens? n'.stripParens? := by
  induction n using Node.ind generalizing n' with
  | h n ih =>
    rw [stripParens?_eq, stripParens?_eq, h.shape hn]
    split
    · exact rel_bind (h.firstProper? hn) fun a ha b hab => ih a (firstProper?_mem ha) hab
    · exact .some hn

theorem isLogical (hn : R n n') : n.isLogical = n'.isLogical := by
  unfold Node.isLogical
  have hop := h.child? hn "operator"
  revert hop
  generalize n.child? "operator" = o
  generalize n'.child? "operator" = o'
  rintro (hab | _)
  · simp only [h.kind hab]
  · rfl

theorem isMarkup (hn : R n n') : n.isMarkup = n'.isMarkup := by
  induction n using Node.ind generalizing n' with
  | h n ih =>
    have hchild : ∀ f, (n.child? f).any Node.isMarkup = (n'.child? f).any Node.isMarkup := fun f =>
      any_eq_of_rel (h.child? hn f) fun a ha b hab => ih a (child?_mem ha) hab
    have hproper : n.proper.any Node.isMarkup = n'.proper.any Node.isMarkup :=
      any_eq_of_forall₂ (h.proper hn) fun a ha b hab => ih a (proper_mem ha) hab
    have hfirst : n.firstProper?.any Node.isMarkup = n'.firstProper?.any Node.isMarkup :=
      any_eq_of_rel (h.firstProper? hn) fun a ha b hab => ih a (firstProper?_mem ha) hab
    rw [isMarkup_eq, isMarkup_eq, h.shape hn, h.isLogical hn]
    simp only [hchild, hproper, hfirst]

theorem hasFault (hn : R n n') : n.hasFault = n'.hasFault := by
  induction n using Node.ind generalizing n' with
  | h n ih =>
    rw [hasFault_eq, hasFault_eq, h.error hn, h.missing hn]
    congr 1
    refine (h.children hn).any (fun b hb => ?_) fun a ha b hab => ih a ha hab
    rw [hasFault_eq, hb.error, hb.missing, hb.children]
    rfl

theorem bindingPattern? (hn : R n n') : Option.Rel R n.bindingPattern? n'.bindingPattern? := by
  induction n using Node.ind generalizing n' with
  | h n ih =>
    have hchild : ∀ f, Option.Rel R ((n.child? f).bind Node.bindingPattern?)
      ((n'.child? f).bind Node.bindingPattern?) :=
      fun f => rel_bind (h.child? hn f) fun a ha b hab => ih a (child?_mem ha) hab
    rw [bindingPattern?_eq, bindingPattern?_eq, h.kind hn]
    split
    · exact hchild _
    · split
      · exact hchild _
      · exact .some hn

theorem namedPreorder (hn : R n n') : Woven IsStray R n.namedPreorder n'.namedPreorder := by
  induction n using Node.ind generalizing n' with
  | h n ih =>
    rw [namedPreorder_eq, namedPreorder_eq]
    refine .keep hn ((h.children hn).flatMap (fun b hb d hd => ?_) fun a ha b hab => ?_)
    · -- a stray is a node without children
      split at hd
      · rw [namedPreorder_eq, hb.children] at hd
        rw [List.mem_singleton.1 hd]
        exact hb
      · cases hd
    · rw [h.named hab]
      split
      · exact ih a ha hab
      · exact .nil

end Pairing

/-- A list of siblings among strays: a comment at its beginning stays at its beginning. -/
theorem any_takeWhile_of_woven {R : Node → Node → Prop} {q q' : Node → Bool} {l l' : List Node}
    (h : Woven Node.IsStray R l l') (hkind : ∀ b b', R b b' → b'.isComment = b.isComment)
    (htext : ∀ b b', R b b' → b.isComment = true → q b = true → q' b' = true)
    (hq : (l.takeWhile Node.isComment).any q = true) : (l'.takeWhile Node.isComment).any q' = true := by
  induction h with
  | nil => simp at hq
  | stray hb _ ih =>
    rw [List.takeWhile_cons_of_pos hb.comment, List.any_cons, ih hq, Bool.or_true]
  | @keep b b' l l' hbb _ ih =>
    by_cases hc : b.isComment = true
    · rw [List.takeWhile_cons_of_pos hc, List.any_cons, Bool.or_eq_true] at hq
      rw [List.takeWhile_cons_of_pos ((hkind b b' hbb).trans hc), List.any_cons, Bool.or_eq_true]
      exact hq.imp (htext b b' hbb hc) ih
    · rw [List.takeWhile_cons_of_neg hc] at hq
      simp at hq

end Node

namespace Cursor

/-- The pairs of nodes at paired places. -/
def OnNodes (M : Cursor → Cursor → Prop) (n n' : Node) : Prop := ∃ c c', M c c' ∧ c.node = n ∧ c'.node = n'

theorem onNodes {M : Cursor → Cursor → Prop} {c c' : Cursor} (hc : M c c') : OnNodes M c.node c'.node :=
  ⟨c, c', hc, rfl, rfl⟩

/-- Paired places have nodes of one kind and role, and their children are woven. -/
structure Pairing (M : Cursor → Cursor → Prop) : Prop where
  info : ∀ {c c'}, M c c' → c'.node.info = { c.node.info with start := c'.node.start, stop := c'.node.stop }
  children : ∀ {c c'}, M c c' → Woven (fun d => d.node.IsStray) M c.children c'.children

namespace Pairing

variable {M : Cursor → Cursor → Prop} (h : Pairing M) {c c' : Cursor}

include h

theorem nodes : Node.Pairing (OnNodes M) where
  kind := by
    rintro _ _ ⟨c, c', hM, rfl, rfl⟩
    unfold Node.kind
    rw [h.info hM]
  field := by
    rintro _ _ ⟨c, c', hM, rfl, rfl⟩
    rw [h.info hM]
  named := by
    rintro _ _ ⟨c, c', hM, rfl, rfl⟩
    unfold Node.isNamed
    rw [h.info hM]
  error := by
    rintro _ _ ⟨c, c', hM, rfl, rfl⟩
    rw [h.info hM]
  missing := by
    rintro _ _ ⟨c, c', hM, rfl, rfl⟩
    rw [h.info hM]
  children := by
    rintro _ _ ⟨c, c', hM, rfl, rfl⟩
    rw [← map_node_children c, ← map_node_children c']
    exact (h.children hM).map (fun _ hb => hb) fun a _ b hab => ⟨a, b, hab, rfl, rfl⟩

/-- The pairs at and below a place. -/
theorem inside (a : Cursor) : Pairing fun c c' => a.Contains c ∧ M c c' where
  info hc := h.info hc.2
  children hc := (h.children hc.2).imp fun _ hd _ hM => ⟨hc.1.trans (contains_of_child hd), hM⟩

theorem child? (hc : M c c') (f : String) : Option.Rel M (c.child? f) (c'.child? f) :=
  (h.children hc).find? (fun _ hb => hb.not_hasField f) fun _ _ _ hab => h.nodes.hasField (onNodes hab) f

theorem firstProper? (hc : M c c') : Option.Rel M c.firstProper? c'.firstProper? :=
  (h.children hc).find? (fun _ hb => hb.not_proper) fun _ _ _ hab => h.nodes.isProper (onNodes hab)

theorem proper (hc : M c c') : List.Forall₂ M c.proper c'.proper :=
  (h.children hc).filter (fun _ hb => hb.not_proper) fun _ _ _ hab => h.nodes.isProper (onNodes hab)

theorem stripParens? (hc : M c c') : Option.Rel M c.stripParens? c'.stripParens? := by
  obtain ⟨n, above⟩ := c
  induction n using Node.ind generalizing above c' with
  | h n ih =>
    rw [stripParens?_eq, stripParens?_eq, h.nodes.shape (onNodes hc)]
    split
    · refine rel_bind (h.firstProper? hc) fun a ha b hab => ?_
      exact ih a.node (node_mem_of_child (firstProper?_mem ha)) a.above hab
    · exact .some hc

/-- Walks that stop at paired places, and at no stray, stop at paired places. -/
theorem frontier {stop stop' : Cursor → Bool} (hstop : ∀ c c', M c c' → stop c = stop' c')
    (hstray : ∀ d : Cursor, d.node.IsStray → stop' d = false) (hc : M c c') :
    List.Forall₂ M (c.frontier stop) (c'.frontier stop') := by
  have hnone : ∀ d : Cursor, d.node.IsStray → d.frontier stop' = [] := by
    intro d hd
    rw [frontier_eq, hstray d hd, if_neg (by simp)]
    simp [entered, Cursor.children, hd.children, childrenFrom]
  obtain ⟨n, above⟩ := c
  induction n using Node.ind generalizing above c' with
  | h n ih =>
    rw [frontier_eq, frontier_eq, hstop _ _ hc]
    split
    · exact .cons hc .nil
    · rw [flatMap_entered_eq, flatMap_entered_eq]
      refine Woven.forall₂ ((h.children hc).flatMap (fun b hb d hd => ?_) fun a ha b hab => ?_)
      · rw [hnone b hb, ite_self] at hd
        cases hd
      · rw [h.nodes.named (onNodes hab)]
        split
        · exact Woven.of_forall₂ (ih a.node (node_mem_of_child ha) a.above hab)
        · exact .nil

end Pairing

end Cursor

end DocAtlas

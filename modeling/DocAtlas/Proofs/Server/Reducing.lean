/-
Arguments as the call log takes them. A long text is not logged; its length is, under its key with `_len` after
it, in the table that takes all others under their own keys. So a long text `a` and an argument `a_len` go under
one key: one of them is lost, and which one depends on the order in which the arguments are visited.

`reduced_lossless_iff` says what is lost, and that nothing is where no two arguments meet like this.
-/
import DocAtlas.Proofs.Text.Tables
import DocAtlas.Server.CallLog

namespace DocAtlas

namespace CallRecord

/-- Whether an argument is logged by its length. -/
def isLong : Json → Bool
  | .str s => decide (maxText < s.length)
  | _ => false

/-- The key under which the length of a text is logged. -/
def lengthKey (key : Text) : Text := key ++ Text.ofString "_len"

theorem lengthKey_injective {k l : Text} (h : lengthKey k = lengthKey l) : k = l := List.append_cancel_right h

/-! ## One argument -/

theorem reduce_of_long {a : Text × Json} (h : isLong a.2 = true) :
    ∃ s, a.2 = .str s ∧ reduce a.1 a.2 = (lengthKey a.1, .nat s.length) := by
  obtain ⟨k, v⟩ := a
  cases v with
  | str s => exact ⟨s, rfl, if_pos (of_decide_eq_true h)⟩
  | _ => cases h

theorem reduce_of_kept {a : Text × Json} (h : isLong a.2 = false) : reduce a.1 a.2 = a := by
  obtain ⟨k, v⟩ := a
  cases v with
  | str s => exact if_neg (of_decide_eq_false h)
  | _ => rfl

/-- What an argument becomes is no long text. -/
theorem isLong_reduce (a : Text × Json) : isLong (reduce a.1 a.2).2 = false := by
  cases h : isLong a.2 with
  | true =>
    obtain ⟨s, -, hreduce⟩ := reduce_of_long h
    rw [hreduce]
    rfl
  | false => rw [reduce_of_kept h, h]

/-! ## All arguments -/

theorem reduced_eq (args : Arguments) : reduced args = Table.ofPairs (args.map fun a => reduce a.1 a.2) := by
  rw [reduced, Table.ofPairs, List.foldl_map]

theorem sorted_reduced (args : Arguments) : (reduced args : Table Json).Sorted := by
  rw [reduced_eq]
  exact Table.sorted_ofPairs _

/-- No long text is logged. -/
theorem isLong_of_mem_reduced {args : Arguments} {e : Text × Json} (h : e ∈ reduced args) : isLong e.2 = false := by
  rw [reduced_eq] at h
  obtain ⟨a, -, rfl⟩ := List.mem_map.1 (Table.mem_of_mem_ofPairs h)
  exact isLong_reduce a

/-- What is visited last is found as it was logged. -/
theorem find?_reduced_concat (args : Arguments) (a : Text × Json) :
    Table.find? (reduce a.1 a.2).1 (reduced (args ++ [a])) = some (reduce a.1 a.2).2 := by
  rw [reduced, List.foldl_append, List.foldl_cons, List.foldl_nil]
  exact (Table.find?_put _ _ _ _).trans (if_pos rfl)

/-! ## Arguments that meet -/

/-- A long text and another argument which go under one key. -/
def Meet (a b : Text × Json) : Prop := isLong a.2 = true ∧ isLong b.2 = false ∧ b.1 = lengthKey a.1

/-- Where arguments meet, the one that is kept is the length of the other. -/
def Agree (args : Arguments) : Prop := ∀ a ∈ args, ∀ b ∈ args, Meet a b → b.2 = (reduce a.1 a.2).2

/-- Whether the length of one of the arguments is logged under a key. -/
def isLengthKey (args : Arguments) (key : Text) : Bool := args.any fun a => isLong a.2 && key == lengthKey a.1

/-- The arguments that are to be kept and meet a long text. -/
def shared (args : Arguments) : Arguments := args.filter fun b => !isLong b.2 && isLengthKey args b.1

/-- The arguments that are to be kept and meet no long text. -/
def alone (args : Arguments) : Arguments := args.filter fun b => !isLong b.2 && !isLengthKey args b.1

theorem isLengthKey_iff {args : Arguments} {b : Text × Json} (hkept : isLong b.2 = false) :
    isLengthKey args b.1 = true ↔ ∃ a ∈ args, Meet a b := by
  simp only [isLengthKey, Meet, List.any_eq_true, Bool.and_eq_true, beq_iff_eq, hkept, true_and]

theorem mem_shared {args : Arguments} {b : Text × Json} : b ∈ shared args ↔ b ∈ args ∧ ∃ a ∈ args, Meet a b := by
  rw [shared, List.mem_filter, Bool.and_eq_true, Bool.not_eq_true']
  constructor
  · rintro ⟨hb, hkept, hkey⟩
    exact ⟨hb, (isLengthKey_iff hkept).1 hkey⟩
  · rintro ⟨hb, a, ha, hmeet⟩
    exact ⟨hb, hmeet.2.1, (isLengthKey_iff hmeet.2.1).2 ⟨a, ha, hmeet⟩⟩

theorem mem_alone {args : Arguments} {b : Text × Json} :
    b ∈ alone args ↔ b ∈ args ∧ isLong b.2 = false ∧ ¬ ∃ a ∈ args, Meet a b := by
  rw [alone, List.mem_filter, Bool.and_eq_true, Bool.not_eq_true', Bool.not_eq_true',
    ← Bool.not_eq_true (isLengthKey args b.1)]
  exact and_congr_right fun _ => and_congr_right fun hkept => not_congr (isLengthKey_iff hkept)

theorem key_of_meet {a b : Text × Json} (h : Meet a b) : (reduce a.1 a.2).1 = b.1 := by
  obtain ⟨s, -, hreduce⟩ := reduce_of_long h.1
  rw [hreduce]
  exact h.2.2.symm

variable {args : Arguments}

/-- Of a map, the arguments that go under one key are the same one, or they meet. -/
theorem eq_or_meet (hmap : (args.map Prod.fst).Nodup) {a b : Text × Json} (ha : a ∈ args) (hb : b ∈ args)
    (h : (reduce a.1 a.2).1 = (reduce b.1 b.2).1) : a = b ∨ Meet a b ∨ Meet b a := by
  have hsame : a.1 = b.1 → a = b := List.inj_on_of_nodup_map hmap ha hb
  cases hla : isLong a.2 <;> cases hlb : isLong b.2
  case false.false =>
    rw [reduce_of_kept hla, reduce_of_kept hlb] at h
    exact .inl (hsame h)
  case false.true =>
    obtain ⟨s, -, hreduce⟩ := reduce_of_long hlb
    rw [reduce_of_kept hla, hreduce] at h
    exact .inr (.inr ⟨hlb, hla, h⟩)
  case true.false =>
    obtain ⟨s, -, hreduce⟩ := reduce_of_long hla
    rw [reduce_of_kept hlb, hreduce] at h
    exact .inr (.inl ⟨hla, hlb, h.symm⟩)
  case true.true =>
    obtain ⟨s, -, hreduce⟩ := reduce_of_long hla
    obtain ⟨t, -, hreduce'⟩ := reduce_of_long hlb
    rw [hreduce, hreduce'] at h
    exact .inl (hsame (lengthKey_injective h))

/-- Two arguments that meet can be visited last, one after the other in either order. -/
theorem exists_order {a b : Text × Json} (ha : a ∈ args) (hb : b ∈ args) (h : Meet a b) :
    ∃ rest, (rest ++ [b] ++ [a]).Perm args ∧ (rest ++ [a] ++ [b]).Perm args := by
  have hne : b ≠ a := by
    rintro rfl
    exact Bool.false_ne_true (h.2.1.symm.trans h.1)
  obtain ⟨l, l', rfl⟩ := List.append_of_mem ha
  have hb' : b ∈ l ++ l' := by
    rcases List.mem_append.1 hb with hb | hb
    · exact List.mem_append_left _ hb
    · exact List.mem_append_right _ ((List.mem_cons.1 hb).resolve_left hne)
  obtain ⟨m, m', hm⟩ := List.append_of_mem hb'
  have hperm : (m ++ m' ++ [b] ++ [a]).Perm (l ++ a :: l') := by
    calc (m ++ m' ++ [b] ++ [a]).Perm (a :: (m ++ m' ++ [b])) := List.perm_append_singleton _ _
      _ |>.Perm (a :: b :: (m ++ m')) := (List.perm_append_singleton _ _).cons a
      _ |>.Perm (a :: (m ++ b :: m')) := List.perm_middle.symm.cons a
      _ |>.Perm (l ++ a :: l') := by rw [← hm]; exact List.perm_middle.symm
  refine ⟨m ++ m', hperm, List.Perm.trans ?_ hperm⟩
  simpa using (List.Perm.swap b a []).append_left (m ++ m')

/-! ## What is lost -/

/-- If arguments that meet agree, what goes under one key is one thing. -/
theorem consistent_of_agree (hmap : (args.map Prod.fst).Nodup) (h : Agree args) :
    ∀ p ∈ args.map fun a => reduce a.1 a.2, ∀ q ∈ args.map fun a => reduce a.1 a.2, p.1 = q.1 → p.2 = q.2 := by
  simp only [List.forall_mem_map]
  intro a ha b hb hkey
  rcases eq_or_meet hmap ha hb hkey with rfl | hmeet | hmeet
  · rfl
  · rw [reduce_of_kept hmeet.2.1]
    exact (h a ha b hb hmeet).symm
  · rw [reduce_of_kept hmeet.2.1]
    exact h b hb a ha hmeet

/-- The table is the same in every order exactly if arguments that meet agree. -/
theorem order_free_iff (hmap : (args.map Prod.fst).Nodup) :
    (∀ order : Arguments, order.Perm args → reduced order = reduced args) ↔ Agree args := by
  constructor
  · intro h a ha b hb hmeet
    obtain ⟨rest, hfirst, hlast⟩ := exists_order ha hb hmeet
    have hb' := find?_reduced_concat (rest ++ [a]) b
    have ha' := find?_reduced_concat (rest ++ [b]) a
    rw [h _ hlast, reduce_of_kept hmeet.2.1] at hb'
    rw [h _ hfirst, key_of_meet hmeet, hb'] at ha'
    exact Option.some.inj ha'
  · intro h order horder
    rw [reduced_eq, reduced_eq]
    exact (Table.ofPairs_congr (horder.map _).symm (consistent_of_agree hmap h)).symm

/-- In every order all arguments but long texts are kept exactly if arguments that meet agree. -/
theorem all_kept_iff (hmap : (args.map Prod.fst).Nodup) :
    (∀ order : Arguments, order.Perm args → ∀ b ∈ args, isLong b.2 = false → b ∈ reduced order) ↔ Agree args := by
  constructor
  · intro h a ha b hb hmeet
    obtain ⟨rest, hfirst, -⟩ := exists_order ha hb hmeet
    have hb' := Table.find?_of_mem (sorted_reduced _) (h _ hfirst b hb hmeet.2.1)
    have ha' := find?_reduced_concat (rest ++ [b]) a
    rw [key_of_meet hmeet, hb'] at ha'
    exact Option.some.inj ha'
  · intro h order horder b hb hkept
    rw [(order_free_iff hmap).2 h order horder, reduced_eq]
    refine Table.mem_of_find? ((Table.find?_ofPairs_iff (consistent_of_agree hmap h)).2 ?_)
    exact List.mem_map.2 ⟨b, hb, reduce_of_kept hkept⟩

/-- The keys of the table: those of what meets no long text, and those of the lengths. -/
theorem perm_keys_reduced (hmap : (args.map Prod.fst).Nodup) :
    (Table.keys (reduced args)).Perm
      ((alone args).map Prod.fst ++ (args.filter fun a => isLong a.2).map fun a => lengthKey a.1) := by
  have hnodup : (Table.keys (reduced args)).Nodup := (Table.pairwise_keys (sorted_reduced args)).imp And.right
  have hsub : ∀ p : Text × Json → Bool, ((args.filter p).map Prod.fst).Nodup := fun p =>
    (List.filter_sublist.map Prod.fst).nodup hmap
  refine (List.perm_ext_iff_of_nodup hnodup (List.nodup_append.2 ⟨hsub _, ?_, ?_⟩)).2 fun k => ?_
  · have := (hsub fun a => isLong a.2).map fun _ _ => lengthKey_injective
    rwa [List.map_map] at this
  · intro k hk l hl heq
    obtain ⟨b, hb, rfl⟩ := List.mem_map.1 hk
    obtain ⟨a, ha, rfl⟩ := List.mem_map.1 hl
    obtain ⟨ha, hlong⟩ := List.mem_filter.1 ha
    obtain ⟨-, hkept, hnone⟩ := mem_alone.1 hb
    exact hnone ⟨a, ha, hlong, hkept, heq⟩
  · rw [reduced_eq, Table.mem_keys_ofPairs]
    simp only [Table.keys, List.mem_append, List.map_map, List.mem_map, Function.comp_apply]
    constructor
    · rintro ⟨a, ha, rfl⟩
      cases hlong : isLong a.2 with
      | true =>
        obtain ⟨s, -, hreduce⟩ := reduce_of_long hlong
        exact .inr ⟨a, List.mem_filter.2 ⟨ha, hlong⟩, by rw [hreduce]⟩
      | false =>
        rw [reduce_of_kept hlong]
        by_cases hmeet : ∃ c ∈ args, Meet c a
        · obtain ⟨c, hc, hmeet⟩ := hmeet
          exact .inr ⟨c, List.mem_filter.2 ⟨hc, hmeet.1⟩, hmeet.2.2.symm⟩
        · exact .inl ⟨a, mem_alone.2 ⟨ha, hlong, hmeet⟩, rfl⟩
    · rintro (⟨b, hb, rfl⟩ | ⟨a, ha, rfl⟩)
      · obtain ⟨hb, hkept, -⟩ := mem_alone.1 hb
        exact ⟨b, hb, by rw [reduce_of_kept hkept]⟩
      · obtain ⟨ha, hlong⟩ := List.mem_filter.1 ha
        obtain ⟨s, -, hreduce⟩ := reduce_of_long hlong
        exact ⟨a, ha, by rw [hreduce]⟩

/-- The table has an entry less for every argument that meets a long text. -/
theorem length_reduced (hmap : (args.map Prod.fst).Nodup) :
    (reduced args).length + (shared args).length = args.length := by
  have hkeys := (perm_keys_reduced hmap).length_eq
  rw [Table.keys, List.length_map, List.length_append, List.length_map, List.length_map] at hkeys
  have hlong := List.length_eq_length_filter_add (l := args) fun a => isLong a.2
  have hkept := List.length_eq_length_filter_add (l := args.filter fun a => !isLong a.2) fun b => isLengthKey args b.1
  rw [List.filter_filter, List.filter_filter] at hkept
  simp only [Bool.and_comm _ (!isLong _)] at hkept
  unfold shared
  unfold alone at hkeys
  omega

/-- What meets a long text does so in every order. -/
theorem perm_shared {order : Arguments} (h : order.Perm args) : (shared order).Perm (shared args) := by
  unfold shared isLengthKey
  simp only [h.any_eq]
  exact h.filter _

/-- What a log of arguments is to keep: the same table in every order, an entry for each of them, the short ones as they
are, and no long text. -/
structure Lossless (args : Arguments) : Prop where
  order : ∀ order : Arguments, order.Perm args → reduced order = reduced args
  size : (reduced args).length = args.length
  kept : ∀ b ∈ args, isLong b.2 = false → b ∈ reduced args
  short : ∀ e ∈ reduced args, isLong e.2 = false

theorem lossless_iff (hmap : (args.map Prod.fst).Nodup) : Lossless args ↔ shared args = [] := by
  have hlength := length_reduced hmap
  constructor
  · intro h
    have := h.size
    exact List.length_eq_zero_iff.1 (by omega)
  · intro h
    have hagree : Agree args := fun a ha b hb hmeet => by
      have hb : b ∈ shared args := mem_shared.2 ⟨hb, a, ha, hmeet⟩
      rw [h] at hb
      cases hb
    rw [h, List.length_nil, Nat.add_zero] at hlength
    exact ⟨(order_free_iff hmap).2 hagree, hlength, (all_kept_iff hmap).2 hagree args (.refl _),
      fun e => isLong_of_mem_reduced⟩

/-- In every order of the arguments of a map no long text is logged, and there is an entry for each argument but one
less for each that meets a long text. The order does not matter, and arguments that are no long text are kept in every
order, exactly if each that meets a long text is its length; nothing is lost exactly if there is none. -/
theorem reduced_lossless_iff (hmap : (args.map Prod.fst).Nodup) :
    (∀ order : Arguments, order.Perm args →
      (∀ e ∈ reduced order, isLong e.2 = false) ∧ (reduced order).length + (shared args).length = args.length) ∧
    ((∀ order : Arguments, order.Perm args → reduced order = reduced args) ↔ Agree args) ∧
    ((∀ order : Arguments, order.Perm args → ∀ b ∈ args, isLong b.2 = false → b ∈ reduced order) ↔ Agree args) ∧
    (Lossless args ↔ shared args = []) := by
  refine ⟨fun order horder => ⟨fun e => isLong_of_mem_reduced, ?_⟩, order_free_iff hmap, all_kept_iff hmap,
    lossless_iff hmap⟩
  have hlength := length_reduced ((horder.map Prod.fst).nodup_iff.2 hmap)
  rwa [(perm_shared horder).length_eq, horder.length_eq] at hlength

/-- A text one byte too long to be logged, and another. -/
def longText (more : Nat) : Json := .str (List.replicate (maxText + 1 + more) 120)

/-- Two long texts, one of them under the key of the length of the other. -/
def longPair : Arguments := [("a", longText 0), ("a_len", longText 1), ("b", .bool true)]

theorem longPair_lossless : (longPair.map Prod.fst).Nodup ∧ Lossless longPair ∧
    reduced longPair = ([("a_len", .nat 65), ("a_len_len", .nat 66), ("b", .bool true)] : Arguments) := by
  have hmap : (longPair.map Prod.fst).Nodup := by decide
  exact ⟨hmap, (reduced_lossless_iff hmap).2.2.2.2 rfl, rfl⟩

/-- A long text and an argument under the key of its length. -/
def metPair (v : Json) : Arguments := [("a", longText 0), ("a_len", v)]

/-- A long text beside its length costs an entry; beside something else the order decides what is logged, and
the other argument may be lost. -/
theorem metPair_not_lossless :
    (¬ ∀ args : Arguments, (args.map Prod.fst).Nodup → (reduced args).length = args.length) ∧
    (¬ ∀ args order : Arguments, (args.map Prod.fst).Nodup → order.Perm args → reduced order = reduced args) ∧
    ¬ ∀ (args : Arguments) (b : Text × Json), (args.map Prod.fst).Nodup → b ∈ args → isLong b.2 = false →
    b ∈ reduced args := by
  have hkeys : ∀ v, ((metPair v).map Prod.fst).Nodup := fun v =>
    show [Text.ofString "a", "a_len"].Nodup by decide
  have hkept : reduced (metPair .null) = ([("a_len", .null)] : Arguments) := rfl
  have hlost : reduced (metPair .null).reverse = ([("a_len", .nat 65)] : Arguments) := rfl
  refine ⟨fun h => ?_, fun h => ?_, fun h => ?_⟩
  · exact absurd (h (metPair (.nat 65)) (hkeys _)) (by decide)
  · have := h (metPair .null) _ (hkeys _) (List.reverse_perm _)
    rw [hkept, hlost] at this
    cases this
  · have hmap : ((metPair .null).reverse.map Prod.fst).Nodup := by decide
    have := h _ ("a_len", .null) hmap (List.mem_cons_self ..) rfl
    rw [hlost] at this
    cases List.mem_singleton.1 this

end CallRecord

end DocAtlas

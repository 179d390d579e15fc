/-
A document that is written is read back, its texts without their stray bytes: indentation between the parts of a
value is white space to a reader, and every part ends where the next byte is a comma, a line end or the end of the
document. The fuel of a reader is twice the length of the text, and each level of nesting and each part takes at least
one byte. Conversely the texts in what was read have no stray bytes.
-/
import DocAtlas.Proofs.Json.Numbers
import DocAtlas.Proofs.Json.Strings
import DocAtlas.Proofs.Json.Values

namespace DocAtlas.Json

/-- Values that a document can hold as they are: whole numbers, and strings and keys in UTF-8. -/
inductive IsWritable : Json → Prop where
  | null : IsWritable null
  | bool (b : Bool) : IsWritable (bool b)
  | int (n : Int) : IsWritable (int n)
  | str {s : Text} (h : s.isUtf8 = true) : IsWritable (str s)
  | arr {items : List Json} (h : ∀ v ∈ items, IsWritable v) : IsWritable (arr items)
  | obj {members : List (Text × Json)} (hkeys : ∀ m ∈ members, m.1.isUtf8 = true) (h : ∀ m ∈ members, IsWritable m.2) :
      IsWritable (obj members)

/-- A value that can be written: its numbers are such as JSON writes them. -/
def HasNumbers (v : Json) : Prop := v.All IsNumber fun _ => True

/-- A value without the stray bytes of its texts, as it is read from what is written for it. -/
def scrubbed (v : Json) : Json := v.mapTexts id Text.scrubbed

theorem IsWritable.all {v : Json} (hv : IsWritable v) : v.All IsNumber fun s => s.isUtf8 = true := by
  induction hv with
  | null => exact .null
  | bool b => exact .bool b
  | int n => exact .num (isNumber_ofInt n)
  | str h => exact .str h
  | arr _ ih => exact .arr ih
  | obj hkeys _ ih => exact .obj hkeys ih

theorem scrubbed_of_all {number : Text → Prop} {v : Json} (hv : v.All number fun s => s.isUtf8 = true) :
    v.scrubbed = v :=
  mapTexts_of_all (hv.mono (fun _ _ => rfl) fun _ => scrubbed_of_isUtf8)

/-! ## White space -/

theorem skipSpace_cons {b : UInt8} (hb : isSpace b = false) (t : Text) : skipSpace (b :: t) = b :: t := by
  unfold skipSpace
  rw [List.dropWhile_cons_of_neg (by simpa using hb)]

theorem skipSpace_lineBreak (level : Nat) {b : UInt8} (hb : isSpace b = false) (t : Text) :
    skipSpace (lineBreak level ++ b :: t) = b :: t := by
  have hall : ∀ c ∈ lineBreak level, isSpace c = true := by
    intro c hc
    rcases List.mem_cons.1 hc with rfl | hc
    · rfl
    · rw [List.eq_of_mem_replicate hc]
      rfl
  unfold skipSpace
  rw [List.dropWhile_append_of_pos hall]
  exact skipSpace_cons hb t

theorem endsValue_comma (t : Text) : EndsValue (44 :: t) := fun _ hb => .inl (Option.some.inj hb).symm

theorem endsValue_lineBreak (level : Nat) (t : Text) : EndsValue (lineBreak level ++ t) := fun _ hb =>
  .inr (Option.some.inj hb).symm

/-! ## The first byte of a value -/

/-- A value starts with something that is neither white space nor the end of a list. -/
def StartsValue (t : Text) : Prop := ∃ b u, t = b :: u ∧ isSpace b = false ∧ b ≠ 93

theorem StartsValue.append {t : Text} (h : StartsValue t) (u : Text) : StartsValue (t ++ u) := by
  obtain ⟨b, v, rfl, hb⟩ := h
  exact ⟨b, v ++ u, rfl, hb⟩

theorem startsValue_number {lit : Text} (h : IsNumber lit) : StartsValue lit := by
  obtain ⟨b, u, heq, hb⟩ := h.starts
  refine ⟨b, u, heq, ?_, ?_⟩
  · rw [← Bool.not_eq_true]
    intro hspace
    simp only [isSpace, Bool.or_eq_true, beq_iff_eq] at hspace
    rcases hspace with ((rfl | rfl) | rfl) | rfl <;> rcases hb with hb | hb <;> cases hb
  · rintro rfl
    rcases hb with hb | hb <;> cases hb

theorem startsValue_prettyAt {v : Json} (hv : v.HasNumbers) (level : Nat) : StartsValue (prettyAt level v) := by
  cases hv with
  | null => exact ⟨_, _, rfl, rfl, by decide⟩
  | bool b => cases b <;> exact ⟨_, _, rfl, rfl, by decide⟩
  | num h =>
    rw [prettyAt]
    exact startsValue_number h
  | str h =>
    rw [prettyAt]
    exact ⟨34, _, rfl, rfl, by decide⟩
  | @arr items h =>
    cases items with
    | nil => exact ⟨91, [93], by rw [prettyAt]; rfl, rfl, by decide⟩
    | cons v vs =>
      rw [prettyAt]
      exact ⟨91, _, rfl, rfl, by decide⟩
  | @obj members hkeys h =>
    cases members with
    | nil => exact ⟨123, [125], by rw [prettyAt], rfl, by decide⟩
    | cons m ms =>
      rw [prettyAt]
      exact ⟨123, _, rfl, rfl, by decide⟩

/-! ## Reading parts -/

/-- A value is read from what is written for it, at every level, with as much fuel as bytes. -/
def IsRead (v : Json) : Prop :=
  ∀ level fuel rest, EndsValue rest → (prettyAt level v).length ≤ fuel →
    readValue fuel (prettyAt level v ++ rest) = some (v.scrubbed, rest)

theorem readValue_null (fuel : Nat) (rest : Text) : readValue (fuel + 1) ("null" ++ rest) = some (null, rest) := by
  rfl

theorem readValue_bool (fuel : Nat) (b : Bool) (rest : Text) :
    readValue (fuel + 1) (boolText b ++ rest) = some (bool b, rest) := by
  cases b <;> rfl

theorem quote_append (t u : Text) : quote true t ++ u = 34 :: (t.runes.flatMap (escapedRune true) ++ 34 :: u) := by
  unfold quote
  simp

theorem readValue_str (t : Text) (fuel : Nat) (rest : Text) :
    readValue (fuel + 1) (quote true t ++ rest) = some (str t.scrubbed, rest) := by
  rw [quote_append, readValue, readString_quote]
  rfl

theorem readValue_num {lit rest : Text} (hlit : IsNumber lit) (h : EndsValue rest) (fuel : Nat) :
    readValue (fuel + 1) (lit ++ rest) = some (num lit, rest) := by
  have hnumber := readNumber_append hlit h
  obtain ⟨b, u, heq, hb⟩ := hlit.starts
  -- no other kind of value starts like a number
  have hword : ∀ (w : UInt8) (ws : Text), w ≠ 45 → Text.isDigit w = false →
    Text.dropPrefix? (w :: ws) (lit ++ rest) = none := by
    intro w ws hminus hdigit
    rw [heq, List.cons_append, Text.dropPrefix?, if_neg]
    rintro rfl
    rcases hb with hb | hb
    · rw [hb] at hdigit; cases hdigit
    · exact hminus hb
  have hother : ∀ (w : UInt8) (v : Text), w ≠ 45 → Text.isDigit w = false → lit ++ rest ≠ w :: v := by
    intro w v hminus hdigit h
    have := hword w [] hminus hdigit
    rw [h] at this
    simp [Text.dropPrefix?] at this
  have htrue : Text.dropPrefix? "true" (lit ++ rest) = none := hword 116 _ (by decide) rfl
  have hfalse : Text.dropPrefix? "false" (lit ++ rest) = none := hword 102 _ (by decide) rfl
  have hnull : Text.dropPrefix? "null" (lit ++ rest) = none := hword 110 _ (by decide) rfl
  rw [readValue]
  · rw [htrue, hfalse, hnull, hnumber]
    rfl
  · rw [heq]
    exact List.cons_ne_nil _ _
  · exact fun v => hother 34 v (by decide) rfl
  · exact fun v => hother 91 v (by decide) rfl
  · exact fun v => hother 123 v (by decide) rfl

/-! ## Lists of parts -/

theorem length_prettyAt_pos {v : Json} (hv : v.HasNumbers) (level : Nat) : 0 < (prettyAt level v).length := by
  obtain ⟨b, u, heq, -⟩ := startsValue_prettyAt hv level
  rw [heq]
  exact Nat.succ_pos _

theorem startsValue_prettyItems {v : Json} (hv : v.HasNumbers) (vs : List Json) (level : Nat) :
    StartsValue (prettyItems level (v :: vs)) := by
  cases vs with
  | nil =>
    rw [prettyItems]
    exact startsValue_prettyAt hv level
  | cons w vs =>
    rw [prettyItems, List.append_assoc]
    exact (startsValue_prettyAt hv level).append _

/-- The items of an array are read if each of them is. -/
theorem readItems_pretty {vs : List Json} (hvs : ∀ v ∈ vs, v.HasNumbers ∧ IsRead v) (hne : vs ≠ [])
    (level outer fuel : Nat) (rest : Text) (hfuel : (prettyItems level vs).length + 1 ≤ fuel) :
    readItems fuel (prettyItems level vs ++ (lineBreak outer ++ 93 :: rest)) = some (vs.map scrubbed, rest) := by
  induction vs generalizing fuel with
  | nil => exact absurd rfl hne
  | cons v vs ih =>
    obtain ⟨⟨hwritable, hread⟩, hvs⟩ := List.forall_mem_cons.1 hvs
    obtain ⟨fuel, rfl⟩ := Nat.exists_eq_add_one_of_ne_zero (n := fuel) (by omega)
    cases vs with
    | nil =>
      rw [prettyItems] at hfuel ⊢
      rw [readItems, hread level fuel _ (endsValue_lineBreak _ _) (by omega)]
      simp only [skipSpace_lineBreak outer (show isSpace 93 = false by rfl)]
      rfl
    | cons w vs =>
      obtain ⟨b, u, hstart, hspace, -⟩ := startsValue_prettyItems (List.forall_mem_cons.1 hvs).1.1 vs level
      rw [prettyItems] at hfuel ⊢
      rw [List.append_assoc, List.append_assoc, List.cons_append]
      simp only [List.length_append, List.length_cons] at hfuel
      rw [readItems, hread level fuel _ (endsValue_comma _) (by omega)]
      have hskip : skipSpace (lineBreak level ++ (prettyItems level (w :: vs) ++ (lineBreak outer ++ 93 :: rest))) =
          prettyItems level (w :: vs) ++ (lineBreak outer ++ 93 :: rest) := by
        rw [hstart]
        exact skipSpace_lineBreak level hspace _
      simp only [skipSpace_cons (show isSpace 44 = false by rfl), hskip, ih hvs (List.cons_ne_nil _ _) fuel (by omega)]
      rfl

/-- What is read of an object behind the value of one of its members. -/
def afterMember (fuel : Nat) (m : Text × Json) (tail : Text) : Option (List (Text × Json) × Text) :=
  match skipSpace tail with
  | 44 :: rest => (readMembers fuel (skipSpace rest)).map fun (ms, rest) => (m :: ms, rest)
  | 125 :: rest => some ([m], rest)
  | _ => none

/-- One member, up to what ends its value. -/
theorem readMembers_member (k : Text) {v : Json} (hwritable : v.HasNumbers) (hread : IsRead v) {level fuel : Nat}
    (hfuel : (prettyAt level v).length ≤ fuel) {tail : Text} (htail : EndsValue tail) :
    readMembers (fuel + 1) (quote true k ++ (": " ++ (prettyAt level v ++ tail))) =
      afterMember fuel (k.scrubbed, v.scrubbed) tail := by
  obtain ⟨b, u, hstart, hspace, -⟩ := startsValue_prettyAt hwritable level
  have hcolon : skipSpace (": " ++ (prettyAt level v ++ tail)) = 58 :: 32 :: (prettyAt level v ++ tail) := rfl
  have hskip : skipSpace (32 :: (prettyAt level v ++ tail)) = prettyAt level v ++ tail := by
    rw [hstart]
    exact skipSpace_cons hspace _
  rw [quote_append, readMembers]
  simp only [readString_quote, hcolon, hskip, hread level fuel tail htail hfuel]
  rfl

theorem startsMember (m : Text × Json) (ms : List (Text × Json)) (level : Nat) :
    ∃ u, prettyMembers level (m :: ms) = 34 :: u := by
  obtain ⟨k, v⟩ := m
  cases ms with
  | nil =>
    rw [prettyMembers, List.append_assoc, quote_append]
    exact ⟨_, rfl⟩
  | cons n ms =>
    rw [prettyMembers, List.append_assoc, List.append_assoc, quote_append]
    exact ⟨_, rfl⟩

/-- The members of an object are read if each value is. -/
theorem readMembers_pretty {ms : List (Text × Json)} (hms : ∀ m ∈ ms, m.2.HasNumbers ∧ IsRead m.2) (hne : ms ≠ [])
    (level outer fuel : Nat) (rest : Text) (hfuel : (prettyMembers level ms).length + 1 ≤ fuel) :
    readMembers fuel (prettyMembers level ms ++ (lineBreak outer ++ 125 :: rest)) =
      some (ms.map fun m => (m.1.scrubbed, m.2.scrubbed), rest) := by
  induction ms generalizing fuel with
  | nil => exact absurd rfl hne
  | cons m ms ih =>
    obtain ⟨k, v⟩ := m
    obtain ⟨⟨hwritable, hread⟩, hms⟩ := List.forall_mem_cons.1 hms
    obtain ⟨fuel, rfl⟩ := Nat.exists_eq_add_one_of_ne_zero (n := fuel) (by omega)
    cases ms with
    | nil =>
      rw [prettyMembers] at hfuel ⊢
      simp only [List.length_append] at hfuel
      simp only [List.append_assoc]
      rw [readMembers_member (v := v) k hwritable hread (by omega) (endsValue_lineBreak _ _), afterMember]
      simp only [skipSpace_lineBreak outer (show isSpace 125 = false by rfl)]
      rfl
    | cons n ms =>
      obtain ⟨u, hstart⟩ := startsMember n ms level
      rw [prettyMembers] at hfuel ⊢
      simp only [List.length_append, List.length_cons] at hfuel
      have hskip : skipSpace (lineBreak level ++ (prettyMembers level (n :: ms) ++ (lineBreak outer ++ 125 :: rest))) =
          prettyMembers level (n :: ms) ++ (lineBreak outer ++ 125 :: rest) := by
        rw [hstart]
        exact skipSpace_lineBreak level (show isSpace 34 = false by rfl) _
      simp only [List.append_assoc, List.cons_append]
      rw [readMembers_member (v := v) k hwritable hread (by omega) (endsValue_comma _), afterMember]
      simp only [skipSpace_cons (show isSpace 44 = false by rfl), hskip, ih hms (List.cons_ne_nil _ _) fuel (by omega)]
      rfl

/-! ## Values and documents -/

/-- The fuel that covers a value is not none. -/
theorem exists_fuel {v : Json} (hv : v.HasNumbers) {level fuel : Nat} (hfuel : (prettyAt level v).length ≤ fuel) :
    ∃ n, fuel = n + 1 :=
  Nat.exists_eq_add_one_of_ne_zero (Nat.ne_of_gt (lt_of_lt_of_le (length_prettyAt_pos hv _) hfuel))

theorem isRead_arr {items : List Json} (h : ∀ v ∈ items, v.HasNumbers) (hread : ∀ v ∈ items, IsRead v) :
    IsRead (.arr items) := by
  intro level fuel rest hrest hfuel
  obtain ⟨fuel, rfl⟩ := exists_fuel (.arr h) hfuel
  unfold scrubbed
  rw [mapTexts_arr]
  cases items with
  | nil =>
    rw [prettyAt]
    rfl
  | cons v vs =>
    obtain ⟨b, u, hstart, hspace, hclose⟩ := startsValue_prettyItems (h v (List.mem_cons_self ..)) vs (level + 1)
    have hitems := readItems_pretty (fun w hw => ⟨h w hw, hread w hw⟩) (List.cons_ne_nil v vs) (level + 1)
      level fuel rest
    rw [prettyAt] at hfuel ⊢
    simp only [List.length_append, List.length_cons, List.length_nil] at hfuel
    simp only [List.append_assoc, List.cons_append, List.nil_append]
    rw [readValue, hstart, List.cons_append, skipSpace_lineBreak _ hspace, ← List.cons_append, ← hstart]
    split
    · rename_i heq
      rw [hstart] at heq
      exact absurd (List.cons.inj heq).1 hclose
    · rw [hitems (by omega)]
      rfl

theorem isRead_obj {members : List (Text × Json)} (h : ∀ m ∈ members, m.2.HasNumbers)
    (hread : ∀ m ∈ members, IsRead m.2) :
    IsRead (.obj members) := by
  intro level fuel rest hrest hfuel
  obtain ⟨fuel, rfl⟩ := exists_fuel (.obj (fun _ _ => trivial) h) hfuel
  unfold scrubbed
  rw [mapTexts_obj]
  cases members with
  | nil =>
    rw [prettyAt]
    rfl
  | cons m ms =>
    obtain ⟨u, hstart⟩ := startsMember m ms (level + 1)
    have hmembers := readMembers_pretty (fun w hw => ⟨h w hw, hread w hw⟩) (List.cons_ne_nil m ms) (level + 1)
      level fuel rest
    rw [prettyAt] at hfuel ⊢
    simp only [List.length_append, List.length_cons, List.length_nil] at hfuel
    simp only [List.append_assoc, List.cons_append, List.nil_append]
    rw [readValue, hstart, List.cons_append, skipSpace_lineBreak _ (show isSpace 34 = false by rfl),
      ← List.cons_append, ← hstart]
    split
    · rename_i heq
      rw [hstart] at heq
      cases (List.cons.inj heq).1
    · rw [hmembers (by omega)]
      rfl

/-- Every value that can be written is read. -/
theorem isRead_of_hasNumbers {v : Json} (hv : v.HasNumbers) : IsRead v := by
  induction hv with
  | null =>
    intro level fuel rest hrest hfuel
    obtain ⟨fuel, rfl⟩ := exists_fuel .null hfuel
    exact readValue_null fuel rest
  | bool b =>
    intro level fuel rest hrest hfuel
    obtain ⟨fuel, rfl⟩ := exists_fuel (.bool b) hfuel
    exact readValue_bool fuel b rest
  | num h =>
    intro level fuel rest hrest hfuel
    obtain ⟨fuel, rfl⟩ := exists_fuel (.num h) hfuel
    rw [prettyAt]
    exact readValue_num h hrest fuel
  | @str s h =>
    intro level fuel rest hrest hfuel
    obtain ⟨fuel, rfl⟩ := exists_fuel (.str h) hfuel
    rw [prettyAt]
    exact readValue_str s fuel rest
  | arr h ih => exact isRead_arr h ih
  | obj _ h ih => exact isRead_obj h ih

/-- A document is read back, without its stray bytes. -/
theorem parse?_pretty_scrubbed {v : Json} (hv : v.HasNumbers) : parse? (v.pretty ++ "\n") = some v.scrubbed := by
  obtain ⟨b, u, hstart, hspace, -⟩ := startsValue_prettyAt hv 0
  have hskip : skipSpace (v.pretty ++ "\n") = v.pretty ++ "\n" := by
    unfold pretty
    rw [hstart]
    exact skipSpace_cons hspace _
  have hread := isRead_of_hasNumbers hv 0 (2 * (v.pretty ++ Text.ofString "\n").length + 2) "\n"
    (endsValue_lineBreak 0 [])
    (by rw [List.length_append]; unfold pretty; omega)
  unfold parse?
  rw [hskip]
  unfold pretty at hread ⊢
  rw [hread]
  rfl

/-- Without stray bytes it is read as what was written. -/
theorem parse?_pretty_of_all {v : Json} (hv : v.All IsNumber fun s => s.isUtf8 = true) :
    parse? (v.pretty ++ "\n") = some v := by
  rw [parse?_pretty_scrubbed (hv.mono (fun _ h => h) fun _ _ => trivial), scrubbed_of_all hv]

theorem parse?_pretty {v : Json} (hv : IsWritable v) : parse? (v.pretty ++ "\n") = some v := parse?_pretty_of_all hv.all

/-! ## Texts that were read -/

/-- The texts of a value are in UTF-8. -/
def HasUtf8 (v : Json) : Prop := v.All (fun _ => True) fun s => s.isUtf8 = true

theorem isUtf8_readString {t s rest : Text} (h : readString t = some (s, rest)) : s.isUtf8 = true := by
  obtain ⟨us, -, h⟩ := Option.bind_eq_some_iff.1 h
  rw [← (Prod.mk.inj (Option.some.inj h)).1]
  exact Text.isUtf8_scrubbed _

/-- What readers with some fuel read has texts in UTF-8. -/
structure ReadsUtf8 (fuel : Nat) : Prop where
  value : ∀ {t rest v}, readValue fuel t = some (v, rest) → v.HasUtf8
  items : ∀ {t rest vs}, readItems fuel t = some (vs, rest) → ∀ v ∈ vs, v.HasUtf8
  members : ∀ {t rest ms}, readMembers fuel t = some (ms, rest) → ∀ m ∈ ms, m.1.isUtf8 = true ∧ m.2.HasUtf8

variable {fuel : Nat}

theorem ReadsUtf8.succ_value (ih : ReadsUtf8 fuel) {t rest : Text} {v : Json}
    (h : readValue (fuel + 1) t = some (v, rest)) :
    v.HasUtf8 := by
  rw [readValue.eq_def] at h
  simp only at h
  split at h
  · cases h
  · obtain ⟨⟨s, u⟩, hs, h⟩ := Option.map_eq_some_iff.1 h
    cases h
    exact .str (isUtf8_readString hs)
  · split at h
    · cases h
      exact .arr (List.forall_mem_nil _)
    · obtain ⟨⟨vs, u⟩, hvs, h⟩ := Option.map_eq_some_iff.1 h
      cases h
      exact .arr (ih.items hvs)
  · split at h
    · cases h
      exact .obj (List.forall_mem_nil _) (List.forall_mem_nil _)
    · obtain ⟨⟨ms, u⟩, hms, h⟩ := Option.map_eq_some_iff.1 h
      cases h
      exact all_obj.2 (ih.members hms)
  · split at h
    · cases h
      exact .bool true
    · split at h
      · cases h
        exact .bool false
      · split at h
        · cases h
          exact .null
        · obtain ⟨⟨lit, u⟩, -, h⟩ := Option.map_eq_some_iff.1 h
          cases h
          exact .num trivial

theorem ReadsUtf8.succ_items (ih : ReadsUtf8 fuel) {t rest : Text} {vs : List Json}
    (h : readItems (fuel + 1) t = some (vs, rest)) : ∀ v ∈ vs, v.HasUtf8 := by
  rw [readItems] at h
  split at h
  · cases h
  · rename_i v u hv
    split at h
    · obtain ⟨⟨ws, w⟩, hws, h⟩ := Option.map_eq_some_iff.1 h
      cases h
      exact List.forall_mem_cons.2 ⟨ih.value hv, ih.items hws⟩
    · cases h
      exact List.forall_mem_singleton.2 (ih.value hv)
    · cases h

theorem ReadsUtf8.succ_members (ih : ReadsUtf8 fuel) {t rest : Text} {ms : List (Text × Json)}
    (h : readMembers (fuel + 1) t = some (ms, rest)) : ∀ m ∈ ms, m.1.isUtf8 = true ∧ m.2.HasUtf8 := by
  rw [readMembers.eq_def] at h
  simp only at h
  split at h
  · split at h
    · cases h
    · rename_i key u hkey
      split at h
      · split at h
        · cases h
        · rename_i v w hv
          have hmember := And.intro (isUtf8_readString hkey) (ih.value hv)
          split at h
          · obtain ⟨⟨ns, x⟩, hns, h⟩ := Option.map_eq_some_iff.1 h
            cases h
            exact List.forall_mem_cons.2 ⟨hmember, ih.members hns⟩
          · cases h
            exact List.forall_mem_singleton.2 hmember
          · cases h
      · cases h
  · cases h

theorem readsUtf8 (fuel : Nat) : ReadsUtf8 fuel := by
  induction fuel with
  | zero => exact ⟨fun h => (by cases h), fun h => (by cases h), fun h => (by cases h)⟩
  | succ fuel ih => exact ⟨ih.succ_value, ih.succ_items, ih.succ_members⟩

/-- A document has texts in UTF-8, whatever bytes it was read from. -/
theorem hasUtf8_of_parse? {t : Text} {v : Json} (h : parse? t = some v) : v.HasUtf8 := by
  unfold parse? at h
  split at h
  · rename_i w rest hread
    split at h
    · cases h
      exact (readsUtf8 _).value hread
    · cases h
  · cases h

/-! ## Texts that hold a value -/

theorem isBlankByte_of_isSpace {b : UInt8} (h : isSpace b = true) : Text.IsBlankByte b := by
  simp only [isSpace, Bool.or_eq_true, beq_iff_eq] at h
  rcases h with ((rfl | rfl) | rfl) | rfl <;> decide

theorem isSolidByte_of_isDigit {b : UInt8} (h : Text.isDigit b = true) : Text.IsSolidByte b := by
  simp only [Text.isDigit, Bool.and_eq_true, decide_eq_true_eq, UInt8.le_iff_toNat_le] at h
  have hrange : 48 ≤ b.toNat ∧ b.toNat ≤ 57 := h
  refine ⟨UInt8.lt_iff_toNat_lt.2 (show b.toNat < 128 by omega), ?_⟩
  have hall : ∀ n ≤ 57, 48 ≤ n → Rune.isBlankCode n = false := by decide
  exact hall b.toNat hrange.2 hrange.1

/-- A value starts with a byte that is no white space. -/
theorem solid_of_readValue {fuel : Nat} {t rest : Text} {v : Json} (h : readValue fuel t = some (v, rest)) :
    ∃ b u, t = b :: u ∧ Text.IsSolidByte b := by
  have hword : ∀ {b : UInt8} {bs u t : Text}, Text.dropPrefix? (b :: bs) t = some u → Text.IsSolidByte b →
      ∃ b u, t = b :: u ∧ Text.IsSolidByte b := fun h hb => ⟨_, _, Text.dropPrefix?_eq_some.1 h, hb⟩
  cases fuel with
  | zero => cases h
  | succ fuel =>
    rw [readValue.eq_def] at h
    simp only at h
    split at h
    · cases h
    · exact ⟨_, _, rfl, by decide⟩
    · exact ⟨_, _, rfl, by decide⟩
    · exact ⟨_, _, rfl, by decide⟩
    · split at h
      · rename_i htrue
        exact hword htrue (by decide)
      · split at h
        · rename_i hfalse
          exact hword hfalse (by decide)
        · split at h
          · rename_i hnull
            exact hword hnull (by decide)
          · obtain ⟨p, hp, -⟩ := Option.map_eq_some_iff.1 h
            obtain ⟨b, u, rfl, hb⟩ := starts_of_readNumber hp
            refine ⟨b, u, rfl, ?_⟩
            rcases hb with hb | rfl
            · exact isSolidByte_of_isDigit hb
            · decide

/-- A text that holds a value is not blank. -/
theorem trim_of_parse? {t : Text} {v : Json} (h : parse? t = some v) : (Text.trim t).isEmpty = false := by
  obtain ⟨b, u, hsolid, hb⟩ : ∃ b u, skipSpace t = b :: u ∧ Text.IsSolidByte b := by
    unfold parse? at h
    split at h
    · rename_i hread
      exact solid_of_readValue hread
    · cases h
  have hsplit : t = t.takeWhile isSpace ++ b :: u := by
    rw [← hsolid]
    exact List.takeWhile_append_dropWhile.symm
  have hblank : ∀ c ∈ t.takeWhile isSpace, Text.IsBlankByte c :=
    fun c hc => isBlankByte_of_isSpace (List.all_eq_true.1 List.all_takeWhile c hc)
  rw [hsplit, Text.trim, Text.trimLeft_blanks hblank, Text.trimLeft_solid hb]
  have htrim := Text.trimRight_solid hb [] u
  rw [List.nil_append] at htrim
  rw [htrim]
  rfl

end DocAtlas.Json

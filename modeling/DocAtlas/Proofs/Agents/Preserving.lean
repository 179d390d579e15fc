/-
What registering does to the rest of a settings document. The members of the new document stand for those of the old
one, each number read as a floating-point number and written with the fewest digits, with the server entered among what
the key held; so what the old document said is kept exactly if each of its numbers survives this, and if the key held
an object or nothing.
-/
import DocAtlas.Proofs.Agents.Registering
import DocAtlas.Proofs.Json.Meaning
import DocAtlas.Proofs.Number.Wholes

namespace DocAtlas

open Json

namespace Registration

variable {existing key out : Text} {v : Json} {doc : Table Json} {extra : List (Text × Json)}

/-- A number that stands for the same after it was read as a floating-point number and written again. -/
def Survives (lit : Text) : Prop := numberOf (shortened lit) = numberOf lit

/-- The members `after` are those of `before` with the server entered under the key: what the key held is an object, or
nothing, and has the entry besides. -/
def AddsOnly (key : Text) (entry : Meaning) (before after : Table Meaning) : Prop :=
  ∃ servers, (Table.find? key before = some (.obj servers) ∨ Table.find? key before = none ∧ servers = []) ∧
    after = Table.put key (.obj (Table.put serverName entry servers)) before

/-! ## Numbers that survive -/

/-- Whole numbers of up to 53 bits survive. -/
theorem survives_ofInt {z : ℤ} (hz : z.natAbs < 2 ^ 53) : Survives (Text.ofInt z) := by
  by_cases hzero : z = 0
  · subst hzero
    unfold Survives
    decide +kernel
  · obtain ⟨x, hx, hneg, hexp, hmant⟩ :=
      Binary64.exists_ofDecimal?_whole (Int.natAbs_ne_zero.2 hzero) hz (decide (z < 0))
    have hfloat : float? (Text.ofInt z) = some x := by
      unfold float?
      rw [decimalOf_ofInt]
      exact hx
    have hshort : shortened (Text.ofInt z) = x.documentText := by
      unfold shortened
      rw [hfloat]
      rfl
    obtain ⟨t, htext, ht⟩ := exists_documentText (wf_of_float? hfloat)
    obtain ⟨n, e, hdecimal, hvalue⟩ := ht.decimalOf (signText_cases x)
    have hwhole : x.IsWhole z.natAbs := ⟨hexp, hmant⟩
    rw [hwhole.shortest (Int.natAbs_ne_zero.2 hzero) hz] at hvalue
    have hsign : (!(signText x).isEmpty) = decide (z < 0) := by
      rw [← hneg, signText]
      cases x.neg <;> rfl
    unfold Survives numberOf
    rw [hshort, htext, hdecimal, decimalOf_ofInt, hsign]
    simp only [zpow_zero, mul_one]
    split
    · rw [neg_mul, hvalue]
    · exact hvalue

/-! ## The new document -/

/-- A member that was set is written under its key without stray bytes, if this does not fall on another key. -/
theorem perm_scrubbed_put (hdoc : (obj doc).IsPlain) (hkey : key.isUtf8 = true ∨ key.scrubbed ∉ Table.keys doc)
    (v : Json) :
    (Table.put key.scrubbed v.scrubbed doc).Perm ((Table.put key v doc).map fun m => (m.1.scrubbed, m.2.scrubbed)) := by
  have hkeys : ∀ m ∈ doc, m.1.isUtf8 = true := fun m hm => (all_obj.1 hdoc.all m hm).1
  have hkept : doc.map (fun m => (m.1.scrubbed, m.2.scrubbed)) = doc :=
    (List.map_congr_left (g := id) fun m hm => Prod.ext (scrubbed_of_isUtf8 (hkeys m hm))
      (scrubbed_of_all (all_obj.1 hdoc.all m hm).2)).trans (List.map_id _)
  by_cases hutf8 : key.isUtf8 = true
  · -- no key changes
    have hmap : (Table.put key v doc).map (fun m => (m.1.scrubbed, m.2.scrubbed)) =
        (Table.put key v doc).map fun m => (m.1, m.2.scrubbed) :=
      List.map_congr_left fun m hm => by rw [scrubbed_of_isUtf8 (isUtf8_put hutf8 hkeys m hm)]
    have hvalues : doc.map (fun m => (m.1, m.2.scrubbed)) = doc := by
      refine Eq.trans (List.map_congr_left fun m hm => ?_) hkept
      rw [scrubbed_of_isUtf8 (hkeys m hm)]
    rw [hmap, Table.map_put scrubbed, hvalues, scrubbed_of_isUtf8 hutf8]
  · -- the key is new, and so is what it is written as
    have hnew : key ∉ Table.keys doc := fun hmem => by
      obtain ⟨m, hm, rfl⟩ := List.mem_map.1 hmem
      exact hutf8 (hkeys m hm)
    have hperm := (Table.perm_put v hnew).map fun m => (m.1.scrubbed, m.2.scrubbed)
    rw [List.map_cons, hkept] at hperm
    exact (Table.perm_put v.scrubbed (hkey.resolve_left hutf8)).trans hperm.symm

theorem meanings_scrubbed_put (hdoc : (obj doc).IsPlain) (hkey : key.isUtf8 = true ∨ key.scrubbed ∉ Table.keys doc)
    (v : Json) :
    meanings ((Table.put key v doc).map fun m => (m.1.scrubbed, m.2.scrubbed)) =
      Table.put key.scrubbed v.scrubbed.meaning (meanings doc) := by
  have hsorted := sorted_of_isPlain hdoc
  rw [← meanings_perm (perm_scrubbed_put hdoc hkey v) (Table.sorted_put _ _ hsorted), meanings_put hsorted]

/-- What the new document stands for. -/
def newMeanings (key : Text) (e : Meaning) (doc : Table Json) : Table Meaning :=
  Table.put key.scrubbed (.obj (Table.put serverName e (meanings (serversOf key doc)))) (meanings doc)

theorem meanings_entered (hdoc : (obj doc).IsPlain) (hkey : key.isUtf8 = true ∨ key.scrubbed ∉ Table.keys doc) :
    meanings ((entered key extra doc).map fun m => (m.1.scrubbed, m.2.scrubbed)) =
      newMeanings key (entry extra).scrubbed.meaning doc := by
  have hservers := meanings_scrubbed_put (isPlain_serversOf hdoc key) (.inl isUtf8_serverName) (entry extra)
  rw [scrubbed_of_isUtf8 isUtf8_serverName] at hservers
  unfold entered newMeanings
  rw [meanings_scrubbed_put hdoc hkey, ← hservers]
  congr 1
  unfold scrubbed
  rw [mapTexts_obj, meaning_obj]

/-! ## The old document -/

/-- Members of an object in order, and the document made of them. -/
structure IsShortened (us doc : Table Json) : Prop where
  inOrder : (obj us).InOrder
  keys : ∀ m ∈ us, m.1.isUtf8 = true
  doc : doc = us.map fun m => (m.1, m.2.mapTexts shortened id)

variable {us : Table Json}

/-- The members of a document are those of its object in order, each number as documents write it. -/
theorem exists_isShortened (h : value existing = .ok (.obj doc)) :
    ∃ ms us, parse? existing = some (.obj ms) ∧ (obj ms).sorted = .obj us ∧ IsShortened us doc := by
  obtain ⟨w, hparse, -, hdoc⟩ := value_eq_ok.1 h
  rw [sorted_mapTexts] at hdoc
  cases w with
  | obj ms =>
    have hutf8 := (hasUtf8_of_parse? hparse).sorted
    have horder := inOrder_sorted (.obj ms)
    rw [sorted_obj] at hdoc hutf8 horder
    rw [mapTexts_obj] at hdoc
    exact ⟨ms, _, hparse, sorted_obj ms, horder, fun m hm => (all_obj.1 hutf8 m hm).1, Json.obj.inj hdoc⟩
  | _ => cases hdoc

theorem IsShortened.sorted (h : IsShortened us doc) : Table.Sorted us := (inOrder_obj.1 h.inOrder).1

theorem IsShortened.find? (h : IsShortened us doc) (k : Text) :
    Table.find? k doc = (Table.find? k us).map fun v => v.mapTexts shortened id := by
  rw [h.doc]
  exact Table.find?_map (fun v : Json => v.mapTexts shortened id) k us

theorem IsShortened.sorted_doc (h : IsShortened us doc) : Table.Sorted doc := by
  rw [h.doc]
  exact (Table.sorted_map _).2 h.sorted

theorem find?_meanings_of_sorted (h : Table.Sorted us) (k : Text) :
    Table.find? k (meanings us) = (Table.find? k us).map meaning := by
  rw [meanings_of_sorted h]
  exact Table.find?_map meaning k us

theorem sorted_meanings (ms : List (Text × Json)) : Table.Sorted (meanings ms) := Table.sorted_ofPairs _

/-- The document stands for what its members did exactly if each number survives. -/
theorem IsShortened.meanings_eq (h : IsShortened us doc) :
    meanings doc = meanings us ↔ (obj us).All Survives fun _ => True := by
  have hiff : ((obj us).mapTexts shortened id).meaning = (obj us).meaning ↔ (obj us).All Survives fun _ => True :=
    meaning_mapTexts_iff h.inOrder
  rw [mapTexts_obj, meaning_obj, meaning_obj, Meaning.obj.injEq] at hiff
  rw [h.doc]
  exact hiff

/-- The servers of the document are those the key held. -/
theorem IsShortened.serversOf_eq (h : IsShortened us doc) (hkey : key.isUtf8 = true ∨ key.scrubbed ∉ Table.keys us) :
    serversOf key doc = match Table.find? key.scrubbed us with
      | some (.obj servers) => servers.map fun m => (m.1, m.2.mapTexts shortened id)
      | _ => [] := by
  have hheld : Table.find? key doc = (Table.find? key.scrubbed us).map fun v => v.mapTexts shortened id := by
    rw [h.find?]
    by_cases hutf8 : key.isUtf8 = true
    · rw [scrubbed_of_isUtf8 hutf8]
    · have hnone : ∀ k, k ∉ Table.keys us → Table.find? k us = none := fun k hk =>
        Option.not_isSome_iff_eq_none.1 (mt Table.isSome_find?.1 hk)
      have hnew : key ∉ Table.keys us := fun hmem => by
        obtain ⟨m, hm, rfl⟩ := List.mem_map.1 hmem
        exact hutf8 (h.keys m hm)
      rw [hnone _ hnew, hnone _ (hkey.resolve_left hutf8)]
  unfold serversOf servers?
  rw [hheld]
  cases Table.find? key.scrubbed us with
  | none => rfl
  | some v =>
    cases v with
    | obj servers =>
      rw [Option.map_some, mapTexts_obj]
      rfl
    | arr items =>
      rw [Option.map_some, mapTexts_arr]
      rfl
    | _ => rfl

/-! ## What is kept -/

section

variable {servers : List (Text × Json)}

/-- A key that held nothing. -/
theorem IsShortened.addsOnly_of_none (h : IsShortened us doc) (hkey : key.isUtf8 = true ∨ key.scrubbed ∉ Table.keys us)
    (hheld : Table.find? key.scrubbed us = none) (e : Meaning) :
    AddsOnly key.scrubbed e (meanings us) (newMeanings key e doc) ↔ meanings doc = meanings us := by
  have hus : Table.find? key.scrubbed (meanings us) = none := by
    rw [find?_meanings_of_sorted h.sorted, hheld, Option.map_none]
  have hdoc : Table.find? key.scrubbed (meanings doc) = none := by
    rw [find?_meanings_of_sorted h.sorted_doc, h.find?, hheld, Option.map_none, Option.map_none]
  have hservers : serversOf key doc = [] := by rw [h.serversOf_eq hkey, hheld]
  unfold newMeanings
  rw [hservers]
  constructor
  · rintro ⟨servers, -, heq⟩
    exact Table.eq_of_put_eq (sorted_meanings _) (sorted_meanings _) heq (hdoc.trans hus.symm)
  · intro heq
    exact ⟨[], .inr ⟨hus, rfl⟩, by rw [heq]; rfl⟩

/-- A key that held an object without the server. -/
theorem IsShortened.addsOnly_of_obj (h : IsShortened us doc) (hkey : key.isUtf8 = true ∨ key.scrubbed ∉ Table.keys us)
    (hheld : Table.find? key.scrubbed us = some (.obj servers)) (hnew : isEntered (serversOf key doc) = false)
    (e : Meaning) :
    AddsOnly key.scrubbed e (meanings us) (newMeanings key e doc) ↔ meanings doc = meanings us := by
  have hservers : serversOf key doc = servers.map fun m => (m.1, m.2.mapTexts shortened id) := by
    rw [h.serversOf_eq hkey, hheld]
  have hus : Table.find? key.scrubbed (meanings us) = some (.obj (meanings servers)) := by
    rw [find?_meanings_of_sorted h.sorted, hheld, Option.map_some, meaning_obj]
  have hdoc : Table.find? key.scrubbed (meanings doc) = some (.obj (meanings (serversOf key doc))) := by
    rw [find?_meanings_of_sorted h.sorted_doc, h.find?, hheld, Option.map_some, Option.map_some, mapTexts_obj,
      meaning_obj, hservers]
    rfl
  unfold newMeanings
  constructor
  · rintro ⟨servers', hservers' | ⟨hnone, -⟩, heq⟩
    · obtain rfl := Meaning.obj.inj (Option.some.inj (hus.symm.trans hservers'))
      have hentries := Meaning.obj.inj ((Table.put_inj (sorted_meanings _) (sorted_meanings _)).1 heq).1
      -- the server is in neither of them
      have hsorted : Table.Sorted servers :=
        (inOrder_obj.1 ((inOrder_obj.1 h.inOrder).2 _ (Table.mem_of_find? hheld))).1
      have hname : Table.find? serverName (meanings (serversOf key doc)) =
        Table.find? serverName (meanings servers) := by
        rw [hservers, isEntered, Table.find?_map (fun v : Json => v.mapTexts shortened id), Option.isSome_map,
          Option.isSome_eq_false_iff, Option.isNone_iff_eq_none] at hnew
        rw [hservers, find?_meanings_of_sorted ((Table.sorted_map _).2 hsorted), find?_meanings_of_sorted hsorted,
          Table.find?_map (fun v : Json => v.mapTexts shortened id), hnew]
        rfl
      rw [Table.eq_of_put_eq (sorted_meanings _) (sorted_meanings _) hentries hname] at hdoc
      exact Table.eq_of_put_eq (sorted_meanings _) (sorted_meanings _) heq (hdoc.trans hus.symm)
    · rw [hus] at hnone
      cases hnone
  · intro heq
    exact ⟨_, .inl (heq ▸ hdoc), by rw [heq]⟩

/-- A key that held something else. -/
theorem not_addsOnly {v : Json} (hus : Table.Sorted us) (hheld : Table.find? key us = some v)
    (hv : ¬ ∃ servers, v = .obj servers) (e : Meaning) (after : Table Meaning) :
      ¬ AddsOnly key e (meanings us) after := by
  have hfind := find?_meanings_of_sorted hus key
  rw [hheld] at hfind
  rintro ⟨servers, hservers | ⟨hnone, -⟩, -⟩
  · rw [hfind] at hservers
    exact hv (exists_of_meaning_eq_obj (Option.some.inj hservers))
  · rw [hfind] at hnone
    cases hnone

end

/-- Only the server is added exactly if each number survives and the key held an object or nothing. -/
theorem IsShortened.addsOnly_iff (h : IsShortened us doc) (hkey : key.isUtf8 = true ∨ key.scrubbed ∉ Table.keys us)
    (hnew : isEntered (serversOf key doc) = false) (e : Meaning) :
    AddsOnly key.scrubbed e (meanings us) (newMeanings key e doc) ↔
      ((obj us).All Survives fun _ => True) ∧ ∀ v, Table.find? key.scrubbed us = some v →
      ∃ servers, v = .obj servers := by
  rw [← h.meanings_eq]
  cases hheld : Table.find? key.scrubbed us with
  | none => simpa using h.addsOnly_of_none hkey hheld e
  | some v =>
    by_cases hobj : ∃ servers, v = .obj servers
    · obtain ⟨servers, rfl⟩ := hobj
      simpa using h.addsOnly_of_obj hkey hheld hnew e
    · exact iff_of_false (not_addsOnly h.sorted hheld hobj e _) fun hright => hobj (hright.2 v rfl)

/-- The same of a document and what is written for it. -/
theorem addsOnly_entered_iff {ms us : List (Text × Json)} (hdoc : (obj doc).IsPlain)
    (hsorted : (obj ms).sorted = .obj us) (hshort : IsShortened us doc)
    (hkey : key.isUtf8 = true ∨ key.scrubbed ∉ ms.map Prod.fst) (hnew : isEntered (serversOf key doc) = false) :
    AddsOnly key.scrubbed (entry extra).scrubbed.meaning (meanings ms)
        (meanings ((entered key extra doc).map fun m => (m.1.scrubbed, m.2.scrubbed))) ↔
      ((obj ms).sorted.All Survives fun _ => True) ∧ ∀ v, lookup? key.scrubbed ms = some v →
      ∃ servers, v = .obj servers := by
  have hus : us = Table.ofPairs (ms.map fun m => (m.1, m.2.sorted)) := by
    rw [sorted_obj] at hsorted
    exact (Json.obj.inj hsorted).symm
  have hkeys : ∀ k, k ∈ Table.keys us ↔ k ∈ ms.map Prod.fst := fun k => by
    rw [hus, Table.mem_keys_ofPairs, Table.keys, List.map_map]
    rfl
  have hsame : Table.keys doc = Table.keys us := by
    rw [hshort.doc, Table.keys, List.map_map]
    rfl
  have hmeanings : meanings us = meanings ms := by
    have heq := meaning_sorted (.obj ms)
    rw [hsorted, meaning_obj, meaning_obj] at heq
    exact Meaning.obj.inj heq
  have hkey' : key.isUtf8 = true ∨ key.scrubbed ∉ Table.keys us := hkey.imp_right (mt (hkeys _).1)
  have hiff := hshort.addsOnly_iff hkey' hnew (entry extra).scrubbed.meaning
  rw [hmeanings, ← meanings_entered hdoc (hsame ▸ hkey'), ← hsorted] at hiff
  refine hiff.trans (and_congr_right fun _ => ?_)
  rw [hus, find?_ofPairs_lookup?]
  cases lookup? key.scrubbed ms with
  | none => simp
  | some v => simpa using sorted_eq_obj

/-- A document without the server always becomes one that can be read. -/
theorem exists_add (hdoc : value existing = .ok (.obj doc)) (hnew : isRegistered existing key = false)
    (hextra : ∀ m ∈ extra, m.2.HasNumbers) : ∃ out, add existing key extra = .ok (some out) ∧
      parse? out = some (.obj ((entered key extra doc).map fun m => (m.1.scrubbed, m.2.scrubbed))) := by
  have hplain := isPlain_value hdoc
  have hentered : (obj (entered key extra doc)).HasNumbers :=
    all_entered ((isPlain_serversOf hplain key).isEncodable.mono (fun _ h => h.1) fun _ h => h)
      (hplain.isEncodable.mono (fun _ h => h.1) fun _ h => h) hextra
  rw [isRegistered_of_value hdoc] at hnew
  exact ⟨_, add_eq_some.2 ⟨doc, document_of_value hdoc, hnew, rfl⟩,
    (parse?_pretty_scrubbed hentered).trans (congrArg some (mapTexts_obj _))⟩

/-- Registering the server in a document without it makes a document, and one that differs by the entry alone exactly if
every number that counts survives and the key held an object or nothing. A key with stray bytes is written without
them; what becomes of another member of that name is left open. -/
theorem add_addsOnly_iff (hdoc : value existing = .ok (.obj doc)) (hnew : isRegistered existing key = false)
    (hextra : ∀ m ∈ extra, m.2.HasNumbers) :
    ∃ ms out ms', parse? existing = some (.obj ms) ∧ add existing key extra = .ok (some out) ∧
    parse? out = some (.obj ms') ∧
      (key.isUtf8 = true ∨ key.scrubbed ∉ ms.map Prod.fst →
        (AddsOnly key.scrubbed (entry extra).scrubbed.meaning (meanings ms) (meanings ms') ↔
          ((obj ms).sorted.All Survives fun _ => True) ∧ ∀ v, lookup? key.scrubbed ms = some v →
          ∃ servers, v = .obj servers)) := by
  obtain ⟨ms, us, hparse, hsorted, hread⟩ := exists_isShortened hdoc
  obtain ⟨out, hadd, hout⟩ := exists_add hdoc hnew hextra
  rw [isRegistered_of_value hdoc] at hnew
  exact ⟨ms, out, _, hparse, hadd, hout, fun hkey => addsOnly_entered_iff (isPlain_value hdoc) hsorted hread hkey hnew⟩

/-- Settings with the largest whole number of 53 bits, and with a decimal that is the shortest one for its number. -/
def keptSettings : Json :=
  .obj [("id", .int 9007199254740991), ("ratio", .num "0.1"), ("servers", .obj [("other", .obj [])])]

theorem all_keptSettings {number text : Text → Prop} (hid : number (Text.ofInt 9007199254740991))
    (hratio : number "0.1") (htext : ∀ s, s.isUtf8 = true → text s) : keptSettings.All number text := by
  have hother : (obj [("other", .obj [])]).All number text :=
    .obj (List.forall_mem_singleton.2 (htext _ (by decide)))
      (List.forall_mem_singleton.2 (.obj (List.forall_mem_nil _) (List.forall_mem_nil _)))
  refine all_obj.2 ?_
  simp only [List.forall_mem_cons]
  exact ⟨⟨htext _ (by decide), .num hid⟩, ⟨htext _ (by decide), .num hratio⟩, ⟨htext _ (by decide), hother⟩,
    List.forall_mem_nil _⟩

theorem shortened_tenth : IsNumber "0.1" ∧ Fits "0.1" ∧ shortened "0.1" = "0.1" := by decide +kernel

theorem parse?_keptSettings : parse? (keptSettings.pretty ++ "\n") = some keptSettings :=
  parse?_pretty_of_all (all_keptSettings (isNumber_ofInt _) shortened_tenth.1 fun _ h => h)

theorem value_keptSettings : value (keptSettings.pretty ++ "\n") = .ok keptSettings := by
  have hwhole : Fits (Text.ofInt 9007199254740991) ∧
    shortened (Text.ofInt 9007199254740991) = Text.ofInt 9007199254740991 := by
    decide +kernel
  have hfits : keptSettings.All Fits fun _ => True := all_keptSettings hwhole.1 shortened_tenth.2.1 fun _ _ => trivial
  have hmap : keptSettings.mapTexts shortened id = keptSettings :=
    mapTexts_of_all (all_keptSettings hwhole.2 shortened_tenth.2.2 fun _ _ => rfl)
  refine value_eq_ok.2 ⟨keptSettings, parse?_keptSettings, by rw [floats?_of_all hfits]; rfl, ?_⟩
  rw [hmap]
  rfl

/-- They are kept, as both numbers survive and the key holds an object. -/
theorem keptSettings_kept : value (keptSettings.pretty ++ "\n") = .ok keptSettings ∧
    isRegistered (keptSettings.pretty ++ "\n") "servers" = false ∧
    ∃ ms out ms', parse? (keptSettings.pretty ++ "\n") = some (.obj ms) ∧
      add (keptSettings.pretty ++ "\n") "servers" [("type", .str "stdio")] = .ok (some out) ∧
      parse? out = some (.obj ms') ∧
      AddsOnly (Text.scrubbed "servers") (entry [("type", .str "stdio")]).scrubbed.meaning (meanings ms)
      (meanings ms') := by
  have hnew : isRegistered (keptSettings.pretty ++ "\n") "servers" = false := by
    rw [isRegistered_of_value value_keptSettings]
    decide
  have hextra : ∀ m ∈ [(Text.ofString "type", Json.str "stdio")], m.2.HasNumbers :=
    List.forall_mem_singleton.2 (.str trivial)
  obtain ⟨ms, out, ms', hms, hadd, hout, hiff⟩ := add_addsOnly_iff value_keptSettings hnew hextra
  cases parse?_keptSettings.symm.trans hms
  have hsurvive : keptSettings.All Survives fun _ => True :=
    all_keptSettings (survives_ofInt (by decide)) (congrArg numberOf shortened_tenth.2.2) fun _ _ => trivial
  refine ⟨value_keptSettings, hnew, _, out, ms', hms, hadd, hout,
    (hiff (.inl (by decide))).2 ⟨hsurvive.sorted, fun v hv => ?_⟩⟩
  cases hv
  exact ⟨_, rfl⟩

/-- Settings with a number between two floating-point numbers. -/
def bigSettings : Text := "\x7b\n  \"id\": 9007199254740993\n\x7d\n"

theorem parse?_bigSettings : parse? bigSettings = some (.obj [("id", .num "9007199254740993")]) := by
  have htext : bigSettings = (obj [("id", .num "9007199254740993")]).pretty ++ "\n" := by decide +kernel
  rw [htext]
  exact parse?_pretty_of_all (all_obj.2 (List.forall_mem_singleton.2 ⟨by decide +kernel, .num (by decide +kernel)⟩))

theorem shortened_big : shortened "9007199254740993" = "9007199254740992" := by decide +kernel

theorem value_bigSettings : value bigSettings = .ok (.obj [("id", .num "9007199254740992")]) := by
  have hfits : (obj [("id", .num "9007199254740993")]).All Fits fun _ => True :=
    all_obj.2 (List.forall_mem_singleton.2 ⟨trivial, .num (by decide +kernel)⟩)
  refine value_eq_ok.2 ⟨_, parse?_bigSettings, by rw [floats?_of_all hfits]; rfl, ?_⟩
  rw [mapTexts_obj, List.map_singleton, mapTexts, shortened_big]
  rfl

theorem not_survives_big : ¬ Survives "9007199254740993" := by
  unfold Survives
  rw [shortened_big]
  decide +kernel

/-- The number becomes the even one of its neighbours. -/
theorem bigSettings_not_kept : ¬ ∀ (existing key : Text) (extra : List (Text × Json)) (doc : Table Json),
    value existing = .ok (.obj doc) → isRegistered existing key = false → (∀ m ∈ extra, m.2.HasNumbers) →
    key.isUtf8 = true →
      ∃ ms out ms', parse? existing = some (.obj ms) ∧ add existing key extra = .ok (some out) ∧
      parse? out = some (.obj ms') ∧
        AddsOnly key (entry extra).scrubbed.meaning (meanings ms) (meanings ms') := by
  intro h
  have hplain := isPlain_value value_bigSettings
  have hnew : isRegistered bigSettings "servers" = false := by
    rw [isRegistered_of_value value_bigSettings]
    decide
  obtain ⟨ms, out, ms', hparse, hadd, hout, hadds⟩ :=
    h bigSettings "servers" [] _ value_bigSettings hnew (List.forall_mem_nil _) (by decide)
  obtain ⟨ms₀, us, hparse₀, hsorted, hread⟩ := exists_isShortened value_bigSettings
  obtain ⟨out₀, hadd₀, hout₀⟩ := exists_add value_bigSettings hnew (List.forall_mem_nil _)
  cases hparse.symm.trans hparse₀
  cases hadd.symm.trans hadd₀
  cases hout.symm.trans hout₀
  cases hparse.symm.trans parse?_bigSettings
  rw [isRegistered_of_value value_bigSettings] at hnew
  have hkey : Text.isUtf8 "servers" = true := by decide
  have hsurvive := ((addsOnly_entered_iff hplain hsorted hread (.inl hkey) hnew).1 (by rwa [scrubbed_of_isUtf8 hkey])).1
  cases (all_obj.1 hsurvive _ (List.mem_singleton.2 rfl)).2 with
  | num h => exact not_survives_big h

end Registration

end DocAtlas

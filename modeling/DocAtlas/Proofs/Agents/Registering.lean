/-
Registering the server again. What is read of a document can be written, and what is written is read as the same members
with their values read once more; so an entry that was made is found, by the check of a settings file and by the next
registration alike, and nothing is added to a document that has one. A document that cannot be read leaves every file as
it was, though directories may have been made.
-/
import DocAtlas.Agents.Setup
import DocAtlas.Proofs.Files.Restoring
import DocAtlas.Proofs.Json.Documents
import DocAtlas.Proofs.Json.Floats

namespace DocAtlas

namespace Json

variable {v : Json} {ms : List (Text × Json)}

/-! ## Values that are written and read -/

/-- A value whose numbers can be written, and read as floating-point numbers. -/
def IsEncodable (v : Json) : Prop := v.All (fun lit => IsNumber lit ∧ Fits lit) fun _ => True

/-- A value as documents hold it: texts in UTF-8 besides, and members in order. -/
structure IsPlain (v : Json) : Prop where
  all : v.All (fun lit => IsNumber lit ∧ Fits lit) fun s => s.isUtf8 = true
  inOrder : v.InOrder

theorem IsPlain.isEncodable (h : v.IsPlain) : v.IsEncodable := h.all.mono (fun _ h => h) fun _ _ => trivial

/-- A value as a document that was written for it holds it. -/
def reread (v : Json) : Json := (v.scrubbed.mapTexts shortened id).sorted

/-- The members of an object are read as such. -/
theorem reread_obj (hsorted : Table.Sorted ms) (hkeys : ∀ m ∈ ms, m.1.isUtf8 = true) :
    (obj ms).reread = obj (ms.map fun m => (m.1, m.2.reread)) := by
  have hmap : ms.map (fun m => (m.1.scrubbed, m.2.scrubbed)) = ms.map fun m => (m.1, m.2.scrubbed) :=
    List.map_congr_left fun m hm => by rw [scrubbed_of_isUtf8 (hkeys m hm)]
  unfold reread scrubbed
  rw [mapTexts_obj]
  change ((obj (ms.map fun m => (m.1.scrubbed, m.2.scrubbed))).mapTexts shortened id).sorted = _
  rw [hmap, mapTexts_obj, sorted_obj, List.map_map, List.map_map]
  exact congrArg obj (Table.ofPairs_of_sorted ((Table.sorted_map _).2 hsorted))

end Json

namespace Registration

open Json

variable {text existing key out : Text} {v : Json} {doc : Table Json} {extra : List (Text × Json)}

/-! ## Documents -/

theorem value_eq_ok : value text = .ok v ↔ ∃ w, parse? text = some w ∧ w.floats?.isSome = true ∧
    v = (w.mapTexts shortened id).sorted := by
  unfold value
  cases parse? text with
  | none => simp
  | some w =>
    cases hfloats : w.floats? with
    | none => simp [hfloats]
    | some u =>
      have hmap := floats?_of_all (all_of_floats? (v := w) (by rw [hfloats]; rfl))
      rw [hfloats] at hmap
      obtain rfl := Option.some.inj hmap
      simp only [hfloats]
      constructor
      · intro h
        cases h
        exact ⟨w, rfl, by rw [hfloats]; rfl, rfl⟩
      · rintro ⟨_, hw, -, rfl⟩
        cases hw
        rfl

/-- What is read of a document can be written, whatever bytes the document is. -/
theorem isPlain_value (h : value text = .ok v) : v.IsPlain := by
  obtain ⟨w, hparse, hfloats, rfl⟩ := value_eq_ok.1 h
  have hall := (all_of_floats? hfloats).and (hasUtf8_of_parse? hparse)
  exact ⟨(hall.mapTexts (fun lit h => isNumber_shortened h.1) fun s h => h.2).sorted, inOrder_sorted _⟩

/-- What is written can be read. -/
theorem value_pretty (hv : v.IsEncodable) : value (v.pretty ++ "\n") = .ok v.reread := by
  have hfits : v.scrubbed.All Fits fun _ => True := hv.mapTexts (fun _ h => h.2) fun _ _ => trivial
  refine value_eq_ok.2 ⟨v.scrubbed, parse?_pretty_scrubbed (hv.mono (fun _ h => h.1) fun _ h => h), ?_, rfl⟩
  rw [floats?_of_all hfits]
  rfl

/-- A text that holds an object is the document with its members. -/
theorem document_of_value (h : value text = .ok (.obj doc)) : document text = .ok doc := by
  obtain ⟨w, hparse, -⟩ := value_eq_ok.1 h
  unfold document
  rw [trim_of_parse? hparse, h]
  rfl

theorem isPlain_document (h : document existing = .ok doc) : (obj doc).IsPlain := by
  unfold document at h
  split at h
  · cases h
    exact ⟨.obj (List.forall_mem_nil _) (List.forall_mem_nil _), .obj Table.sorted_nil (List.forall_mem_nil _)⟩
  · split at h
    · cases h
    · rename_i hvalue
      cases h
      exact isPlain_value hvalue
    · cases h
    · cases h

/-! ## Entering the server -/

/-- The members of the servers, none if there is no object of them. -/
def serversOf (key : Text) (doc : Table Json) : Table Json := (servers? key doc).getD []

/-- The document with the server entered. -/
def entered (key : Text) (extra : List (Text × Json)) (doc : Table Json) : Table Json :=
  Table.put key (.obj (Table.put serverName (entry extra) (serversOf key doc))) doc

theorem add_eq (existing key : Text) (extra : List (Text × Json)) :
    add existing key extra = (document existing).map fun doc =>
    if isEntered (serversOf key doc) then none else some ((obj (entered key extra doc)).pretty ++ "\n") := by
  unfold add
  cases document existing with
  | error f => rfl
  | ok doc =>
    change (if isEntered (serversOf key doc) = true then _ else _) =
      Except.ok (if isEntered (serversOf key doc) = true then _ else _)
    split <;> rfl

theorem add_eq_some : add existing key extra = .ok (some out) ↔
    ∃ doc, document existing = .ok doc ∧ isEntered (serversOf key doc) = false ∧
    (obj (entered key extra doc)).pretty ++ "\n" = out := by
  rw [add_eq]
  cases document existing with
  | error f => simp [Except.map]
  | ok doc =>
    cases h : isEntered (serversOf key doc) <;> simp [Except.map, h]

/-- The servers of a document are such as documents hold them. -/
theorem isPlain_serversOf (h : (obj doc).IsPlain) (key : Text) : (obj (serversOf key doc)).IsPlain := by
  unfold serversOf servers?
  split
  · rename_i servers hfind
    have hmem := Table.mem_of_find? hfind
    exact ⟨(all_obj.1 h.all _ hmem).2, (inOrder_obj.1 h.inOrder).2 _ hmem⟩
  · exact ⟨.obj (List.forall_mem_nil _) (List.forall_mem_nil _), .obj Table.sorted_nil (List.forall_mem_nil _)⟩

theorem sorted_of_isPlain (h : (obj doc).IsPlain) : Table.Sorted doc := (inOrder_obj.1 h.inOrder).1

section

variable {number : Text → Prop}

theorem all_put {k : Text} (hv : v.All number fun _ => True) (h : (obj doc).All number fun _ => True) :
    (obj (Table.put k v doc)).All number fun _ => True :=
  all_obj.2 fun m hm => by
    rcases Table.mem_put hm with rfl | hm
    · exact ⟨trivial, hv⟩
    · exact all_obj.1 h m hm

theorem all_entry (h : ∀ m ∈ extra, m.2.All number fun _ => True) : (entry extra).All number fun _ => True := by
  have hfold : ∀ (ms : List (Text × Json)) (e : Table Json), (∀ m ∈ ms, m.2.All number fun _ => True) →
      ((obj e).All number fun _ => True) →
      (obj (ms.foldl (fun e m => Table.put m.1 m.2 e) e)).All number fun _ => True := by
    intro ms
    induction ms with
    | nil => exact fun e _ he => he
    | cons m ms ih =>
      intro e hms he
      obtain ⟨hm, hms⟩ := List.forall_mem_cons.1 hms
      exact ih _ hms (all_put hm he)
  refine hfold extra _ h (all_obj.2 ?_)
  simp only [List.forall_mem_cons, List.not_mem_nil, false_imp_iff, implies_true, and_true, true_and]
  exact ⟨.arr (by simp only [List.forall_mem_map, List.forall_mem_cons]; exact ⟨.str trivial, .str trivial, by simp⟩),
    .str trivial⟩

/-- The numbers of the document that is written are those of the old one and those of the entry. -/
theorem all_entered (hservers : (obj (serversOf key doc)).All number fun _ => True)
    (hdoc : (obj doc).All number fun _ => True) (hextra : ∀ m ∈ extra, m.2.All number fun _ => True) :
      (obj (entered key extra doc)).All number fun _ => True :=
  all_put (all_put (all_entry hextra) hservers) hdoc

end

theorem isUtf8_serverName : serverName.isUtf8 = true := by decide

theorem isUtf8_put {k : Text} (hk : k.isUtf8 = true) (h : ∀ m ∈ doc, m.1.isUtf8 = true) :
    ∀ m ∈ Table.put k v doc, m.1.isUtf8 = true := by
  intro m hm
  rcases Table.mem_put hm with rfl | hm
  · exact hk
  · exact h m hm

/-- The document that was written is read with the server entered. -/
theorem value_entered (hdoc : (obj doc).IsPlain) (hkey : key.isUtf8 = true) (hextra : ∀ m ∈ extra, m.2.IsEncodable) :
    ∃ doc', value ((obj (entered key extra doc)).pretty ++ "\n") = .ok (obj doc') ∧
    isEntered (serversOf key doc') = true := by
  have hkeys : ∀ {ms : Table Json}, (obj ms).IsPlain → ∀ m ∈ ms, m.1.isUtf8 = true :=
    fun h m hm => (all_obj.1 h.all m hm).1
  have hservers := isPlain_serversOf hdoc key
  rw [value_pretty (all_entered hservers.isEncodable hdoc.isEncodable hextra), entered,
    reread_obj (Table.sorted_put _ _ (sorted_of_isPlain hdoc)) (isUtf8_put hkey (hkeys hdoc))]
  refine ⟨_, rfl, ?_⟩
  have hentry : (obj (Table.put serverName (entry extra) (serversOf key doc))).reread =
      obj (List.map (fun m => (m.1, m.2.reread)) (Table.put serverName (entry extra) (serversOf key doc))) :=
    reread_obj (Table.sorted_put _ _ (sorted_of_isPlain hservers)) (isUtf8_put isUtf8_serverName (hkeys hservers))
  have hfind : servers? key (List.map (fun m => (m.1, m.2.reread))
      (Table.put key (obj (Table.put serverName (entry extra) (serversOf key doc))) doc)) =
      some (List.map (fun m => (m.1, m.2.reread)) (Table.put serverName (entry extra) (serversOf key doc))) := by
    unfold servers?
    rw [Table.find?_map, Table.find?_put, if_pos rfl, Option.map_some, hentry]
  rw [serversOf, hfind, Option.getD_some, isEntered, Table.find?_map, Table.find?_put, if_pos rfl]
  rfl

/-! ## Registering twice -/

theorem isRegistered_of_value (h : value text = .ok (.obj doc)) :
    isRegistered text key = isEntered (serversOf key doc) := by
  have hmembers : isRegistered text key = ((servers? key doc).map isEntered).getD false := by
    unfold isRegistered
    rw [h]
  rw [hmembers, serversOf]
  cases servers? key doc <;> rfl

theorem isRegistered_of_add (hkey : key.isUtf8 = true) (hextra : ∀ m ∈ extra, m.2.IsEncodable)
    (h : add existing key extra = .ok (some out)) : isRegistered out key = true := by
  obtain ⟨doc, hdoc, -, rfl⟩ := add_eq_some.1 h
  obtain ⟨doc', hvalue, hentered⟩ := value_entered (isPlain_document hdoc) hkey hextra
  rw [isRegistered_of_value hvalue, hentered]

theorem add_of_isRegistered (h : isRegistered text key = true) (extra : List (Text × Json)) :
    add text key extra = .ok none := by
  obtain ⟨doc, hvalue⟩ : ∃ doc, value text = .ok (.obj doc) := by
    unfold isRegistered at h
    split at h
    · exact ⟨_, ‹_›⟩
    · cases h
  rw [isRegistered_of_value hvalue] at h
  rw [add_eq, document_of_value hvalue, Except.map, if_pos h]

end Registration

/-! ## Settings files -/

namespace Setup

variable {d d' : Disk} {path file key text : Text} {extra : List (Text × Json)}

theorem hasServer_of_readFile (h : d.readFile path = .ok text) :
    hasServer d path key = Registration.isRegistered text key := by
  unfold hasServer
  rw [h]

/-- If the document cannot be read, the directories of the file are made and nothing else is done. -/
theorem registerInFile_of_add_error (hdirs : d.mkdirAll (Path.parent file) = .ok d')
    (htext : settingsText d' file = .ok text) {f : Fault} (hadd : Registration.add text key extra = .error f) :
      registerInFile d file key extra = (some f, d') := by
  unfold registerInFile
  simp only [hdirs, htext, hadd]

/-- Whoever registers the server a second time changes nothing, and a settings file that was written names it; so does
every file to which nothing is added because of its check. A file that cannot be read as settings stays as it was,
like everything else on the disk but directories that were made for it. -/
theorem registers_once :
    (∀ {existing key out : Text} {extra : List (Text × Json)}, key.isUtf8 = true → (∀ m ∈ extra, m.2.IsEncodable) →
      Registration.add existing key extra = .ok (some out) →
      (∀ extra', Registration.add out key extra' = .ok none) ∧
        ∀ {d : Disk} {path : Text}, d.readFile path = .ok out → hasServer d path key = true) ∧
    (∀ {d : Disk} {path key text : Text}, d.readFile path = .ok text → hasServer d path key = true →
      ∀ extra, Registration.add text key extra = .ok none) ∧
    (∀ {d d' : Disk} {file key text : Text} {extra : List (Text × Json)} {f : Fault}, d.Orderly →
      d.mkdirAll (Path.parent file) = .ok d' → settingsText d' file = .ok text →
      Registration.add text key extra = .error f →
      registerInFile d file key extra = (some f, d') ∧ ∀ q, d'.held q = d.held q) := by
  refine ⟨fun hkey hextra hadd => ?_, fun hread hserver extra => ?_, fun hd hdirs htext hadd => ?_⟩
  · have hregistered := Registration.isRegistered_of_add hkey hextra hadd
    exact ⟨Registration.add_of_isRegistered hregistered, fun hread => (hasServer_of_readFile hread).trans hregistered⟩
  · rw [hasServer_of_readFile hread] at hserver
    exact Registration.add_of_isRegistered hserver extra
  · exact ⟨registerInFile_of_add_error hdirs htext hadd, (Disk.made_mkdirAll hd hdirs).held⟩

/-- Settings that another program wrote. -/
def otherSettings : Text := "\x7b\"n\": 1.50, \"servers\": \x7b\"other\": \x7b\x7d\x7d\x7d"

/-- The settings with the server entered. -/
def newSettings : Text :=
  (Json.obj [("n", .num "1.5"),
  ("servers", .obj [("other", .obj []), ("quickgen", .obj [("args", .arr [.str "serve", .str "--watch"]),
    ("command", .str "quickgen"), ("type", .str "stdio")])])]).pretty ++ "\n"

/-- A disk with the new settings, and with a file that breaks off. -/
def settingsDisk : Disk := ⟨.dir [("a.json", .file newSettings 0o644), ("b.json", .file "\x7b" 0o644)], "/"⟩

/-- The server is entered among others once, and a file that breaks off stays. -/
theorem newSettings_once :
    Registration.add otherSettings "servers" [("type", .str "stdio")] = .ok (some newSettings) ∧
    (∀ extra, Registration.add newSettings "servers" extra = .ok none) ∧
    hasServer settingsDisk "a.json" "servers" = true ∧
    registerInFile settingsDisk "b.json" "servers" [] = (some (.during "invalid JSON" .jsonSyntax), settingsDisk) := by
  have hadd : Registration.add otherSettings "servers" [("type", .str "stdio")] = .ok (some newSettings) := by
    have h : (Registration.add otherSettings "servers" [("type", .str "stdio")]).toOption =
      some (some newSettings) := by
      decide +kernel
    cases hout : Registration.add otherSettings "servers" [("type", .str "stdio")] with
    | error f => rw [hout] at h; cases h
    | ok out => rw [hout] at h; exact congrArg Except.ok (Option.some.inj h)
  have hextra : ∀ m ∈ [(Text.ofString "type", Json.str "stdio")], m.2.IsEncodable :=
    List.forall_mem_singleton.2 (.str trivial)
  obtain ⟨hagain, hserver⟩ := registers_once.1 (by decide) hextra hadd
  have hread : settingsDisk.readFile "a.json" = .ok newSettings := rfl
  have hfound := hserver hread
  have horderly : settingsDisk.Orderly := ⟨Entry.orderly_of_isPlain (by rfl), by rfl, ⟨_, rfl⟩⟩
  have htext : settingsText settingsDisk "b.json" = .ok "\x7b" := rfl
  exact ⟨hadd, registers_once.2.1 hread hfound, hfound, (registers_once.2.2 horderly rfl htext rfl).1⟩

end Setup

end DocAtlas

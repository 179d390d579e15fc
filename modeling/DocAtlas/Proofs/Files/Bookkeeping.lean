/-
The books of a cache of files over a run of fetches, invalidations and closings, in which the system may answer
every load as it likes: a file may be gone, changed, empty, too large to be mapped or not readable, now and at
every later time.

`fetchBy_fetches` says all that one fetch does. From it the number of files stays within the limit, every fetch
is counted once as a hit or a miss, a load that is refused or fails leaves the files as they were, and what was
once fetched of a path is fetched again until the path is forgotten.
-/
import DocAtlas.Proofs.Files.Caching

namespace DocAtlas

theorem Table.find?_erase_of_ne {α : Type} {key k : Text} (h : key ≠ k) (t : Table α) :
    find? k (erase key t) = find? k t := by
  unfold find? erase
  rw [List.find?_filter]
  congr 2
  funext e
  by_cases hk : e.1 = k
  · simp [hk, Ne.symm h]
  · simp [hk]

/-- What a system answers while a file is loaded: to opening it, to asking for its size, to mapping it, with the
content or a complaint, and to reading it. -/
structure LoadAnswers where
  opened : Except OsError Unit
  size : Except OsError Nat
  mapped : Except Text Text
  read : Except OsError Text

/-- The answers of a disk. A directory has a size, but it can be neither mapped nor read. -/
def LoadAnswers.ofDisk (d : Disk) (path : Text) : LoadAnswers :=
  match d.entry true "open" path with
  | .error e => ⟨.error e, .error e, .error [], .error e⟩
  | .ok (.file content _) => ⟨.ok (), .ok content.length, .ok content, .ok content⟩
  | .ok _ => ⟨.ok (), .ok 1, .error "no such device", .error ⟨"read", path, none, .isDirectory⟩⟩

namespace FileCache

/-- The cache with the content of one more file. -/
def hold (c : FileCache) (path content : Text) : FileCache := { c with files := Table.put path content c.files }

/-- Loads a file as the system answers. An empty file is not mapped, and one that cannot be mapped is read. -/
def loadBy (a : LoadAnswers) (c : FileCache) (path : Text) : Fetched :=
  match a.opened with
  | .error e => ⟨.error (.during ("open " ++ Text.quoted path) (.os e)), [], c⟩
  | .ok _ =>
    match a.size with
    | .error e => ⟨.error (.during ("stat " ++ Text.quoted path) (.os e)), [], c⟩
    | .ok size =>
      if size = 0 then ⟨.ok [], [], c.hold path []⟩
      else
        match a.mapped with
        | .ok content => ⟨.ok content, [], c.hold path content⟩
        | .error complaint =>
          let log : List LogRecord :=
            [⟨.warn, "mmap failed, reading file instead", [("file", .text path), ("error", .text complaint)]⟩]
          let c := { c with mapFailures := c.mapFailures + 1 }
          match a.read with
          | .error e => ⟨.error (.during ("read " ++ Text.quoted path) (.os e)), log, c⟩
          | .ok content => ⟨.ok content, log, c.hold path content⟩

/-- The content of a file, loaded as the system answers if it is not held. -/
def fetchBy (a : LoadAnswers) (c : FileCache) (path : Text) : Fetched :=
  match Table.find? path c.files with
  | some content => ⟨.ok content, [], { c with hits := c.hits + 1 }⟩
  | none =>
    let c := { c with misses := c.misses + 1 }
    if c.isFull then ⟨.error (.cacheFull c.files.length c.limit), [], c⟩ else loadBy a c path

/-- On a disk files are loaded as the disk answers. -/
theorem load_eq (c : FileCache) (d : Disk) (path : Text) : c.load d path = c.loadBy (.ofDisk d path) path := by
  unfold load loadBy LoadAnswers.ofDisk
  cases d.entry true "open" path with
  | error e => rfl
  | ok e =>
    cases e with
    | file content mode => cases content <;> rfl
    | link target => rfl
    | dir entries => rfl

theorem fetch_eq (c : FileCache) (d : Disk) (path : Text) : c.fetch d path = c.fetchBy (.ofDisk d path) path := by
  cases hfind : Table.find? path c.files with
  | some content => simp [fetch, fetchBy, hfind]
  | none => simp [fetch, fetchBy, hfind, load_eq]

/-! ## One fetch -/

/-- All that a fetch does to a cache. -/
structure Fetches (c : FileCache) (path : Text) (r : Fetched) : Prop where
  limit : r.cache.limit = c.limit
  counted : r.cache.hits + r.cache.misses = c.hits + c.misses + 1
  files : (∃ f, r.result = .error f ∧ r.cache.files = c.files) ∨
    (∃ content, r.result = .ok content ∧ Table.find? path c.files = some content ∧ r.cache.files = c.files) ∨
    ∃ content, r.result = .ok content ∧ Table.find? path c.files = none ∧
      (0 < c.limit → (c.files.length : Int) < c.limit) ∧
      r.cache.files = Table.put path content c.files

theorem loadBy_cases (a : LoadAnswers) (c : FileCache) (path : Text) :
    ((loadBy a c path).cache.limit = c.limit ∧ (loadBy a c path).cache.hits = c.hits ∧
      (loadBy a c path).cache.misses = c.misses) ∧
    ((∃ f, (loadBy a c path).result = .error f ∧ (loadBy a c path).cache.files = c.files) ∨
      ∃ content, (loadBy a c path).result = .ok content ∧
      (loadBy a c path).cache.files = Table.put path content c.files) := by
  unfold loadBy
  cases a.opened with
  | error e => exact ⟨⟨rfl, rfl, rfl⟩, .inl ⟨_, rfl, rfl⟩⟩
  | ok _ =>
    cases a.size with
    | error e => exact ⟨⟨rfl, rfl, rfl⟩, .inl ⟨_, rfl, rfl⟩⟩
    | ok size =>
      by_cases hsize : size = 0
      · simp only [if_pos hsize]
        exact ⟨⟨rfl, rfl, rfl⟩, .inr ⟨_, rfl, rfl⟩⟩
      · simp only [if_neg hsize]
        cases a.mapped with
        | ok content => exact ⟨⟨rfl, rfl, rfl⟩, .inr ⟨_, rfl, rfl⟩⟩
        | error complaint =>
          cases a.read with
          | error e => exact ⟨⟨rfl, rfl, rfl⟩, .inl ⟨_, rfl, rfl⟩⟩
          | ok content => exact ⟨⟨rfl, rfl, rfl⟩, .inr ⟨_, rfl, rfl⟩⟩

theorem fetchBy_fetches (a : LoadAnswers) (c : FileCache) (path : Text) : Fetches c path (fetchBy a c path) := by
  unfold fetchBy
  cases hfind : Table.find? path c.files with
  | some content => exact ⟨rfl, by simp only; omega, .inr (.inl ⟨content, rfl, hfind, rfl⟩)⟩
  | none =>
    by_cases hfull : isFull { c with misses := c.misses + 1 } = true
    · simp only [if_pos hfull]
      exact ⟨rfl, by simp only; omega, .inl ⟨_, rfl, rfl⟩⟩
    · simp only [if_neg hfull]
      have hroom : 0 < c.limit → (c.files.length : Int) < c.limit := by
        intro hlimit
        simpa [isFull, hlimit] using hfull
      obtain ⟨⟨hlimit, hhits, hmisses⟩, hfiles⟩ := loadBy_cases a { c with misses := c.misses + 1 } path
      refine ⟨hlimit, ?_, hfiles.imp_right fun ⟨content, hresult, hput⟩ => .inr ⟨content, hresult, hfind, hroom, hput⟩⟩
      rw [hhits, hmisses]
      exact (Nat.add_assoc ..).symm

/-- A fetch that fails, for want of room or otherwise, leaves the files as they were. -/
theorem Fetches.files_of_error {c : FileCache} {path : Text} {r : Fetched} (h : Fetches c path r) {f : Fault}
    (hf : r.result = .error f) : r.cache.files = c.files := by
  rcases h.files with ⟨-, -, hfiles⟩ | ⟨content, hok, -⟩ | ⟨content, hok, -⟩
  · exact hfiles
  · rw [hf] at hok; cases hok
  · rw [hf] at hok; cases hok

/-- What was fetched is held. -/
theorem Fetches.find?_of_ok {c : FileCache} {path content : Text} {r : Fetched} (h : Fetches c path r)
    (hok : r.result = .ok content) : Table.find? path r.cache.files = some content := by
  rcases h.files with ⟨f, hf, -⟩ | ⟨content', hok', hheld, hfiles⟩ | ⟨content', hok', -, -, hfiles⟩
  · rw [hok] at hf; cases hf
  · rw [hok] at hok'
    cases hok'
    rw [hfiles, hheld]
  · rw [hok] at hok'
    cases hok'
    rw [hfiles, Table.find?_put, if_pos rfl]

/-- What is held stays held. -/
theorem Fetches.find?_of_held {c : FileCache} {path p content : Text} {r : Fetched} (h : Fetches c path r)
    (hheld : Table.find? p c.files = some content) : Table.find? p r.cache.files = some content := by
  rcases h.files with ⟨-, -, hfiles⟩ | ⟨-, -, -, hfiles⟩ | ⟨content', -, hnew, -, hfiles⟩
  · rw [hfiles, hheld]
  · rw [hfiles, hheld]
  · have hne : path ≠ p := by
      rintro rfl
      rw [hnew] at hheld
      cases hheld
    rw [hfiles, Table.find?_put, if_neg hne, hheld]

theorem fetchBy_of_held {c : FileCache} {path content : Text} (h : Table.find? path c.files = some content)
    (a : LoadAnswers) :
    (fetchBy a c path).result = .ok content := by
  unfold fetchBy
  rw [h]

/-! ## Runs -/

/-- What is done with a cache. -/
inductive Operation where
  | bytes (path : Text) (start stop : Nat)
  | lines (path : Text) (first last : Int)
  | invalidate (path : Text)
  | close

namespace Operation

/-- The path an operation is about; empty if it is about all. -/
def path : Operation → Text
  | bytes path _ _ => path
  | lines path _ _ => path
  | invalidate path => path
  | close => []

/-- Whether the cache is asked for a file. A range without lines does not reach it. -/
def isFetch : Operation → Bool
  | bytes .. => true
  | lines _ first last => !decide (first < 1 ∨ last < first)
  | _ => false

/-- Whether the cache forgets a path. -/
def forgets (p : Text) : Operation → Bool
  | invalidate path => path == p
  | close => true
  | _ => false

/-- What an operation returns of the content of its file. -/
def part (content : Text) : Operation → Except Fault Text
  | bytes path start stop => bytesOf content path start stop
  | lines path first last => linesOf content path first.toNat last.toNat
  | _ => .ok []

/-- What an operation returns, and the cache after it, on a disk. -/
def performOn (d : Disk) (c : FileCache) : Operation → Option (Except Fault Text) × FileCache
  | bytes path start stop => (some (c.fetchBytes d path start stop).result, (c.fetchBytes d path start stop).cache)
  | lines path first last => (some (c.fetchLines d path first last).result, (c.fetchLines d path first last).cache)
  | invalidate path => (none, c.invalidate path)
  | close => (none, c.clear)

/-- The same as the system answers. -/
def performBy (a : LoadAnswers) (c : FileCache) (o : Operation) : Option (Except Fault Text) × FileCache :=
  if o.isFetch then (some ((fetchBy a c o.path).result.bind o.part), (fetchBy a c o.path).cache)
  else
    match o with
    | bytes .. => (none, c)
    | lines _ first last => (some (.error (.lineRange first last)), c)
    | invalidate path => (none, c.invalidate path)
    | close => (none, c.clear)

theorem performBy_of_isFetch {o : Operation} (h : o.isFetch = true) (a : LoadAnswers) (c : FileCache) :
    o.performBy a c = (some ((fetchBy a c o.path).result.bind o.part), (fetchBy a c o.path).cache) := if_pos h

theorem performOn_eq (d : Disk) (c : FileCache) (o : Operation) :
    o.performOn d c = o.performBy (.ofDisk d o.path) c := by
  cases o with
  | bytes path start stop =>
    simp only [performOn, fetchBytes, fetchPart, fetch_eq]
    rfl
  | lines path first last =>
    by_cases hrange : first < 1 ∨ last < first
    · have hfetch : isFetch (lines path first last) = false := by simp [isFetch, hrange]
      simp only [performOn, performBy, hfetch, fetchLines, if_pos hrange]
      rfl
    · have hfetch : isFetch (lines path first last) = true := by simp [isFetch, hrange]
      simp only [performOn, performBy, hfetch, fetchLines, if_neg hrange, fetchPart, fetch_eq]
      rfl
  | invalidate path => rfl
  | close => rfl

end Operation

/-- The cache after some operations, each with what the system answers then. -/
def runBy (c : FileCache) (steps : List (Operation × LoadAnswers)) : FileCache :=
  steps.foldl (fun c s => (s.1.performBy s.2 c).2) c

/-- A cache in order after some fetches: each file is held once, not too many are, and every fetch is counted. -/
structure InOrder (limit : Int) (fetches : Nat) (c : FileCache) : Prop where
  limited : c.limit = limit
  sorted : c.files.Sorted
  bound : 0 < limit → (c.files.length : Int) ≤ limit
  counted : c.hits + c.misses = fetches

variable {limit : Int} {n : Nat} {c : FileCache}

theorem Fetches.inOrder {path : Text} {r : Fetched} (h : Fetches c path r) (hc : InOrder limit n c) :
    InOrder limit (n + 1) r.cache := by
  refine ⟨h.limit.trans hc.limited, ?_, fun hlimit => ?_, by rw [h.counted, hc.counted]⟩
  · rcases h.files with ⟨-, -, hfiles⟩ | ⟨-, -, -, hfiles⟩ | ⟨content, -, -, -, hfiles⟩
    · exact hfiles ▸ hc.sorted
    · exact hfiles ▸ hc.sorted
    · exact hfiles ▸ Table.sorted_put path content hc.sorted
  · have hbound := hc.bound hlimit
    rcases h.files with ⟨-, -, hfiles⟩ | ⟨-, -, -, hfiles⟩ | ⟨content, -, hnew, hroom, hfiles⟩
    · exact hfiles ▸ hbound
    · exact hfiles ▸ hbound
    · have hlt := hroom (hc.limited ▸ hlimit)
      rw [hc.limited] at hlt
      rw [hfiles, Table.length_put content hnew]
      push_cast
      omega

theorem InOrder.of_sublist (hc : InOrder limit n c) {files : Table Text} (h : files.Sublist c.files) :
    InOrder limit n { c with files } where
  limited := hc.limited
  sorted := hc.sorted.sublist h
  bound hlimit := by
    have hbound := hc.bound hlimit
    have hlength := h.length_le
    simp only
    omega
  counted := hc.counted

/-- One operation keeps a cache in order. -/
theorem InOrder.perform (hc : InOrder limit n c) (o : Operation) (a : LoadAnswers) :
    InOrder limit (n + if o.isFetch then 1 else 0) (o.performBy a c).2 := by
  by_cases hfetch : o.isFetch = true
  · rw [Operation.performBy_of_isFetch hfetch, if_pos hfetch]
    exact (fetchBy_fetches a c o.path).inOrder hc
  · unfold Operation.performBy
    rw [if_neg hfetch, if_neg hfetch]
    cases o with
    | bytes path start stop => exact hc
    | lines path first last => exact hc
    | invalidate path => exact hc.of_sublist List.filter_sublist
    | close => exact hc.of_sublist (List.nil_sublist _)

/-- A run keeps a cache in order. -/
theorem InOrder.run (hc : InOrder limit n c) (steps : List (Operation × LoadAnswers)) :
    InOrder limit (n + steps.countP fun s => s.1.isFetch) (runBy c steps) := by
  induction steps generalizing n c with
  | nil => exact hc
  | cons s steps ih =>
    have hnext := ih (hc.perform s.1 s.2)
    rw [Nat.add_assoc] at hnext
    rw [List.countP_cons, Nat.add_comm (steps.countP _)]
    exact hnext

/-- An operation that does not forget a path keeps what is held of it. -/
theorem find?_performBy {p content : Text} (hheld : Table.find? p c.files = some content) {o : Operation}
    (hkeeps : o.forgets p = false) (a : LoadAnswers) : Table.find? p (o.performBy a c).2.files = some content := by
  unfold Operation.performBy
  split
  · exact (fetchBy_fetches a c o.path).find?_of_held hheld
  · cases o with
    | bytes path start stop => exact hheld
    | lines path first last => exact hheld
    | invalidate path =>
      have hne : path ≠ p := by simpa [Operation.forgets] using hkeeps
      exact (Table.find?_erase_of_ne hne c.files).trans hheld
    | close => cases hkeeps

theorem find?_runBy {p content : Text} (hheld : Table.find? p c.files = some content)
    {steps : List (Operation × LoadAnswers)} (hkeeps : ∀ s ∈ steps, s.1.forgets p = false) :
      Table.find? p (runBy c steps).files = some content := by
  induction steps generalizing c with
  | nil => exact hheld
  | cons s steps ih =>
    obtain ⟨hfirst, hrest⟩ := List.forall_mem_cons.1 hkeeps
    exact ih (find?_performBy hheld hfirst s.2) hrest

/-- What holds of a cache after some steps: it is in order, a load that is refused or fails leaves its files as they
are, and what one operation fetches of a path is what all later ones return parts of, until the path is forgotten.
Operations on a disk are operations that the disk answers. -/
structure KeepsBooks (limit : Int) (steps : List (Operation × LoadAnswers)) (c : FileCache) : Prop where
  order : InOrder limit (steps.countP fun s => s.1.isFetch) c
  refused : ∀ a path f, (fetchBy a c path).result = .error f → (fetchBy a c path).cache.files = c.files
  steady : ∀ (o : Operation) a content, o.isFetch = true → (fetchBy a c o.path).result = .ok content →
    ∀ later : List (Operation × LoadAnswers), (∀ s ∈ later, s.1.forgets o.path = false) →
      ∀ (o' : Operation) a', o'.isFetch = true → o'.path = o.path →
        (o'.performBy a' (runBy (o.performBy a c).2 later)).1 = some (o'.part content)
  onDisk : ∀ d (o : Operation), o.performOn d c = o.performBy (.ofDisk d o.path) c

theorem inOrder_empty (limit : Int) : InOrder limit 0 (empty limit) :=
  ⟨rfl, Table.sorted_nil, fun hlimit => hlimit.le, rfl⟩

/-- After every run the books of a cache are in order, whatever the system answered. -/
theorem runBy_keepsBooks (limit : Int) (steps : List (Operation × LoadAnswers)) :
    KeepsBooks limit steps (runBy (empty limit) steps) where
  order := by
    have horder := (inOrder_empty limit).run steps
    rwa [Nat.zero_add] at horder
  refused a path f hf := (fetchBy_fetches a _ path).files_of_error hf
  steady o a content hfetch hok later hkeeps o' a' hfetch' hpath := by
    have hheld : Table.find? o'.path (runBy (o.performBy a (runBy (empty limit) steps)).2 later).files =
      some content := by
      rw [Operation.performBy_of_isFetch hfetch, hpath]
      exact find?_runBy ((fetchBy_fetches a _ o.path).find?_of_ok hok) hkeeps
    rw [Operation.performBy_of_isFetch hfetch', fetchBy_of_held hheld]
    rfl
  onDisk d o := o.performOn_eq d _

/-- With room for one file, a second one is refused until the first is forgotten. -/
example : (runBy (empty 1) [(.bytes "a" 0 0, ⟨.ok (), .ok 1, .error "too many", .ok "x"⟩),
    (.lines "b" 1 1, ⟨.ok (), .ok 0, .ok [], .ok []⟩),
    (.invalidate "a", ⟨.ok (), .ok 1, .ok "y", .ok "y"⟩), (.lines "b" 1 1, ⟨.ok (), .ok 0, .ok [], .ok []⟩)]) =
      ⟨1, [("b", [])], 0, 3, 1⟩ := by rfl

end FileCache

end DocAtlas

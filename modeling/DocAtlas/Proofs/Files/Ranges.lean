/-
A range of lines as a range of bytes. One pass over a content counts its line ends and notes two offsets: where
the first line asked for begins, and where the last one ends. The pass never reads before the content or beyond
it, and what stands between the offsets is what fetching the lines returns. From this a range is fetched exactly
if its first line is there, gives the lines of the content joined again, and can be put together from its parts.
-/
import DocAtlas.Proofs.Files.Lines

namespace DocAtlas

namespace Text

theorem length_lines (t : Text) : (lines t).length = t.count newline + 1 := by
  induction t with
  | nil => rfl
  | cons b t ih =>
    by_cases hb : b = newline
    · rw [hb, lines_cons_newline, List.length_cons, ih, List.count_cons_self]
    · obtain ⟨l, ls, hls, hcons⟩ := lines_cons hb t
      rw [hcons, List.count_cons_of_ne hb, ← ih, hls]
      rfl

/-- How the first lines go on behind a byte. -/
theorem firstLines_cons {n : Nat} (hn : 0 < n) (b : UInt8) (t : Text) :
    firstLines n (b :: t) =
      if b = newline then if n = 1 then some [] else (firstLines (n - 1) t).map (b :: ·)
        else (firstLines n t).map (b :: ·) := by
  match n, hn with
  | 1, _ => rfl
  | n + 2, _ =>
    have hne : n + 2 ≠ 1 := by omega
    rw [firstLines, if_neg hne]
    split <;> rfl

theorem prefix_of_firstLines {n : Nat} {t front : Text} (h : firstLines n t = some front) : front <+: t := by
  induction t generalizing n front with
  | nil =>
    cases n with
    | zero => cases h; exact List.nil_prefix
    | succ n => cases h
  | cons b t ih =>
    rcases Nat.eq_zero_or_pos n with rfl | hn
    · cases h; exact List.nil_prefix
    rw [firstLines_cons hn] at h
    split at h
    · split at h
      · cases h; exact List.nil_prefix
      · obtain ⟨rest, hrest, rfl⟩ := Option.map_eq_some_iff.1 h
        exact List.cons_prefix_cons.2 ⟨rfl, ih hrest⟩
    · obtain ⟨rest, hrest, rfl⟩ := Option.map_eq_some_iff.1 h
      exact List.cons_prefix_cons.2 ⟨rfl, ih hrest⟩

/-! ## One pass -/

/-- Where a pass ends: at the end of the last line asked for, or at the end of the content. The start is negative
if the first line asked for was not reached. -/
inductive Span where
  | closed (start : Int) (stop : Nat)
  | opened (start : Int)
deriving DecidableEq, Repr

/-- The start at offset `i` in line `line`: it is noted once, when the first line begins. -/
def startAt (first i line : Nat) (start : Int) : Int := if line = first ∧ start < 0 then i else start

/-- Counts line ends from the offset `i` on, which is in line `line`. -/
def scan (first last : Nat) : (i line : Nat) → (start : Int) → Text → Span
  | i, line, start, [] => .opened (startAt first i line start)
  | i, line, start, b :: t =>
    if b = newline then
      if line = last then .closed (startAt first i line start) i
      else scan first last (i + 1) (line + 1) (startAt first i line start) t
    else scan first last (i + 1) line (startAt first i line start) t

namespace Span

/-- The offsets are in the content, the start not after the stop. -/
def InBounds (t : Text) : Span → Prop
  | closed start stop => 0 ≤ start ∧ start ≤ stop ∧ stop ≤ t.length
  | opened start => start ≤ t.length

/-- What a span takes out of a content: the bytes between its offsets, or all from the start on without a line end
behind them. -/
def read? (t : Text) : Span → Option Text
  | closed start stop => some (slice t start.toNat stop)
  | opened start => if start < 0 then none else some (trimSuffix "\n" (t.drop start.toNat))

end Span

theorem startAt_of_known (first i line start : Nat) : startAt first i line start = start := if_neg (by omega)

/-- Once the start is known, the pass goes on to the end of the last line. -/
theorem scan_of_known {first last n i line : Nat} (start : Nat) (hn : 0 < n) (hline : line + n = last + 1) (t : Text) :
    scan first last i line start t =
      match firstLines n t with
      | some front => .closed start (i + front.length)
      | none => .opened start := by
  induction t generalizing n i line with
  | nil =>
    obtain ⟨n, rfl⟩ := Nat.exists_eq_add_one_of_ne_zero hn.ne'
    rw [scan, startAt_of_known]
    rfl
  | cons b t ih =>
    rw [scan, startAt_of_known, firstLines_cons hn]
    split
    · by_cases hlast : line = last
      · rw [if_pos hlast, if_pos (by omega)]
        rfl
      · have hn' : 0 < n - 1 := by omega
        rw [if_neg hlast, if_neg (by omega), ih hn' (by omega)]
        cases firstLines (n - 1) t with
        | none => rfl
        | some front => simp only [Option.map_some, List.length_cons]; rw [Nat.add_right_comm, Nat.add_assoc]
    · rw [ih hn hline]
      cases firstLines n t with
      | none => rfl
      | some front => simp only [Option.map_some, List.length_cons]; rw [Nat.add_right_comm, Nat.add_assoc]

theorem startAt_first (first i : Nat) : startAt first i first (-1) = i := if_pos ⟨rfl, by omega⟩

theorem startAt_before {first line : Nat} (h : line < first) (i : Nat) (start : Int) :
    startAt first i line start = start :=
  if_neg fun hstart => h.ne hstart.1

/-- In the first line asked for the start is noted. -/
theorem scan_first (first last i : Nat) (t : Text) : scan first last i first (-1) t = scan first last i first i t := by
  cases t with
  | nil => rw [scan, scan, startAt_first, startAt_of_known]
  | cons b t => rw [scan, scan, startAt_first, startAt_of_known]

/-- Before it the lines are only counted. -/
theorem scan_before {first last line : Nat} (hline : line < first) (hlast : first ≤ last) (i : Nat) (b : UInt8)
    (t : Text) :
    scan first last i line (-1) (b :: t) =
      if b = newline then scan first last (i + 1) (line + 1) (-1) t else scan first last (i + 1) line (-1) t := by
  rw [scan, startAt_before hline, if_neg (hline.trans_le hlast).ne]

theorem scan_of_missing {first last n i line : Nat} (hline : line + n = first) (hlast : first ≤ last) {t : Text}
    (h : afterLines n t = none) : scan first last i line (-1) t = .opened (-1) := by
  induction t generalizing n i line with
  | nil =>
    cases n with
    | zero => cases h
    | succ n => rw [scan, startAt_before (by omega)]
  | cons b t ih =>
    cases n with
    | zero => cases h
    | succ n =>
      rw [afterLines] at h
      rw [scan_before (by omega) hlast]
      split at h
      · rename_i hb
        rw [if_pos hb, ih (by omega) h]
      · rename_i hb
        rw [if_neg hb, ih hline h]

/-- If the first line is there, the pass comes to it. -/
theorem scan_of_there {first last n i line : Nat} (hline : line + n = first) (hlast : first ≤ last) {t rest : Text}
    (h : afterLines n t = some rest) : ∃ front, t = front ++ rest ∧
      scan first last i line (-1) t = scan first last (i + front.length) first (i + front.length : Nat) rest := by
  have hhere : ∀ {t : Text} {i : Nat}, afterLines 0 t = some rest → ∃ front, t = front ++ rest ∧
      scan first last i first (-1) t = scan first last (i + front.length) first (i + front.length : Nat) rest := by
    intro t i h
    have ht : t = rest := by cases t <;> exact Option.some.inj h
    exact ⟨[], ht, ht ▸ scan_first first last i t⟩
  induction t generalizing n i line with
  | nil =>
    cases n with
    | zero => exact hline ▸ hhere h
    | succ n => cases h
  | cons b t ih =>
    cases n with
    | zero => exact hline ▸ hhere h
    | succ n =>
      rw [afterLines] at h
      rw [scan_before (by omega) hlast]
      have hstep : ∀ line', (∃ front, t = front ++ rest ∧ scan first last (i + 1) line' (-1) t =
            scan first last (i + 1 + front.length) first (i + 1 + front.length : Nat) rest) →
          ∃ front, b :: t = front ++ rest ∧ scan first last (i + 1) line' (-1) t =
            scan first last (i + front.length) first (i + front.length : Nat) rest := by
        rintro line' ⟨front, rfl, hscan⟩
        refine ⟨b :: front, rfl, ?_⟩
        rw [hscan, List.length_cons, Nat.add_right_comm, Nat.add_assoc]
      split at h
      · rename_i hb
        rw [if_pos hb]
        exact hstep _ (ih (by omega) h)
      · rename_i hb
        rw [if_neg hb]
        exact hstep _ (ih hline h)

/-- The span of a range of lines. -/
def spanOf (t : Text) (first last : Nat) : Span := scan first last 0 1 (-1) t

theorem slice_span (x m y : Text) : slice (x ++ (m ++ y)) x.length (x.length + m.length) = m := by
  rw [← List.append_assoc, slice_append]

/-- What the span of a range takes out is what follows the lines before it, up to its end. -/
theorem spanOf_spec (t : Text) {first last : Nat} (hfirst : 1 ≤ first) (hlast : first ≤ last) :
    (spanOf t first last).InBounds t ∧ (spanOf t first last).read? t =
      (afterLines (first - 1) t).map fun rest => (firstLines (last + 1 - first) rest).getD (trimSuffix "\n" rest) := by
  have hline : 1 + (first - 1) = first := by omega
  unfold spanOf
  cases hrest : afterLines (first - 1) t with
  | none =>
    rw [scan_of_missing hline hlast hrest]
    exact ⟨show (-1 : Int) ≤ t.length by omega, rfl⟩
  | some rest =>
    obtain ⟨front, rfl, hscan⟩ := scan_of_there hline hlast (i := 0) hrest
    have hcount : 0 < last + 1 - first := by omega
    rw [hscan, Nat.zero_add, scan_of_known front.length hcount (by omega)]
    cases hlines : firstLines (last + 1 - first) rest with
    | none =>
      refine ⟨?_, ?_⟩
      · rw [Span.InBounds, List.length_append]
        omega
      · rw [Span.read?, if_neg (by omega), Int.toNat_natCast, List.drop_left, Option.map_some, hlines, Option.getD_none]
    | some lines =>
      obtain ⟨more, rfl⟩ := prefix_of_firstLines hlines
      refine ⟨?_, ?_⟩
      · rw [Span.InBounds, List.length_append, List.length_append]
        omega
      · rw [Span.read?, Int.toNat_natCast, slice_span, Option.map_some, hlines, Option.getD_some]

/-- The lines from `first` to `last`, counted from one. -/
def linesFrom (t : Text) (first last : Nat) : List Text := ((lines t).take last).drop (first - 1)

theorem linesFrom_append (t : Text) {s m e : Nat} (hs : 1 ≤ s) (hsm : s ≤ m) (hme : m ≤ e) :
    linesFrom t s m ++ linesFrom t (m + 1) e = linesFrom t s e := by
  unfold linesFrom
  have htake : (lines t).take m = ((lines t).take e).take m := by rw [List.take_take, Nat.min_eq_left hme]
  have hdrop : m = (s - 1) + (m - (s - 1)) := by omega
  rw [htake, List.drop_take, Nat.add_sub_cancel]
  conv => lhs; rhs; rw [hdrop, ← List.drop_drop]
  exact List.take_append_drop _ _

theorem linesFrom_ne_nil {t : Text} {s e : Nat} (hs : 1 ≤ s) (hse : s ≤ e) (h : s ≤ t.count newline + 1) :
    linesFrom t s e ≠ [] := by
  unfold linesFrom
  rw [Ne, List.drop_eq_nil_iff, List.length_take, length_lines]
  omega

end Text

namespace FileCache

/-- What fetching lines of a content gives for every range: when it fails, what it returns for a range that ends
at a line end and for one that goes on to the end, where it reads, and how two ranges make one. -/
structure FetchesLines (content : Text) (fetched : Int → Int → Except Fault Text) : Prop where
  fails : ∀ s e : Int, (∃ f, fetched s e = .error f) ↔ s < 1 ∨ e < s ∨ content.count Text.newline + 1 < s
  inside : ∀ s e : Int, 1 ≤ s → s ≤ e → e ≤ content.count Text.newline →
    fetched s e = .ok (Text.joinWith [Text.newline] (content.linesFrom s.toNat e.toNat))
  toEnd : ∀ s e : Int, 1 ≤ s → s ≤ content.count Text.newline + 1 → content.count Text.newline < e → s ≤ e →
    fetched s e = .ok (Text.trimSuffix "\n" (Text.joinWith [Text.newline]
      (content.linesFrom s.toNat (content.count Text.newline + 1))))
  span : ∀ s e : Int, 1 ≤ s → s ≤ e → (content.spanOf s.toNat e.toNat).InBounds content ∧
    (fetched s e).toOption = (content.spanOf s.toNat e.toNat).read? content
  parts : ∀ s m e : Int, 1 ≤ s → s ≤ m → m < e → e ≤ content.count Text.newline →
    ∃ a b, fetched s m = .ok a ∧ fetched (m + 1) e = .ok b ∧ fetched s e = .ok (a ++ Text.newline :: b)

/-- The lines of a range are fetched from any cache that gives the content. -/
theorem result_fetchLines {c : FileCache} {d : Disk} {path content : Text} (h : (c.fetch d path).result = .ok content)
    {s e : Int} (hs : 1 ≤ s) (hse : s ≤ e) :
    (c.fetchLines d path s e).result = linesOf content path s.toNat e.toNat := by
  unfold fetchLines
  rw [if_neg (by omega)]
  simp only [fetchPart, h]
  rfl

/-- Lines are fetched exactly as the lines of the content are, whether it was held or is read. -/
theorem fetchLines_exact {c : FileCache} {d : Disk} {path content : Text} (h : (c.fetch d path).result = .ok content) :
    FetchesLines content fun s e => (c.fetchLines d path s e).result := by
  have hlength := content.length_lines
  have hresult : ∀ s e : Int, 1 ≤ s → s ≤ e → (c.fetchLines d path s e).result =
      match Text.lineRange content s.toNat e.toNat with
      | some t => .ok t
      | none => .error (.lineBeyond s.toNat path) := fun s e hs hse =>
    (result_fetchLines h hs hse).trans (linesOf_eq content path (by omega) (by omega))
  have hinside : ∀ s e : Int, 1 ≤ s → s ≤ e → e ≤ content.count Text.newline →
      (c.fetchLines d path s e).result = .ok (Text.joinWith [Text.newline] (content.linesFrom s.toNat e.toNat)) := by
    intro s e hs hse he
    rw [hresult s e hs hse, Text.lineRange, if_neg (by omega), if_pos (by omega)]
    rfl
  have htoEnd : ∀ s e : Int, 1 ≤ s → s ≤ content.count Text.newline + 1 → content.count Text.newline < e → s ≤ e →
      (c.fetchLines d path s e).result = .ok (Text.trimSuffix "\n" (Text.joinWith [Text.newline]
        (content.linesFrom s.toNat (content.count Text.newline + 1)))) := by
    intro s e hs hbegins he hse
    rw [hresult s e hs hse, Text.lineRange, if_neg (by omega), if_neg (by omega), Text.linesFrom, ← hlength,
      List.take_length]
  constructor
  case inside => exact hinside
  case toEnd => exact htoEnd
  case fails =>
    intro s e
    constructor
    · rintro ⟨f, hf⟩
      by_contra hrange
      rw [not_or, not_or] at hrange
      rcases le_or_gt e (content.count Text.newline) with he | he
      · rw [hinside s e (by omega) (by omega) he] at hf
        cases hf
      · rw [htoEnd s e (by omega) (by omega) he (by omega)] at hf
        cases hf
    · intro hrange
      by_cases hnone : s < 1 ∨ e < s
      · exact ⟨_, congrArg Fetched.result (fetchLines_of_noRange hnone)⟩
      · refine ⟨.lineBeyond s.toNat path, ?_⟩
        rw [hresult s e (by omega) (by omega), Text.lineRange, if_pos (by omega)]
  case span =>
    intro s e hs hse
    have hfirst : 1 ≤ s.toNat := by omega
    have hlast : s.toNat ≤ e.toNat := by omega
    obtain ⟨hbounds, hread⟩ := content.spanOf_spec hfirst hlast
    refine ⟨hbounds, ?_⟩
    rw [hread, result_fetchLines h hs hse, linesOf]
    cases Text.afterLines (s.toNat - 1) content <;> rfl
  case parts =>
    intro s m e hs hsm hme he
    refine ⟨_, _, hinside s m hs hsm (by omega), hinside (m + 1) e (by omega) (by omega) he, ?_⟩
    have hnext : (m + 1).toNat = m.toNat + 1 := by omega
    rw [hinside s e hs (by omega) he, hnext,
      ← Text.linesFrom_append content (m := m.toNat) (by omega) (by omega) (by omega),
      Text.joinWith_append (Text.linesFrom_ne_nil (by omega) (by omega) (by omega))
        (Text.linesFrom_ne_nil (by omega) (by omega) (by omega))]

/-- A disk with a file that ends with an empty line. -/
def blankEnd : Disk := ⟨.dir [("a.js", .file "let a;\nlet b;\n\n" 0o644)], "/"⟩

theorem blankEnd_fetched : ((empty 1).fetch blankEnd "/a.js").result = .ok "let a;\nlet b;\n\n" ∧
    FetchesLines "let a;\nlet b;\n\n" fun s e => ((empty 1).fetchLines blankEnd "/a.js" s e).result := by
  have hfetch : ((empty 1).fetch blankEnd "/a.js").result = .ok "let a;\nlet b;\n\n" := rfl
  exact ⟨hfetch, fetchLines_exact hfetch⟩

end FileCache

end DocAtlas

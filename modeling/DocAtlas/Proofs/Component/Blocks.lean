/-
What a survey inserts. A component is documented by its block, indented as its line is, with a
newline and the indentation after it; so what is inserted is one comment exactly if nothing the
block takes over from the code can end a comment. The keys of a pattern are taken over as they are
written, and a string literal may hold anything: the last section has a key that ends the comment.
-/
import DocAtlas.Proofs.Component.Ledger
import DocAtlas.Proofs.Doc.Closing

namespace DocAtlas.Survey

variable (s : Survey)

theorem isIndent_of_mem_lineIndent {src : Text} {offset : Nat} {b : UInt8} (h : b ∈ lineIndent src offset) :
    Doc.IsIndent b := by
  unfold lineIndent at h
  simp only at h
  split at h
  · rename_i hall
    have := List.all_eq_true.1 hall b h
    simpa [Doc.IsIndent] using this
  · cases h

theorem offset?_eq_some {src : Text} {anchor : Node} {offset : Nat} :
    offset? src anchor = some offset ↔ offset = anchor.start ∧ anchor.start < anchor.stop ∧
    anchor.stop ≤ src.length := by
  unfold offset?
  split
  · rename_i h
    simp [h, eq_comm]
  · rename_i h
    simp [h]

/-- When a component is documented, and what is inserted for it. -/
theorem judge_eq_documented {cand : Candidate} {fn : Option Cursor} {info : ComponentInfo} {ins : Insertion}
    (h : s.judge cand fn = .documented info ins) :
    offset? s.src cand.anchor.node = some cand.anchor.node.start ∧ isAnnotated s.src cand.anchor = false ∧
      info.name = cand.name ∧ ins = ⟨cand.anchor.node.start, s.blockFor info cand.anchor.node.start⟩ := by
  unfold judge at h
  split at h
  · cases h
  · rename_i offset ho
    obtain ⟨rfl, hstart, hstop⟩ := offset?_eq_some.1 ho
    simp only at h
    split at h
    · cases h
    · rename_i hann
      split at h
      · cases h
      · cases h
        exact ⟨ho, by simpa using hann, rfl, rfl⟩

/-- What is inserted for a component is one comment, a newline and the indentation of its line,
exactly if no word the block takes over holds the end of a comment. -/
theorem inserted_oneComment_iff (s : Survey) (info : ComponentInfo) (ins : Insertion)
    (h : Finding.documented info ins ∈ s.findings) :
    Doc.OneComment (lineIndent s.src ins.offset.toNat) ins.text ↔
      ∀ w ∈ (factsOf info).words, ¬ Doc.closer <:+: w := by
  obtain ⟨c, cand, f, -, -, hj⟩ := s.judged_of_documented h
  obtain ⟨-, -, -, rfl⟩ := s.judge_eq_documented hj
  exact Doc.oneComment_iff (fun b hb => isIndent_of_mem_lineIndent hb) (factsOf info) s.options.stamp

/-! ## Keys that are string literals -/

/-- `const A = ({ "key": x }) => <a/>;` with a key of two bytes. -/
def keyedText (key : Text) : Text :=
  Text.ofString "const A = (\x7b \"" ++ key ++ "\": x \x7d) => <a/>;\n"

def keyedTree : Node :=
  .named "program" none 0 33 [.named "lexical_declaration" none 0 32
    [.mk ⟨"const", some "kind", 0, 5, false, false, false, false⟩ [],
      .named "variable_declarator" none 6 31
        [.named "identifier" (some "name") 6 7 [], .token "=" 8 9,
          .named "arrow_function" (some "value") 10 31
            [.named "formal_parameters" (some "parameters") 10 23
              [.token "(" 10 11,
                .named "object_pattern" none 11 22
                  [.token "\x7b" 11 12,
                    .named "pair_pattern" none 13 20
                      [.named "string" (some "key") 13 17
                        [.token "\"" 13 14, .named "string_fragment" none 14 16 [], .token "\"" 16 17],
                        .token ":" 17 18, .named "identifier" (some "value") 19 20 []],
                    .token "\x7d" 21 22],
                .token ")" 22 23],
              .token "=>" 24 26,
              .named "jsx_self_closing_element" (some "body") 27 31
                [.token "<" 27 28, .named "identifier" (some "name") 28 29 [], .token "/>" 29 31]]],
      .token ";" 31 32]]

def keyed (key : Text) : Survey := ⟨⟨defaultWrappers, none, false⟩, ⟨keyedText key, keyedTree⟩, keyedText key⟩

def keyedInfo (key : Text) : ComponentInfo := ⟨"A", .arrow, ⟨"props", ⟨[key]⟩, false⟩, 1⟩

/-- A plain key leaves the block one comment. -/
theorem plainKey_oneComment :
    Finding.documented (keyedInfo "id") ⟨0, (keyed "id").blockFor (keyedInfo "id") 0⟩ ∈ (keyed "id").findings ∧
      (∀ w ∈ (factsOf (keyedInfo "id")).words, ¬ Doc.closer <:+: w) ∧
        Doc.OneComment (lineIndent (keyed "id").src 0) ((keyed "id").blockFor (keyedInfo "id") 0) := by
  have hdoc : Finding.documented (keyedInfo "id")
    ⟨0, (keyed "id").blockFor (keyedInfo "id") 0⟩ ∈ (keyed "id").findings := by
    decide +kernel
  have hwords : ∀ w ∈ (factsOf (keyedInfo "id")).words, ¬ Doc.closer <:+: w := by decide +kernel
  exact ⟨hdoc, hwords, (inserted_oneComment_iff (keyed "id") _ _ hdoc).2 hwords⟩

/-- A key that holds the end of a comment ends the block's comment. -/
theorem closingKey_not_oneComment : ¬ ∀ (s : Survey) info ins, Finding.documented info ins ∈ s.findings →
    Doc.OneComment (lineIndent s.src ins.offset.toNat) ins.text := by
  intro h
  have hdoc : Finding.documented (keyedInfo "*/")
    ⟨0, (keyed "*/").blockFor (keyedInfo "*/") 0⟩ ∈ (keyed "*/").findings := by
    decide +kernel
  have hone := (h (keyed "*/") _ _ hdoc).closesOnce
  have htwo : Doc.closings ((keyed "*/").blockFor (keyedInfo "*/") 0) = 2 := by decide +kernel
  rw [htwo] at hone
  cases hone

end DocAtlas.Survey

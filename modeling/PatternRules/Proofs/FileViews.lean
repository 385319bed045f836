import Mathlib.Data.List.Infix
import PatternRules.Proofs.Coordinates
import PatternRules.Proofs.Fidelity

/-!
The two views of the files that a document names. The tree gives string literals, in which a backslash keeps
the next character from closing. The text gives what stands between one quote and the next. Both are cut out of
the same line, the literal of the tree as long as its span says (`FileReference.inTree_cuts`) and that of the text as a
`Plain` literal (`FileReference.inText_cuts`). So they are the same exactly if that of the tree is plain
(`views_agree_iff`).
-/

namespace PatternRules

/-- A quoted text without a quote inside. -/
def Plain (literal : List Char) : Prop := ∃ name, literal = '"' :: name ++ ['"'] ∧ '"' ∉ name

/-- No two plain literals start at one place. -/
theorem Plain.eq_of_prefix {literal other text : List Char} (h : Plain literal) (h' : Plain other)
    (starts : literal <+: text) (starts' : other <+: text) : literal = other := by
  obtain ⟨name, rfl, noQuote⟩ := h
  obtain ⟨name', rfl, noQuote'⟩ := h'
  obtain ⟨rest, rfl⟩ := starts
  obtain ⟨rest', same⟩ := starts'
  have front (name rest : List Char) (noQuote : '"' ∉ name) :
      (name ++ '"' :: rest).takeWhile (· != '"') = name := by
    have all : ∀ c ∈ name, (c != '"') = true :=
      fun _ hc => bne_iff_ne.2 (ne_of_mem_of_not_mem hc noQuote)
    rw [List.takeWhile_append_of_pos all]
    simp
  have tails : name' ++ '"' :: rest' = name ++ '"' :: rest := by simpa using same
  have names := congrArg (List.takeWhile (· != '"')) tails
  rw [front name' rest' noQuote', front name rest noQuote] at names
  rw [names]

namespace FileReference

/-! ## What is found in a line -/

theorem quotedFirst?_plain {text literal : List Char} (h : quotedFirst? text = some literal) :
    Plain literal ∧ literal <+: text := by
  unfold quotedFirst? at h
  split at h
  · next cs =>
    have noQuote : '"' ∉ cs.takeWhile fun c => c != '"' && c != '\n' := by
      intro mem
      simpa using List.mem_takeWhile_imp mem
    have front := List.takeWhile_prefix (fun c => c != '"' && c != '\n') (l := cs)
    dsimp only at h
    generalize (cs.takeWhile fun c => c != '"' && c != '\n') = body at h noQuote front
    split at h
    · next closed =>
      cases h
      obtain ⟨rest, rfl⟩ := front
      obtain ⟨rest, rfl⟩ : ∃ further, rest = '"' :: further := by
        rw [List.getElem?_append_right (Nat.le_refl _), Nat.sub_self, ← List.head?_eq_getElem?] at closed
        exact List.head?_eq_some_iff.1 closed
      exact ⟨⟨body, rfl, noQuote⟩, rest, by simp⟩
    · cases h
  · cases h

theorem importLiteral?_plain {line literal : List Char} {index : Nat}
    (h : importLiteral? line = some (index, literal)) : Plain literal ∧ literal <+: line.drop index := by
  obtain ⟨front, rest, rfl, rfl, found, -⟩ := importLiteral?_split h
  rw [List.drop_left]
  exact quotedFirst?_plain found

theorem prefix_of_optionalTokensFirst? {text arguments : List Char} {before : Nat}
    (h : optionalTokensFirst? text = some (before, arguments)) : arguments <+: text.drop before := by
  obtain ⟨front, rest, rfl, rfl, rfl, -⟩ := optionalTokensFirst?_split h
  rw [List.drop_left]
  exact List.takeWhile_prefix _

theorem prefix_of_optionalTokensUses {text arguments : List Char} {index before : Nat}
    (h : (index, before, arguments) ∈ optionalTokensUses text) :
    arguments <+: text.drop (index + before) := by
  obtain ⟨n, length, rfl, -, found⟩ := first_of_mem_matchesFrom h
  obtain ⟨⟨before, arguments⟩, huse, ⟨⟩⟩ := Option.map_eq_some_iff.1 found
  have := prefix_of_optionalTokensFirst? huse
  rwa [List.drop_drop, ← Nat.zero_add n] at this

theorem quotedTexts_plain {text literal : List Char} {index : Nat}
    (h : (index, literal) ∈ quotedTexts text) : Plain literal ∧ literal <+: text.drop index := by
  obtain ⟨n, length, rfl, -, found⟩ := first_of_mem_matchesFrom h
  obtain ⟨literal, hliteral, ⟨⟩⟩ := Option.map_eq_some_iff.1 found
  rw [Nat.zero_add]
  exact quotedFirst?_plain hliteral

/-- The file name is a plain literal that stands in a line at its span. -/
structure Cut (line : List Char) (reference : FileReference) : Prop where
  plain : Plain reference.literal.toList
  starts : reference.literal.toList <+: line.drop (reference.span.column - 1)
  length : reference.span.length = reference.literal.toList.length

theorem cut_atIndex {line literal : List Char} {index : Nat} (purpose : FilePurpose) (number : Nat)
    (plain : Plain literal) (starts : literal <+: line.drop index) :
    Cut line (atIndex purpose number index literal) := by
  constructor <;> simp [atIndex, plain, starts]

theorem inLine_cuts {line : ScannedLine} {reference : FileReference} (h : reference ∈ inLine line) :
    Cut line.content reference ∧ reference.span.line = line.number := by
  rw [inLine, List.mem_append] at h
  rcases h with h | h
  · obtain ⟨⟨index, literal⟩, found, rfl⟩ := List.mem_map.1 h
    obtain ⟨plain, starts⟩ := importLiteral?_plain (Option.mem_toList.1 found)
    exact ⟨cut_atIndex _ _ plain starts, rfl⟩
  · obtain ⟨⟨index, before, arguments⟩, huse, h⟩ := List.mem_flatMap.1 h
    obtain ⟨⟨inner, literal⟩, quoted, rfl⟩ := List.mem_map.1 h
    have outside := prefix_of_optionalTokensUses (List.mem_filter.1 huse).1
    obtain ⟨plain, inside⟩ := quotedTexts_plain quoted
    have starts := inside.trans (List.IsPrefix.drop outside inner)
    rw [List.drop_drop] at starts
    exact ⟨cut_atIndex _ _ plain starts, rfl⟩

/-- A file name in a text is cut out of the line that its span names. -/
theorem inText_cuts {text : List Char} {reference : FileReference} (h : reference ∈ inText (scanText text)) :
    ∃ line, (splitLines text)[reference.span.line - 1]? = some line ∧ Cut line reference := by
  obtain ⟨scanned, hscanned, h⟩ := List.mem_flatMap.1 h
  obtain ⟨cut, number⟩ := inLine_cuts h
  obtain ⟨n, found⟩ := List.mem_iff_getElem?.1 hscanned
  obtain ⟨line, hline, rfl⟩ := Option.map_eq_some_iff.1 (getElem?_scanText text n ▸ found)
  rw [content_classifyLine] at cut
  refine ⟨line, by rw [number]; exact hline, cut.plain, ?_, cut.length⟩
  exact cut.starts.trans (List.IsPrefix.drop (prefix_dropReturns line) _)

/-! ## What is found in a tree -/

/-- A file name in a tree is cut out of the line that its span names, plain or not. -/
theorem inTree_cuts {text : String} {reference : FileReference}
    (h : reference ∈ inTree (readDocument text).tree) :
    reference.span.source? text.toList = some reference.literal.toList ∧
      reference.span.length = reference.literal.toList.length := by
  obtain ⟨n, hn, kind, purpose, of⟩ := string_of_inTree h
  obtain ⟨literal, value, rfl⟩ := Option.map_eq_some_iff.1 of
  have faithful := says_of_mem_nodes hn value
  have oneLine : '\n' ∉ literal.toList := by
    intro newline
    simpa [kind] using faithful.newline newline
  have length := faithful.length oneLine
  refine ⟨?_, length.symm⟩
  rw [faithful.source, ← length, List.take_length]

end FileReference

/-- **The two views of a file name agree** where the literal in the tree has no quote inside, and only there. A
file name of the tree and one of the text that have one purpose and start at one place are the same exactly if
that of the tree is a quoted text without a quote inside. -/
theorem views_agree_iff {text : String} {t s : FileReference}
    (ht : t ∈ FileReference.inTree (readDocument text).tree)
    (hs : s ∈ FileReference.inText (scanText text.toList)) (purpose : t.purpose = s.purpose)
    (start : t.span.start = s.span.start) :
    t = s ↔ Plain t.literal.toList := by
  obtain ⟨line, found, cut⟩ := FileReference.inText_cuts hs
  obtain ⟨source, length⟩ := FileReference.inTree_cuts ht
  constructor
  · rintro rfl
    exact cut.plain
  · intro plain
    have sameLine : t.span.line = s.span.line := congrArg Position.line start
    have sameColumn : t.span.column = s.span.column := congrArg Position.column start
    have starts : t.literal.toList <+: line.drop (s.span.column - 1) := by
      simp only [Span.source?, sameLine, found, sameColumn] at source
      split at source
      · rw [← Option.some.inj source]
        exact List.take_prefix _ _
      · cases source
    have literal : t.literal = s.literal :=
      String.toList_inj.1 (Plain.eq_of_prefix plain cut.plain starts cut.starts)
    have sameLength : t.span.length = s.span.length := by rw [length, literal, cut.length]
    obtain ⟨_, _, ⟨_, _, _⟩⟩ := t
    obtain ⟨_, _, ⟨_, _, _⟩⟩ := s
    simp_all

/-- The path of this import has a quote inside, which the text view takes for its end. -/
def escapedImport : String := "import \"a\\\"b\" as x"

theorem views_agree_iff_escaped :
    let t : FileReference := ⟨.importPath, "\"a\\\"b\"", ⟨1, 8, 6⟩⟩
    let s : FileReference := ⟨.importPath, "\"a\\\"", ⟨1, 8, 4⟩⟩
    t ∈ FileReference.inTree (readDocument escapedImport).tree ∧
      s ∈ FileReference.inText (scanText escapedImport.toList) ∧ t.span.start = s.span.start ∧ t ≠ s := by
  intro t s
  have ht : t ∈ FileReference.inTree (readDocument escapedImport).tree := by decide +kernel
  have hs : s ∈ FileReference.inText (scanText escapedImport.toList) := by decide +kernel
  refine ⟨ht, hs, rfl, ?_⟩
  intro same
  obtain ⟨name, literal, noQuote⟩ := (views_agree_iff ht hs rfl rfl).1 same
  have three : t.literal.toList.count '"' = 3 := by decide
  rw [literal] at three
  simp [List.count_eq_zero.2 noQuote] at three

end PatternRules

import Mathlib.Algebra.Group.Nat.Defs
import PatternRules.Analysis.Validate
import PatternRules.Proofs.Layout
import PatternRules.Proofs.Settles.Document

/-!
Every reported location exists. A span `LiesIn` a text if its line is one of the text's and its columns
are columns of that line, the one behind the last character included. Spans come from four sources:

* the text between two places of a cursor (`Cursor.liesIn_spanFrom`), cut off at the end of the line;
* the next character (`Cursor.liesIn_nextSpan`), of which there is none at the end of a line;
* the columns of a scanned line (`openEnded_liesIn`);
* file names found in a line (`FileReference.inLine_liesIn`).

`reported_located` collects them for all that is reported about a text.
-/

namespace PatternRules

/-- The span is on a line of the text, and within that line. -/
structure Span.LiesIn (s : Span) (text : List Char) : Prop where
  line_pos : 1 ≤ s.line
  line_le : s.line ≤ text.count '\n' + 1
  column_pos : 1 ≤ s.column
  within : ∀ line, (splitLines text)[s.line - 1]? = some line → s.column + s.length ≤ line.length + 1

theorem Span.LiesIn.of_line {s : Span} {text line : List Char} (line_pos : 1 ≤ s.line)
    (found : (splitLines text)[s.line - 1]? = some line) (column_pos : 1 ≤ s.column)
    (within : s.column + s.length ≤ line.length + 1) : s.LiesIn text := by
  have bound : s.line - 1 < (splitLines text).length := (List.getElem?_eq_some_iff.1 found).1
  rw [length_splitLines] at bound
  refine ⟨line_pos, by omega, column_pos, ?_⟩
  intro other hother
  rw [found, Option.some.injEq] at hother
  exact hother ▸ within

/-! ## Places of a cursor -/

namespace Cursor

/-- What is left of the line. -/
def lineTail (c : Cursor) : List Char := c.run (· != '\n')

variable {text : List Char} {a b : Cursor}

/-- **The line of a cursor**, with what was read of it and what is left of it. -/
theorem Reaches.line? (h : (ofChars text).Reaches a) :
    ∃ front, (splitLines text)[a.line - 1]? = some (front ++ a.lineTail) ∧
      a.column = front.length + 1 ∧ 1 ≤ a.line := by
  obtain ⟨before, front, on⟩ := h.onLine
  obtain ⟨lines, hlines⟩ := splitLines_append on.noNewline a.rest
  refine ⟨front, ?_, on.column_eq, ?_⟩
  · rw [on.lines_eq, hlines, on.line_eq, Nat.add_sub_cancel]
    simp [lineTail, run]
  · rw [on.line_eq]
    omega

theorem column_advance {c : Cursor} {ch : Char} {rest : List Char} (h : c.rest = ch :: rest)
    (other : ch ≠ '\n') : c.advance.column = c.column + 1 := by
  unfold advance
  rw [h]
  simp [other]

theorem column_advanceBy (n : Nat) (c : Cursor) (h : '\n' ∉ c.rest.take n) :
    (c.advanceBy n).column = c.column + (c.rest.take n).length := by
  induction n generalizing c with
  | zero => rfl
  | succ n ih =>
    cases hrest : c.rest with
    | nil =>
      rw [advanceBy_of_rest_nil hrest, List.take_nil, List.length_nil, Nat.add_zero]
    | cons ch rest =>
      rw [hrest, List.take_succ_cons, List.mem_cons, not_or] at h
      have next := ih c.advance (by rw [rest_advance, hrest, List.tail_cons]; exact h.2)
      rw [advanceBy, next, column_advance hrest fun e => h.1 e.symm, rest_advance, hrest,
        List.tail_cons, List.take_succ_cons, List.length_cons]
      omega

/-- What is read before the line ends belongs to the line. -/
theorem take_prefix_lineTail (c : Cursor) {n : Nat} (h : '\n' ∉ c.rest.take n) :
    c.rest.take n <+: c.lineTail := by
  have all : ∀ x ∈ c.rest.take n, (x != '\n') = true :=
    fun _ hx => bne_iff_ne.2 (ne_of_mem_of_not_mem hx h)
  refine ⟨(c.rest.drop n).takeWhile (· != '\n'), ?_⟩
  rw [← List.takeWhile_append_of_pos all, List.take_append_drop]
  rfl

theorem take_lineTail (c : Cursor) {n : Nat} (h : n ≤ c.lineTail.length) :
    c.rest.take n = c.lineTail.take n := by
  obtain ⟨further, split⟩ : c.lineTail <+: c.rest := List.takeWhile_prefix _
  rw [← split, List.take_append_of_le_length h]

theorem not_mem_lineTail (c : Cursor) : '\n' ∉ c.lineTail := by
  intro mem
  simpa using List.mem_takeWhile_imp mem

theorem not_mem_take_of_le (c : Cursor) {n : Nat} (h : n ≤ c.lineTail.length) : '\n' ∉ c.rest.take n := by
  rw [take_lineTail c h]
  exact fun mem => c.not_mem_lineTail (List.mem_of_mem_take mem)

/-- Reading on in the line leaves the rest of it. -/
theorem lineTail_advanceBy (c : Cursor) {n : Nat} (h : '\n' ∉ c.rest.take n) :
    (c.advanceBy n).lineTail = c.lineTail.drop n := by
  have all : ∀ x ∈ c.rest.take n, (x != '\n') = true :=
    fun _ hx => bne_iff_ne.2 (ne_of_mem_of_not_mem hx h)
  have split : c.lineTail = c.rest.take n ++ (c.advanceBy n).lineTail := by
    rw [lineTail, run, lineTail, run, rest_advanceBy, ← List.takeWhile_append_of_pos all,
      List.take_append_drop]
  by_cases hn : n ≤ c.rest.length
  · rw [split, List.drop_left' (List.length_take_of_le hn)]
  · have none : (c.advanceBy n).lineTail = [] := by
      rw [lineTail, run, rest_advanceBy, List.drop_eq_nil_of_le (by omega)]
      rfl
    have short : c.lineTail.length ≤ n := by
      have := (List.takeWhile_sublist (· != '\n') (l := c.rest)).length_le
      rw [lineTail, run]
      omega
    rw [none, List.drop_eq_nil_of_le short]

/-- What is read until behind the end of the line starts with what is left of it. -/
theorem lineTail_prefix_take (c : Cursor) {n : Nat} (h : '\n' ∈ c.rest.take n) :
    c.lineTail <+: c.rest.take n := by
  have notAll : ((c.rest.take n).takeWhile (· != '\n')).length ≠ (c.rest.take n).length := by
    intro all
    have same := (List.takeWhile_prefix (· != '\n')).eq_of_length all
    rw [← same] at h
    have := List.mem_takeWhile_imp h
    simp at this
  have cut : c.lineTail = (c.rest.take n).takeWhile (· != '\n') := by
    have := @List.takeWhile_append _ (· != '\n') (c.rest.take n) (c.rest.drop n)
    rwa [List.take_append_drop, if_neg notAll] at this
  rw [cut]
  exact List.takeWhile_prefix _

/-- **A span covers what was read, as far as its line goes.** It is as long as the text that was read,
unless that runs over the line. -/
theorem take_spanFrom (h : (ofChars text).Reaches a) (h' : a.Reaches b) :
    (b.spanFrom a.mark).length ≤ a.lineTail.length ∧
    a.lineTail.take (b.spanFrom a.mark).length = (b.textSince a).take (b.spanFrom a.mark).length ∧
    ('\n' ∉ b.textSince a → (b.spanFrom a.mark).length = (b.textSince a).length) := by
  have stop := stop_spanFrom h'
  have start : (b.spanFrom a.mark).column = a.column := rfl
  rw [Span.stop, start] at stop
  obtain ⟨n, rfl⟩ := h'
  rw [Parse.textSince_advanceBy]
  by_cases newline : '\n' ∈ a.rest.take n
  · -- The text runs over the line: the span ends with the line, or sooner at a carriage return.
    have later : (a.advanceBy n).line ≠ a.line := by
      rw [line_advanceBy]
      have := List.count_pos_iff.2 newline
      omega
    obtain ⟨front, found, column, -⟩ := h.line?
    have lineEnd : a.source.lineEnds[a.line - 1]? =
        some (((front ++ a.lineTail).takeWhile (· != '\r')).length + 1) := by
      rw [h.source_eq]
      simp [ofChars, SourceText.ofChars, lineEndColumns, found]
    rw [if_neg later, lineEndColumn_eq (reaches_advanceBy n a) lineEnd] at stop
    have shorter := (List.takeWhile_sublist (· != '\r') (l := front ++ a.lineTail)).length_le
    rw [List.length_append] at shorter
    have fits : ((a.advanceBy n).spanFrom a.mark).length ≤ a.lineTail.length := by omega
    refine ⟨fits, ?_, fun noNewline => absurd newline noNewline⟩
    obtain ⟨rest, hrest⟩ := a.lineTail_prefix_take newline
    rw [← hrest, List.take_append_of_le_length fits]
  · have same : (a.advanceBy n).line = a.line := by
      rw [line_advanceBy, List.count_eq_zero.2 newline]
      rfl
    rw [if_pos same, column_advanceBy n a newline] at stop
    have length : ((a.advanceBy n).spanFrom a.mark).length = (a.rest.take n).length := by omega
    have covered := a.take_prefix_lineTail newline
    rw [length]
    refine ⟨covered.length_le, ?_, fun _ => rfl⟩
    rw [← List.prefix_iff_eq_take.1 covered, List.take_length]

theorem liesIn_spanFrom (h : (ofChars text).Reaches a) (h' : a.Reaches b) :
    (b.spanFrom a.mark).LiesIn text := by
  obtain ⟨front, found, column, positive⟩ := h.line?
  refine .of_line positive found (by rw [column_spanFrom]; omega) ?_
  have fits := (take_spanFrom h h').1
  rw [column_spanFrom, List.length_append]
  omega

theorem liesIn_nextSpan (h : (ofChars text).Reaches a) : a.nextSpan.LiesIn text := by
  obtain ⟨front, found, column, positive⟩ := h.line?
  have fits : a.nextSpan.length ≤ a.lineTail.length := by
    unfold nextSpan lineTail run peek
    cases a.rest with
    | nil => simp
    | cons ch rest =>
      by_cases newline : ch = '\n'
      · simp [newline]
      · simp [newline]
  have start : a.nextSpan.column = a.column := rfl
  refine .of_line positive found (by rw [start]; omega) ?_
  rw [start, List.length_append]
  omega

theorem line_le_length (h : (ofChars text).Reaches a) : a.line ≤ text.length + 1 := by
  obtain ⟨front, found, -, positive⟩ := h.line?
  have bound := (List.getElem?_eq_some_iff.1 found).1
  rw [length_splitLines] at bound
  have := List.count_le_length (a := '\n') (l := text)
  omega

end Cursor

/-! ## Readings -/

/-- **Every error of a reading is about a place in the text.** -/
theorem error_liesIn {text : String} {e : SyntaxError} (h : e ∈ (readDocument text).errors) :
    e.span.LiesIn text.toList := by
  rw [errors_readDocument] at h
  obtain ⟨a, reached, -, starts⟩ := (readWithin_settled .standard text.toList).placed e h
  rcases starts with here | ⟨b, reaches, since⟩
  · exact here ▸ Cursor.liesIn_nextSpan reached
  · exact since ▸ Cursor.liesIn_spanFrom reached reaches

/-- **Every node of a tree is about a place in the text.** -/
theorem node_liesIn {text : String} {n : Node} (h : n ∈ (readDocument text).tree.nodes) :
    n.span.LiesIn text.toList := by
  obtain ⟨a, b, reached, read⟩ := readFrom_of_mem_nodes h
  rw [read.span_eq]
  exact Cursor.liesIn_spanFrom reached read.reaches

/-! ## Scanned lines -/

theorem length_dropReturns_le (line : List Char) : (dropReturns line).length ≤ line.length := by
  rw [dropReturns, List.length_reverse]
  have := (List.dropWhile_sublist (· == '\r') (l := line.reverse)).length_le
  rwa [List.length_reverse] at this

theorem content_classifyLine (line : List Char) (number : Nat) :
    (ScannedLine.mk number (classifyLine line)).content = line := by
  have content (column offset : Nat) (cs : List Char) (rs : List Region) (h : rs.length = cs.length) :
      (placeChars column offset cs rs).map (·.char) = cs := by
    induction cs generalizing column offset rs with
    | nil => cases rs <;> rfl
    | cons c cs ih =>
      cases rs with
      | nil => cases h
      | cons r rs =>
        rw [placeChars, List.map_cons, ih _ _ _ (Nat.succ.inj h)]
  exact content 1 0 line _ (length_lineRegions line)

theorem column_of_mem_placeChars {column offset : Nat} {cs : List Char} {rs : List Region}
    {c : ScannedChar} (h : c ∈ placeChars column offset cs rs) :
    column ≤ c.column ∧ c.column < column + cs.length := by
  fun_induction placeChars column offset cs rs with
  | case1 column offset ch cs r rs ih =>
    rw [List.length_cons]
    rcases List.mem_cons.1 h with rfl | h
    · exact ⟨Nat.le_refl _, by dsimp only; omega⟩
    · have := ih h
      omega
  | case2 => cases h

/-- What is found within the content of a scanned line lies in the text. -/
theorem liesIn_of_scanned {text : List Char} {line : ScannedLine} (h : line ∈ scanText text)
    {column length : Nat} (positive : 1 ≤ column)
    (within : column + length ≤ line.content.length + 1) :
    Span.LiesIn ⟨line.number, column, length⟩ text := by
  rw [scanText, List.mem_map] at h
  obtain ⟨⟨number, content⟩, numbered, rfl⟩ := h
  rw [numberedLines, List.mem_map] at numbered
  obtain ⟨⟨_, index⟩, indexed, ⟨⟩⟩ := numbered
  have found := List.mem_zipIdx_iff_getElem?.1 indexed
  rw [lineContents, List.getElem?_map, Option.map_eq_some_iff] at found
  obtain ⟨raw, found, rfl⟩ := found
  rw [content_classifyLine] at within
  have := length_dropReturns_le raw
  exact .of_line (Nat.succ_le_succ (Nat.zero_le _)) found positive (by dsimp only at within ⊢; omega)

theorem openEnded_liesIn {text : List Char} {lines : List ScannedLine}
    (scanned : ∀ line ∈ lines, line ∈ scanText text) {d : Diagnostic}
    (h : d ∈ openEndedQuantifiers lines) : d.span.LiesIn text := by
  rw [openEndedQuantifiers, List.mem_flatMap] at h
  obtain ⟨line, hline, h⟩ := h
  rw [openEndedInLine, List.mem_map] at h
  obtain ⟨⟨before, sign⟩, found, rfl⟩ := h
  have member : sign ∈ line.chars :=
    List.mem_of_mem_tail (List.of_mem_zip (List.mem_filter.1 found).1).2
  have place : 1 ≤ sign.column ∧ sign.column < 1 + line.chars.length := by
    have isScanned := scanned line hline
    rw [scanText, List.mem_map] at isScanned
    obtain ⟨⟨number, content⟩, -, rfl⟩ := isScanned
    have column := column_of_mem_placeChars member
    have length := congrArg List.length (content_classifyLine content number)
    rw [ScannedLine.content, List.length_map] at length
    dsimp only at length ⊢
    omega
  have span : (openEnded line.number sign).span = ⟨line.number, sign.column, 1⟩ := rfl
  rw [span]
  refine liesIn_of_scanned (scanned line hline) place.1 ?_
  rw [ScannedLine.content, List.length_map]
  omega

/-! ## File names in a line -/

namespace FileReference

/-- A literal is dropped from the front. -/
theorem dropLiteral?_eq_some {literal text rest : List Char} (h : dropLiteral? literal text = some rest) :
    text = literal ++ rest := by
  unfold dropLiteral? at h
  split at h
  · next starts =>
    cases h
    exact (List.prefix_iff_eq_append.1 (List.isPrefixOf_iff_prefix.1 starts)).symm
  · cases h

/-- In front of the path of an import the line holds blanks and the word. -/
theorem importLiteral?_split {line literal : List Char} {index : Nat}
    (h : importLiteral? line = some (index, literal)) :
    ∃ front rest, line = front ++ rest ∧ front.length = index ∧ quotedFirst? rest = some literal ∧
      ∀ c ∈ front, Text.isWhite c = true ∨ c ∈ "import".toList := by
  simp only [importLiteral?, Option.bind_eq_bind, Option.bind_eq_some_iff] at h
  obtain ⟨behindWord, hword, h⟩ := h
  split at h
  · obtain ⟨found, hfound, h⟩ := Option.bind_eq_some_iff.1 h
    cases h
    have split : line = (line.takeWhile Text.isWhite ++ "import".toList ++ behindWord.takeWhile Text.isWhite) ++
        behindWord.dropWhile Text.isWhite := by
      rw [List.append_assoc, List.takeWhile_append_dropWhile, List.append_assoc,
        ← dropLiteral?_eq_some hword, List.takeWhile_append_dropWhile]
    have length := congrArg List.length split
    rw [List.length_append] at length
    refine ⟨_, _, split, by omega, hfound, ?_⟩
    intro c hc
    rw [List.mem_append, List.mem_append] at hc
    rcases hc with (white | word) | white
    · exact .inl (List.mem_takeWhile_imp white)
    · exact .inr word
    · exact .inl (List.mem_takeWhile_imp white)
  · cases h

/-- In front of the arguments of `optional-tokens` stand the word, blanks and the parenthesis. -/
theorem optionalTokensFirst?_split {text arguments : List Char} {before : Nat}
    (h : optionalTokensFirst? text = some (before, arguments)) :
    ∃ front rest, text = front ++ rest ∧ front.length = before ∧ arguments = rest.takeWhile (· != ')') ∧
      ∀ c ∈ front, Text.isWhite c = true ∨ c ∈ "optional-tokens(".toList := by
  simp only [optionalTokensFirst?, Option.bind_eq_bind, Option.bind_eq_some_iff] at h
  obtain ⟨behindWord, hword, rest, hrest, h⟩ := h
  split at h
  · cases h
    have split : text = ("optional-tokens".toList ++ behindWord.takeWhile Text.isWhite ++ ['(']) ++ rest := by
      rw [List.append_assoc, ← dropLiteral?_eq_some hrest, List.append_assoc, List.takeWhile_append_dropWhile,
        ← dropLiteral?_eq_some hword]
    have length := congrArg List.length split
    rw [List.length_append] at length
    refine ⟨_, _, split, by omega, rfl, ?_⟩
    intro c hc
    rw [List.mem_append, List.mem_append] at hc
    have word : "optional-tokens(".toList = "optional-tokens".toList ++ ['('] := rfl
    rw [word, List.mem_append]
    rcases hc with (name | white) | paren
    · exact .inr (.inl name)
    · exact .inl (List.mem_takeWhile_imp white)
    · exact .inr (.inr paren)
  · cases h

theorem length_of_quotedFirst? {text literal : List Char} (h : quotedFirst? text = some literal) :
    literal.length ≤ text.length := by
  unfold quotedFirst? at h
  split at h
  · next cs =>
    dsimp only at h
    split at h
    · next closed =>
      cases h
      have := (List.getElem?_eq_some_iff.1 closed).1
      simp only [List.length_cons, List.length_append, List.length_nil]
      omega
    · cases h
  · cases h

theorem importLiteral?_within {line literal : List Char} {index : Nat}
    (h : importLiteral? line = some (index, literal)) : index + literal.length ≤ line.length := by
  obtain ⟨front, rest, rfl, rfl, found, -⟩ := importLiteral?_split h
  rw [List.length_append]
  exact Nat.add_le_add_left (length_of_quotedFirst? found) _

theorem optionalTokensFirst?_within {text arguments : List Char} {before : Nat}
    (h : optionalTokensFirst? text = some (before, arguments)) :
    before + arguments.length ≤ text.length := by
  obtain ⟨front, rest, rfl, rfl, rfl, -⟩ := optionalTokensFirst?_split h
  rw [List.length_append]
  exact Nat.add_le_add_left (List.takeWhile_sublist _).length_le _

/-- A match was found where it says. -/
theorem first_of_mem_matchesFrom {α : Type} {first? : List Char → Option (α × Nat)}
    {skip index : Nat} {text : List Char} {i : Nat} {a : α}
    (h : (i, a) ∈ matchesFrom first? skip index text) :
    ∃ n length, i = index + n ∧ n ≤ text.length ∧ first? (text.drop n) = some (a, length) := by
  fun_induction matchesFrom first? skip index text with
  | case1 => cases h
  | case2 index c cs skip ih =>
    obtain ⟨n, length, rfl, bound, found⟩ := ih h
    exact ⟨n + 1, length, by omega, Nat.succ_le_succ bound, found⟩
  | case3 index c cs b length here ih =>
    rcases List.mem_cons.1 h with same | h
    · cases same
      exact ⟨0, length, rfl, Nat.zero_le _, here⟩
    · obtain ⟨n, length, rfl, bound, found⟩ := ih h
      exact ⟨n + 1, length, by omega, Nat.succ_le_succ bound, found⟩
  | case4 index c cs here ih =>
    obtain ⟨n, length, rfl, bound, found⟩ := ih h
    exact ⟨n + 1, length, by omega, Nat.succ_le_succ bound, found⟩

theorem quotedTexts_within {text literal : List Char} {index : Nat}
    (h : (index, literal) ∈ quotedTexts text) : index + literal.length ≤ text.length := by
  obtain ⟨n, length, rfl, bound, found⟩ := first_of_mem_matchesFrom h
  obtain ⟨literal, hliteral, ⟨⟩⟩ := Option.map_eq_some_iff.1 found
  have := length_of_quotedFirst? hliteral
  rw [List.length_drop] at this
  omega

theorem optionalTokensUses_within {text arguments : List Char} {index before : Nat}
    (h : (index, before, arguments) ∈ optionalTokensUses text) :
    index + before + arguments.length ≤ text.length := by
  obtain ⟨n, length, rfl, bound, found⟩ := first_of_mem_matchesFrom h
  obtain ⟨⟨before, arguments⟩, huse, ⟨⟩⟩ := Option.map_eq_some_iff.1 found
  have := optionalTokensFirst?_within huse
  rw [List.length_drop] at this
  omega

theorem inLine_liesIn {text : List Char} {line : ScannedLine} (scanned : line ∈ scanText text)
    {reference : FileReference} (h : reference ∈ inLine line) : reference.span.LiesIn text := by
  -- A file name that ends within the line lies in the text.
  have place {purpose : FilePurpose} {index : Nat} {literal : List Char}
      (within : index + literal.length ≤ line.content.length) :
      (atIndex purpose line.number index literal).span.LiesIn text :=
    liesIn_of_scanned scanned (Nat.succ_le_succ (Nat.zero_le _)) (by omega)
  rw [inLine, List.mem_append] at h
  rcases h with h | h
  · obtain ⟨⟨index, literal⟩, found, rfl⟩ := List.mem_map.1 h
    exact place (importLiteral?_within (Option.mem_toList.1 found))
  · obtain ⟨⟨index, before, arguments⟩, huse, h⟩ := List.mem_flatMap.1 h
    obtain ⟨⟨inner, literal⟩, quoted, rfl⟩ := List.mem_map.1 h
    have outside := optionalTokensUses_within (List.mem_filter.1 huse).1
    have inside := quotedTexts_within quoted
    exact place (by omega)

end FileReference

/-! ## Findings -/

namespace Node

theorem self_mem_nodes (n : Node) : n ∈ n.nodes := by
  obtain ⟨kind, value, children, span⟩ := n
  rw [nodes]
  exact List.mem_cons_self

theorem child_mem_nodes {n c : Node} (h : c ∈ n.children) : c ∈ n.nodes := by
  obtain ⟨kind, value, children, span⟩ := n
  have among (ns : List Node) (h : c ∈ ns) : c ∈ nodesOf ns := by
    induction ns with
    | nil => cases h
    | cons m ns ih =>
      rw [nodesOf]
      rcases List.mem_cons.1 h with rfl | h
      · exact List.mem_append_left _ (self_mem_nodes c)
      · exact List.mem_append_right _ (ih h)
  rw [nodes]
  exact List.mem_cons_of_mem _ (among children h)

mutual

theorem nodes_subset_of_mem : (n : Node) → {m : Node} → m ∈ n.nodes → m.nodes ⊆ n.nodes
  | ⟨kind, value, children, span⟩, m, h => by
    rw [nodes] at h
    rcases List.mem_cons.1 h with rfl | h
    · exact List.Subset.refl _
    · rw [nodes]
      exact List.Subset.trans (nodesOf_subset_of_mem children h) (List.subset_cons_self _ _)

theorem nodesOf_subset_of_mem : (ns : List Node) → {m : Node} → m ∈ nodesOf ns →
    m.nodes ⊆ nodesOf ns
  | [], _, h => by
    rw [nodesOf] at h
    cases h
  | n :: ns, m, h => by
    rw [nodesOf] at h ⊢
    rcases List.mem_append.1 h with h | h
    · exact List.Subset.trans (nodes_subset_of_mem n h) (List.subset_append_left _ _)
    · exact List.Subset.trans (nodesOf_subset_of_mem ns h) (List.subset_append_right _ _)

end

mutual

theorem referencesBelow_subset : (n : Node) → referencesBelow n ⊆ n.nodes
  | ⟨kind, value, children, span⟩ => by
    rw [referencesBelow, nodes]
    exact List.Subset.trans (referencesAmong_subset kind true children) (List.subset_cons_self _ _)

theorem referencesAmong_subset (parent : Kind) (isFirst : Bool) : (ns : List Node) →
    referencesAmong parent isFirst ns ⊆ nodesOf ns
  | [] => by
    rw [referencesAmong]
    exact List.nil_subset _
  | n :: ns => by
    rw [referencesAmong, nodesOf]
    refine List.append_subset.2 ⟨List.append_subset.2 ⟨?_, ?_⟩, ?_⟩
    · split
      · intro m hm
        rw [List.mem_singleton] at hm
        exact List.mem_append_left _ (hm ▸ self_mem_nodes n)
      · exact List.nil_subset _
    · exact List.Subset.trans (referencesBelow_subset n) (List.subset_append_left _ _)
    · exact List.Subset.trans (referencesAmong_subset parent false ns) (List.subset_append_right _ _)

end

end Node

theorem FileReference.span_of_ofNode? {purpose : FilePurpose} {n : Node} {reference : FileReference}
    (h : ofNode? purpose n = some reference) : reference.span = n.span := by
  obtain ⟨_, -, rfl⟩ := Option.map_eq_some_iff.1 h
  rfl

/-- A file name in a tree is a string in it. -/
theorem FileReference.string_of_inTree {root : Node} {reference : FileReference}
    (h : reference ∈ inTree root) :
    ∃ n ∈ root.nodes, n.kind = .string ∧ ∃ purpose, ofNode? purpose n = some reference := by
  rw [inTree, List.mem_append] at h
  rcases h with h | h
  · obtain ⟨statement, top, h⟩ := List.mem_filterMap.1 h
    obtain ⟨path, hpath, h⟩ := Option.bind_eq_some_iff.1 h
    split at h
    · next kinds =>
      have below := Node.nodes_subset_of_mem root (Node.child_mem_nodes top)
        (Node.child_mem_nodes (List.mem_of_mem_head? hpath))
      exact ⟨path, below, kinds.2, .importPath, h⟩
    · cases h
  · obtain ⟨flag, hflag, h⟩ := List.mem_flatMap.1 h
    obtain ⟨file, hfile, h⟩ := List.mem_filterMap.1 h
    obtain ⟨inFlag, kind⟩ := List.mem_filter.1 hfile
    have below := Node.nodes_subset_of_mem root (List.mem_filter.1 hflag).1 inFlag
    exact ⟨file, below, beq_iff_eq.1 kind, .optionalTokens, h⟩

theorem FileReference.span_of_missing? {place : Surroundings} {reference : FileReference}
    {d : Diagnostic} (h : missing? place reference = some d) : d.span = reference.span := by
  obtain ⟨path, -, h⟩ := Option.bind_eq_some_iff.1 h
  split at h
  · cases h
    rfl
  · cases h

/-- **Every finding is about a place in the text.** -/
theorem finding_liesIn {config : Config} {place : Surroundings} {text : String} {d : Diagnostic}
    (h : d ∈ findings config place (readDocument text).tree text.toList) :
    d.span.LiesIn text.toList := by
  have scanned : ∀ line ∈ scannedLines config text.toList, line ∈ scanText text.toList := by
    intro line hline
    unfold scannedLines at hline
    split at hline
    · exact hline
    · cases hline
  simp only [findings, List.mem_append] at h
  rcases h with ((h | h) | h) | h
  · obtain ⟨n, hn, h⟩ := List.mem_filterMap.1 h
    obtain ⟨name, -, h⟩ := Option.bind_eq_some_iff.1 h
    split at h
    · cases h
    · cases h
      exact node_liesIn (Node.referencesBelow_subset _ hn)
  · obtain ⟨n, hn, rfl⟩ := List.mem_map.1 h
    exact node_liesIn (List.mem_filter.1 (List.mem_filter.1 hn).1).1
  · exact openEnded_liesIn scanned h
  · unfold missingFiles at h
    split at h
    · obtain ⟨reference, hreference, h⟩ := List.mem_filterMap.1 h
      rw [FileReference.span_of_missing? h]
      rcases List.mem_append.1 hreference with inTree | inText
      · obtain ⟨n, hn, -, purpose, h⟩ := FileReference.string_of_inTree inTree
        exact FileReference.span_of_ofNode? h ▸ node_liesIn hn
      · obtain ⟨line, hline, found⟩ := List.mem_flatMap.1 inText
        exact FileReference.inLine_liesIn (scanned line hline) found
    · cases h

namespace Diagnostic

theorem mem_insertByPosition {d e : Diagnostic} {ds : List Diagnostic}
    (h : e ∈ insertByPosition d ds) : e = d ∨ e ∈ ds := by
  induction ds with
  | nil => exact .inl (List.mem_singleton.1 h)
  | cons other rest ih =>
    unfold insertByPosition at h
    split at h
    · exact List.mem_cons.1 h
    · rcases List.mem_cons.1 h with rfl | h
      · exact .inr List.mem_cons_self
      · exact (ih h).imp_right (List.mem_cons_of_mem _)

theorem mem_of_mem_sortByPosition {d : Diagnostic} {ds : List Diagnostic}
    (h : d ∈ sortByPosition ds) : d ∈ ds := by
  induction ds with
  | nil => exact h
  | cons other rest ih =>
    rcases mem_insertByPosition h with rfl | h
    · exact List.mem_cons_self
    · exact List.mem_cons_of_mem _ (ih h)

theorem dropRepeats_sublist (ds : List Diagnostic) : (dropRepeats ds).Sublist ds := by
  induction ds with
  | nil => exact .slnil
  | cons d ds ih => exact (List.filter_sublist.trans ih).cons_cons d

end Diagnostic

/-- What the validator reports it has found. -/
theorem mem_findings_of_mem_validate {config : Config} {place : Surroundings} {root : Node} {text : List Char}
    {d : Diagnostic} (h : d ∈ validate config place root text) : d ∈ findings config place root text := by
  have h := Diagnostic.mem_of_mem_sortByPosition h
  split at h
  · exact (Diagnostic.dropRepeats_sublist _).subset h
  · exact h

theorem diagnostic_liesIn {config : Config} {place : Surroundings} {text : String} {d : Diagnostic}
    (h : d ∈ (analyze config place text).diagnostics) : d.span.LiesIn text.toList := by
  simp only [analyze, diagnose] at h
  rcases List.mem_append.1 (Diagnostic.mem_of_mem_sortByPosition h) with h | h
  · obtain ⟨e, he, rfl⟩ := List.mem_map.1 h
    exact error_liesIn he
  · exact finding_liesIn (mem_findings_of_mem_validate h)

/-! ## All that is reported -/

/-- Every span that reading and validating a text report: those of the nodes, of the errors and of the
diagnostics. -/
def reportedSpans (config : Config) (place : Surroundings) (text : String) : List Span :=
  (readDocument text).tree.nodes.map (·.span) ++ (readDocument text).errors.map (·.span) ++
    (analyze config place text).diagnostics.map (·.span)

theorem Span.LiesIn.stop_le {s : Span} {text : List Char} (h : s.LiesIn text) :
    s.stop ≤ text.length + 1 := by
  obtain ⟨line, found⟩ : ∃ line, (splitLines text)[s.line - 1]? = some line := by
    refine ⟨_, List.getElem?_eq_getElem ?_⟩
    rw [length_splitLines]
    have := h.line_le
    have := h.line_pos
    omega
  have within := h.within line found
  have := (sublist_of_mem_splitLines (List.mem_of_getElem? found)).length_le
  rw [Span.stop]
  omega

/-- **Every reported location exists.** Whatever the configuration and the files around, a span that is
reported about a text is on one of its lines, and its columns are columns of that line. In a text of fewer
than `2 ^ 32 - 2` characters all lines and columns, those that reading comes by and those behind the
spans, fit in thirty-two bits. -/
theorem reported_located (config : Config) (place : Surroundings) (text : String) :
    (∀ s ∈ reportedSpans config place text, s.LiesIn text.toList) ∧
    (text.toList.length < 2 ^ 32 - 2 →
      (∀ s ∈ reportedSpans config place text, s.endColumn = .ok (s.column + s.length)) ∧
      (∀ c, (Cursor.ofChars text.toList).Reaches c →
        c.line ≤ Span.maxColumn ∧ c.column ≤ Span.maxColumn) ∧
      ∀ stop ∈ lineEndColumns text.toList, stop ≤ Span.maxColumn) := by
  have located : ∀ s ∈ reportedSpans config place text, s.LiesIn text.toList := by
    intro s hs
    simp only [reportedSpans, List.mem_append, List.mem_map] at hs
    rcases hs with (⟨n, hn, rfl⟩ | ⟨e, he, rfl⟩) | ⟨d, hd, rfl⟩
    · exact node_liesIn hn
    · exact error_liesIn he
    · exact diagnostic_liesIn hd
  refine ⟨located, ?_⟩
  intro short
  have fits : text.toList.length + 1 ≤ Span.maxColumn := by
    rw [Span.maxColumn]
    omega
  refine ⟨?_, ?_, ?_⟩
  · intro s hs
    exact Span.endColumn_eq (Nat.le_trans (located s hs).stop_le fits)
  · intro c reached
    exact ⟨Nat.le_trans (Cursor.line_le_length reached) fits,
      Nat.le_trans reached.column_le_length fits⟩
  · intro stop hstop
    obtain ⟨line, hline, rfl⟩ := List.mem_map.1 hstop
    have whole := (sublist_of_mem_splitLines hline).length_le
    have content := (List.takeWhile_sublist (· != '\r') (l := line)).length_le
    omega

/-- The text of an import that stops short, of a rule with a sign and a range without bound, and of a
flag with a file. -/
def reportedSample : String :=
  "import \"x\nr = b+ | c\x7b2,\ns = d uses m with optional-tokens(\"y\")"

theorem reported_located_sample :
    reportedSample.toList.length < 2 ^ 32 - 2 ∧
    (∀ s ∈ reportedSpans .standard ⟨fun _ => .missing, some "/"⟩ reportedSample,
      s.LiesIn reportedSample.toList) ∧
    ∀ s ∈ reportedSpans .standard ⟨fun _ => .missing, some "/"⟩ reportedSample,
      s.endColumn = .ok (s.column + s.length) := by
  have short : reportedSample.toList.length < 2 ^ 32 - 2 := by decide
  have located := reported_located .standard ⟨fun _ => .missing, some "/"⟩ reportedSample
  exact ⟨short, located.1, (located.2 short).1⟩

end PatternRules

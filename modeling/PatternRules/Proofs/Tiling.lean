import PatternRules.Analysis.Quantifier
import PatternRules.Proofs.Coordinates
import PatternRules.Proofs.Regions

/-!
Readers that keep to the pieces of the scan. A reader goes `Tiled` from one place to another if it takes each
line in the pieces in which the scan takes it, none of which starts with a sign `+` or `*`. Some lines may be
set `apart`, and on these it may read as it likes.

* `Tiled.trans`: two readings in a row;
* `InStep`: what the scan has found in front of a cursor, by lines that are done and the line at the cursor;
* `InStep.run`: it is known at one place and so at every place that is tiled from there;
* `InStep.calm`: in a text that is read to its end, no line but those set apart has a sign in code;
* `SplitLine.openEnded`: a sign right behind a character it could repeat is found by the scan.
-/

namespace PatternRules

/-- The signs that repeat without a bound. -/
def isSign (c : Char) : Bool := c == '+' || c == '*'

/-- From one place to another in pieces of the scan that start with no sign, or in any way on lines that are set
apart. -/
inductive Tiled (apart : Nat → Prop) : Cursor → Cursor → Prop
  | refl (c : Cursor) : Tiled apart c c
  | piece {c d : Cursor} {ch : Char} (here : c.peek = some ch) (inLine : ch ≠ '\n') (noSign : isSign ch = false)
      (rest : Tiled apart (c.advanceBy (pieceRegions c.lineTail).length) d) : Tiled apart c d
  | newline {c d : Cursor} (here : c.peek = some '\n') (rest : Tiled apart c.advance d) : Tiled apart c d
  | apart {c d : Cursor} {n : Nat} (line : apart c.line) (inLine : '\n' ∉ c.rest.take n)
      (rest : Tiled apart (c.advanceBy n) d) : Tiled apart c d

theorem Tiled.trans {apart : Nat → Prop} {a b c : Cursor} (h : Tiled apart a b) (h' : Tiled apart b c) :
    Tiled apart a c := by
  induction h with
  | refl => exact h'
  | piece here inLine noSign _ ih => exact .piece here inLine noSign (ih h')
  | newline here _ ih => exact .newline here (ih h')
  | apart line inLine _ ih => exact .apart line inLine (ih h')

/-! ## Signs in code -/

/-- No sign among the characters is in code. -/
def Calm (chars : List Char) (regions : List Region) : Prop :=
  ∀ x ∈ chars.zip regions, isSign x.1 = true → x.2 ≠ .code

theorem Calm.append {cs cs' : List Char} {rs rs' : List Region} (h : Calm cs rs) (h' : Calm cs' rs')
    (length : cs.length = rs.length) : Calm (cs ++ cs') (rs ++ rs') := by
  intro x mem
  rw [List.zip_append length, List.mem_append] at mem
  exact mem.elim (h x) (h' x)

/-- Only the first character of a piece can be in code, and a comment takes the rest of the line. -/
theorem pieceRegions_eq_cons (c : Char) (cs : List Char) :
    ∃ first more, pieceRegions (c :: cs) = first :: more ∧ .code ∉ more ∧
      (.comment ∈ first :: more → more.length = cs.length) := by
  rw [pieceRegions]
  split
  · exact ⟨.comment, List.replicate cs.length .comment, rfl, by simp, by simp⟩
  · split
    · exact ⟨.code, (cs.take 1).map fun _ => .escaped, rfl, by cases cs <;> simp, by cases cs <;> simp⟩
    · split
      · exact ⟨.string, List.replicate (lengthToClose '"' cs) .string, rfl, by simp, by simp⟩
      · split
        · split
          · exact ⟨.listMatch, List.replicate (lengthToBrackets cs) .listMatch, rfl, by simp, by simp⟩
          · exact ⟨.charClass, List.replicate (lengthToClose ']' cs) .charClass, rfl, by simp, by simp⟩
        · exact ⟨.code, [], rfl, by simp, by simp⟩

theorem pieceRegions_of_isSign {c : Char} (h : isSign c = true) (cs : List Char) :
    pieceRegions (c :: cs) = [.code] := by
  have sign : c = '+' ∨ c = '*' := by simpa [isSign] using h
  rcases sign with rfl | rfl <;> simp [pieceRegions]

theorem calm_piece {ch : Char} (noSign : isSign ch = false) (cs : List Char) :
    Calm ((ch :: cs).take (pieceRegions (ch :: cs)).length) (pieceRegions (ch :: cs)) := by
  obtain ⟨first, more, piece, noCode, -⟩ := pieceRegions_eq_cons ch cs
  intro x mem sign code
  rw [piece, List.length_cons, List.take_succ_cons, List.zip_cons_cons, List.mem_cons] at mem
  rcases mem with rfl | mem
  · rw [noSign] at sign
    cases sign
  · exact noCode (code ▸ (List.of_mem_zip mem).2)

theorem length_le_of_comment {line : List Char} (h : Region.comment ∈ pieceRegions line) :
    line.length ≤ (pieceRegions line).length := by
  cases line with
  | nil => simp
  | cons c cs =>
    obtain ⟨first, more, piece, -, comment⟩ := pieceRegions_eq_cons c cs
    rw [piece] at h ⊢
    simp [comment h]

/-! ## The line of a cursor -/

/-- The line of a cursor falls into `front`, for which the scan has found `regions`, and what is left of it,
with which the scan goes on by itself. -/
structure SplitLine (text : List Char) (c : Cursor) (front : List Char) (regions : List Region) : Prop where
  found : (splitLines text)[c.line - 1]? = some (front ++ c.lineTail)
  column : c.column = front.length + 1
  regions_eq : lineRegions (front ++ c.lineTail) = regions ++ lineRegions c.lineTail
  length : front.length = regions.length
  calm : Calm front regions
  comment : .comment ∈ regions → c.lineTail = []

namespace SplitLine

variable {text front : List Char} {regions : List Region} {c : Cursor}

/-- At the start of a line nothing has been scanned of it. -/
theorem lineStart (reached : (Cursor.ofChars text).Reaches c) (first : c.column = 1) :
    SplitLine text c [] [] := by
  obtain ⟨front, found, column, -⟩ := reached.line?
  have none : front = [] := List.length_eq_zero_iff.1 (by omega)
  subst none
  exact ⟨found, column, rfl, rfl, by simp [Calm], by simp⟩

/-- One piece more. -/
theorem piece {ch : Char} (h : SplitLine text c front regions) (here : c.peek = some ch) (inLine : ch ≠ '\n')
    (noSign : isSign ch = false) : ∃ front regions,
      SplitLine text (c.advanceBy (pieceRegions c.lineTail).length) front regions := by
  obtain ⟨more, rest⟩ : ∃ more, c.rest = ch :: more := List.head?_eq_some_iff.1 here
  obtain ⟨cs, tail⟩ : ∃ cs, c.lineTail = ch :: cs := by
    simp [Cursor.lineTail, Cursor.run, rest, inLine]
  have fits := length_pieceRegions_le c.lineTail
  have noNewline := c.not_mem_take_of_le fits
  have behind := c.lineTail_advanceBy noNewline
  have line : (c.advanceBy (pieceRegions c.lineTail).length).line = c.line := by
    rw [Cursor.line_advanceBy, List.count_eq_zero.2 noNewline, Nat.add_zero]
  refine ⟨front ++ c.lineTail.take (pieceRegions c.lineTail).length, regions ++ pieceRegions c.lineTail, ?_⟩
  constructor
  · rw [line, behind, List.append_assoc, List.take_append_drop]
    exact h.found
  · rw [Cursor.column_advanceBy _ _ noNewline, c.take_lineTail fits, h.column, List.length_append]
    omega
  · rw [behind, List.append_assoc, List.take_append_drop, h.regions_eq, List.append_assoc, ← lineRegions_eq]
  · rw [List.length_append, List.length_append, h.length, List.length_take_of_le fits]
  · refine h.calm.append ?_ h.length
    rw [tail]
    exact calm_piece noSign cs
  · intro mem
    rw [behind, List.drop_eq_nil_iff]
    rcases List.mem_append.1 mem with before | inPiece
    · simp [h.comment before]
    · exact length_le_of_comment inPiece

end SplitLine

/-! ## What the scan has found so far -/

/-- What the scan has found in front of a cursor. The lines that are done have no sign in code, if they are not
set apart. The line of the cursor is split there, if it is not set apart. -/
structure InStep (apart : Nat → Prop) (text : List Char) (c : Cursor) : Prop where
  reached : (Cursor.ofChars text).Reaches c
  above : ∀ n line, (splitLines text)[n]? = some line → n + 1 < c.line →
    apart (n + 1) ∨ Calm line (lineRegions line)
  here : apart c.line ∨ ∃ front regions, SplitLine text c front regions

namespace InStep

variable {apart : Nat → Prop} {text line : List Char} {c d : Cursor}

theorem start (apart : Nat → Prop) (text : List Char) : InStep apart text (Cursor.ofChars text) := by
  refine ⟨.refl _, ?_, .inr ⟨[], [], .lineStart (.refl _) rfl⟩⟩
  intro n line _ before
  simp [Cursor.ofChars] at before

/-- The line of a cursor at its end is done. -/
theorem done (h : InStep apart text c) (lineEnd : c.lineTail = [])
    (found : (splitLines text)[c.line - 1]? = some line) : apart c.line ∨ Calm line (lineRegions line) := by
  rcases h.here with isApart | ⟨front, regions, split⟩
  · exact .inl isApart
  · have same := split.found
    have regions := split.regions_eq
    rw [lineEnd, List.append_nil] at same regions
    rw [found, Option.some.injEq] at same
    rw [same, regions]
    exact .inr (by simpa [lineRegions] using split.calm)

/-- One step on the line. -/
theorem onLine {n : Nat} (h : InStep apart text c) (inLine : '\n' ∉ c.rest.take n)
    (here : apart c.line ∨ ∃ front regions, SplitLine text (c.advanceBy n) front regions) :
    InStep apart text (c.advanceBy n) := by
  have line : (c.advanceBy n).line = c.line := by
    rw [Cursor.line_advanceBy, List.count_eq_zero.2 inLine, Nat.add_zero]
  refine ⟨h.reached.trans (Cursor.reaches_advanceBy n c), ?_, ?_⟩
  · rw [line]
    exact h.above
  · rw [line]
    exact here

theorem piece {ch : Char} (h : InStep apart text c) (here : c.peek = some ch) (inLine : ch ≠ '\n')
    (noSign : isSign ch = false) : InStep apart text (c.advanceBy (pieceRegions c.lineTail).length) := by
  refine h.onLine (c.not_mem_take_of_le (length_pieceRegions_le _)) ?_
  rcases h.here with isApart | ⟨front, regions, split⟩
  · exact .inl isApart
  · exact .inr (split.piece here inLine noSign)

theorem newline (h : InStep apart text c) (here : c.peek = some '\n') : InStep apart text c.advance := by
  obtain ⟨more, rest⟩ : ∃ more, c.rest = '\n' :: more := List.head?_eq_some_iff.1 here
  have next := Cursor.advance_newline rest
  have reached := h.reached.trans (Cursor.reaches_advance c)
  refine ⟨reached, ?_, .inr ⟨[], [], .lineStart reached (by rw [next])⟩⟩
  intro n line found before
  rw [next] at before
  by_cases last : n + 1 = c.line
  · rw [last]
    have lineEnd : c.lineTail = [] := by simp [Cursor.lineTail, Cursor.run, rest]
    refine h.done lineEnd ?_
    rw [← last, Nat.add_sub_cancel]
    exact found
  · exact h.above n line found (by dsimp only at before; omega)

/-- **What the scan has found is known all along a tiled reading.** -/
theorem run (h : InStep apart text c) (tiled : Tiled apart c d) : InStep apart text d := by
  induction tiled with
  | refl => exact h
  | piece here inLine noSign _ ih => exact ih (h.piece here inLine noSign)
  | newline here _ ih => exact ih (h.newline here)
  | apart line inLine _ ih => exact ih (h.onLine inLine (.inl line))

/-- At the end of the text every line is done. -/
theorem calm (h : InStep apart text c) (atEnd : c.rest = []) {n : Nat}
    (found : (splitLines text)[n]? = some line) : apart (n + 1) ∨ Calm line (lineRegions line) := by
  have last := (Cursor.at_end_of_text h.reached atEnd).2
  have bound := (List.getElem?_eq_some_iff.1 found).1
  rw [length_splitLines] at bound
  by_cases here : n + 1 = c.line
  · rw [here]
    have lineEnd : c.lineTail = [] := by simp [Cursor.lineTail, Cursor.run, atEnd]
    refine h.done lineEnd ?_
    rw [← here, Nat.add_sub_cancel]
    exact found
  · exact h.above n line found (by omega)

end InStep

/-! ## Signs that are reported -/

/-- The regions of the content of a line are those of the line. -/
theorem lineRegions_dropReturns (line : List Char) :
    lineRegions (dropReturns line) = (lineRegions line).take (dropReturns line).length := by
  obtain ⟨back, split, returns⟩ := exists_returns line
  have regions := lineRegions_append_returns returns (dropReturns line)
  rwa [split] at regions

theorem mem_zip_of_mem_placeChars {column offset : Nat} {cs : List Char} {rs : List Region}
    {entry : ScannedChar} (h : entry ∈ placeChars column offset cs rs) : (entry.char, entry.region) ∈ cs.zip rs := by
  fun_induction placeChars column offset cs rs with
  | case1 column offset c cs r rs ih =>
    rcases List.mem_cons.1 h with rfl | h
    · simp
    · simp [ih h]
  | case2 => simp at h

/-- A line with a sign that is reported has a sign in code. -/
theorem not_calm_of_openEnded {text : List Char} {d : Diagnostic}
    (h : d ∈ openEndedQuantifiers (scanText text)) :
    ∃ n line, (splitLines text)[n]? = some line ∧ d.span.line = n + 1 ∧ ¬ Calm line (lineRegions line) := by
  obtain ⟨scanned, hscanned, h⟩ := List.mem_flatMap.1 h
  obtain ⟨⟨before, sign⟩, found, rfl⟩ := List.mem_map.1 h
  obtain ⟨n, at'⟩ := List.mem_iff_getElem?.1 hscanned
  obtain ⟨line, hline, rfl⟩ := Option.map_eq_some_iff.1 (getElem?_scanText text n ▸ at')
  refine ⟨n, line, hline, rfl, ?_⟩
  intro calm
  obtain ⟨pair, openEnded⟩ := List.mem_filter.1 found
  have entry := mem_zip_of_mem_placeChars (List.mem_of_mem_tail (List.of_mem_zip pair).2)
  have inLine : (sign.char, sign.region) ∈ line.zip (lineRegions line) := by
    obtain ⟨back, split, -⟩ := exists_returns line
    have length : (dropReturns line).length = ((lineRegions line).take (dropReturns line).length).length := by
      rw [List.length_take, length_lineRegions]
      have := length_dropReturns_le line
      omega
    rw [lineRegions_dropReturns] at entry
    have all := List.mem_append_left (back.zip ((lineRegions line).drop (dropReturns line).length)) entry
    rwa [← List.zip_append length, List.take_append_drop, split] at all
  simp only [isOpenEnded, Bool.and_eq_true, beq_iff_eq] at openEnded
  exact calm _ inLine openEnded.1.1.2 openEnded.1.1.1

theorem mem_openEndedInLine (line : ScannedLine) {k : Nat} {before sign : ScannedChar}
    (hbefore : line.chars[k]? = some before) (hsign : line.chars[k + 1]? = some sign)
    (h : isOpenEnded before sign = true) : openEnded line.number sign ∈ openEndedInLine line := by
  have pair : (before, sign) ∈ line.chars.zip line.chars.tail := by
    refine List.mem_of_getElem? (i := k) (List.getElem?_zip_eq_some.2 ⟨hbefore, ?_⟩)
    rwa [List.getElem?_tail]
  exact List.mem_map.2 ⟨_, List.mem_filter.2 ⟨pair, h⟩, rfl⟩

/-- **A sign in code right behind a character it could repeat is reported.** -/
theorem SplitLine.openEnded {text front : List Char} {regions : List Region} {c : Cursor} {before sign : Char}
    (reached : (Cursor.ofChars text).Reaches c) (h : SplitLine text c front regions)
    (last : front.getLast? = some before) (repeatable : isRepeatable before = true)
    (here : c.peek = some sign) (isSign : isSign sign = true) :
    ∃ d ∈ openEndedQuantifiers (scanText text),
      d.code = .openEndedQuantifier ∧ d.span = ⟨c.line, c.column, 1⟩ := by
  obtain ⟨more, rest⟩ : ∃ more, c.rest = sign :: more := List.head?_eq_some_iff.1 here
  have noEnd : sign ≠ '\n' ∧ sign ≠ '\r' := by
    constructor <;> (rintro rfl; simp [PatternRules.isSign] at isSign)
  obtain ⟨cs, tail⟩ : ∃ cs, c.lineTail = sign :: cs := by
    simp [Cursor.lineTail, Cursor.run, rest, noEnd.1]
  obtain ⟨back, content⟩ := exists_content front here ⟨sign, by simp [tail], noEnd.2⟩
  obtain ⟨init, rfl⟩ : ∃ init, front = init ++ [before] := List.getLast?_eq_some_iff.1 last
  obtain ⟨region, hregion⟩ : ∃ region, regions[init.length]? = some region := by
    refine ⟨_, List.getElem?_eq_getElem ?_⟩
    rw [← h.length]
    simp
  have length : regions.length = init.length + 1 := by simp [← h.length]
  have noComment : region ≠ .comment := by
    rintro rfl
    have none := h.comment (List.mem_of_getElem? hregion)
    simp [tail] at none
  -- The sign is scanned as a piece of its own.
  have scanned : lineRegions (init ++ [before] ++ sign :: back) =
      (regions ++ .code :: lineRegions cs).take (init ++ [before] ++ sign :: back).length := by
    have piece := lineRegions_eq (sign :: cs)
    rw [pieceRegions_of_isSign isSign] at piece
    rw [← content, lineRegions_dropReturns, h.regions_eq, tail, piece]
    rfl
  have atBefore : (lineRegions (init ++ [before] ++ sign :: back))[init.length]? = some region := by
    rw [scanned, List.getElem?_take_of_lt (by simp), List.getElem?_append_left (by omega)]
    exact hregion
  have atSign : (lineRegions (init ++ [before] ++ sign :: back))[init.length + 1]? = some .code := by
    rw [scanned, List.getElem?_take_of_lt (by simp), List.getElem?_append_right (by omega), length]
    simp
  have charBefore : (init ++ [before] ++ sign :: back)[init.length]? = some before := by simp
  have charSign : (init ++ [before] ++ sign :: back)[init.length + 1]? = some sign := by
    rw [List.getElem?_append_right (by simp)]
    simp
  have reported := mem_openEndedInLine ⟨c.line, classifyLine (init ++ [before] ++ sign :: back)⟩
    (getElem?_placeChars 1 0 charBefore atBefore) (getElem?_placeChars 1 0 charSign atSign) (by
      simp only [isOpenEnded, Bool.and_eq_true, repeatable, bne_iff_ne, beq_self_eq_true, and_true, true_and]
      exact ⟨isSign, noComment⟩)
  obtain ⟨-, -, -, positive⟩ := reached.line?
  refine ⟨_, List.mem_flatMap.2 ⟨_, List.mem_of_getElem? (i := c.line - 1) ?_, reported⟩, rfl, ?_⟩
  · rw [getElem?_scanText, h.found, Option.map_some, content, Nat.sub_add_cancel positive]
  · have column : c.column = 1 + (init.length + 1) := by
      have := h.column
      simp at this
      omega
    simp [PatternRules.openEnded, Diagnostic.suggest, Diagnostic.error, column]

end PatternRules

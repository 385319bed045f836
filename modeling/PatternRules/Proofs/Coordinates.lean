import PatternRules.Proofs.Located

/-!
Three readers of one text count lines and columns, each in its own way: the cursor as it reads on, the table
of lines by bytes, and the scan along each line. They agree.

* `charsBefore?_byteLength`: counting bytes and counting characters come to the same place;
* `dropReturns_append`: carriage returns are only left out at the end of a line;
* `ScannedLine.regionAt?_byteLength`: the region at a byte offset is that of the character there;
* `Cursor.exists_at`: each place of each line is one at which a cursor can stand, and
  `Cursor.position_injective`: only once;
* `coordinates_agree`: the entries of the scan are what the cursor stands in front of, character by character.
-/

namespace PatternRules

/-! ## Bytes -/

theorem byteLength_append (front back : List Char) :
    byteLength (front ++ back) = byteLength front + byteLength back := by
  induction front with
  | nil => simp [byteLength]
  | cons c front ih => simp [byteLength, ih, Nat.add_assoc]

/-- The bytes of a front part are the bytes of its characters. -/
theorem charsBefore?_byteLength (front back : List Char) :
    charsBefore? (front ++ back) (byteLength front) = some front.length := by
  induction front with
  | nil => simp [byteLength, charsBefore?]
  | cons c front ih =>
    have positive := c.utf8Size_pos
    obtain ⟨size, hsize⟩ : ∃ size, byteLength (c :: front) = size + 1 :=
      ⟨byteLength (c :: front) - 1, by rw [byteLength]; omega⟩
    have enough : c.utf8Size ≤ size + 1 := by rw [← hsize, byteLength]; omega
    have left : size + 1 - c.utf8Size = byteLength front := by rw [← hsize, byteLength]; omega
    simp [hsize, charsBefore?, enough, left, ih]

/-- The span of one character of a line, given by its bytes. -/
theorem spanForBytes?_char {text front back : List Char} {number : Nat} {c : Char}
    (h : line? text number = some (front ++ c :: back)) :
    spanForBytes? text number (byteLength front) (byteLength front + c.utf8Size) =
      some ⟨number, front.length + 1, 1⟩ := by
  have size : byteLength (front ++ c :: back) = byteLength front + (c.utf8Size + byteLength back) := by
    rw [byteLength_append, byteLength]
  have before := charsBefore?_byteLength front (c :: back)
  have upTo := charsBefore?_byteLength (front ++ [c]) back
  have behind : byteLength (front ++ [c]) = byteLength front + c.utf8Size := by
    rw [byteLength_append, byteLength, byteLength, Nat.add_zero]
  rw [List.append_assoc, List.singleton_append, List.length_append, List.length_singleton, behind] at upTo
  simp [spanForBytes?, h, size, before, upTo]

/-! ## The ends of lines -/

theorem prefix_dropReturns (line : List Char) : dropReturns line <+: line := by
  have suffix := List.dropWhile_suffix (· == '\r') (l := line.reverse)
  simpa [dropReturns] using List.reverse_prefix.2 suffix

theorem dropReturns_eq_nil_iff {line : List Char} : dropReturns line = [] ↔ ∀ c ∈ line, c = '\r' := by
  simp [dropReturns, List.dropWhile_eq_nil_iff]

/-- A line that ends with nothing but carriage returns loses them. -/
theorem dropReturns_append_returns (front : List Char) {back : List Char} (h : ∀ c ∈ back, c = '\r') :
    dropReturns (front ++ back) = dropReturns front := by
  have all : ∀ c ∈ back.reverse, (c == '\r') = true := by
    intro c hc
    simpa using h c (List.mem_reverse.1 hc)
  rw [dropReturns, List.reverse_append, List.dropWhile_append_of_pos all, dropReturns]

/-- What a line loses are carriage returns. -/
theorem exists_returns (line : List Char) :
    ∃ back, dropReturns line ++ back = line ∧ ∀ c ∈ back, c = '\r' := by
  refine ⟨(line.reverse.takeWhile (· == '\r')).reverse, ?_, ?_⟩
  · rw [dropReturns, ← List.reverse_append, List.takeWhile_append_dropWhile, List.reverse_reverse]
  · intro c mem
    simpa using List.mem_takeWhile_imp (List.mem_reverse.1 mem)

/-- In front of anything else nothing is lost. -/
theorem dropReturns_append (front : List Char) {back : List Char} (h : ∃ c ∈ back, c ≠ '\r') :
    dropReturns (front ++ back) = front ++ dropReturns back := by
  have some : dropReturns back ≠ [] := by simpa [dropReturns_eq_nil_iff] using h
  have kept : (back.reverse.dropWhile (· == '\r')).isEmpty = false := by
    simpa [dropReturns] using some
  rw [dropReturns, List.reverse_append, List.dropWhile_append, kept]
  simp [dropReturns]

theorem exists_of_lt_length_dropReturns {line : List Char} {k : Nat} (h : k < (dropReturns line).length) :
    ∃ c ∈ line.drop k, c ≠ '\r' := by
  by_contra none
  have all : ∀ c ∈ line.drop k, c = '\r' := by
    intro c hc
    by_contra other
    exact none ⟨c, hc, other⟩
  have shorter := length_dropReturns_le (line.take k)
  rw [← dropReturns_append_returns (line.take k) all, List.take_append_drop, List.length_take] at shorter
  omega

/-! ## The entries of the scan -/

/-- The lines of the scan are the contents of the lines of the text. -/
theorem getElem?_scanText (text : List Char) (n : Nat) : (scanText text)[n]? =
    (splitLines text)[n]?.map fun line => ⟨n + 1, classifyLine (dropReturns line)⟩ := by
  cases h : (splitLines text)[n]? <;> simp [scanText, numberedLines, lineContents, List.getElem?_zipIdx, h]

theorem getElem?_placeChars (column offset : Nat) {k : Nat} {cs : List Char} {regions : List Region}
    {c : Char} {region : Region} (hc : cs[k]? = some c) (hregion : regions[k]? = some region) :
    (placeChars column offset cs regions)[k]? =
      some ⟨c, column + k, offset + byteLength (cs.take k), region⟩ := by
  induction k generalizing column offset cs regions with
  | zero =>
    cases cs <;> cases regions <;> simp_all [placeChars, byteLength]
  | succ k ih =>
    cases cs with
    | nil => simp at hc
    | cons d cs =>
      cases regions with
      | nil => simp at hregion
      | cons r regions =>
        rw [placeChars, List.getElem?_cons_succ, ih _ _ (by simpa using hc) (by simpa using hregion)]
        simp [byteLength]
        omega

/-- The entry at a byte offset is the entry behind as many characters as that many bytes make up. -/
theorem find?_offset_placeChars (column offset : Nat) (cs : List Char) (regions : List Region) (k : Nat) :
    (placeChars column offset cs regions).find? (·.offset == offset + byteLength (cs.take k)) =
      (placeChars column offset cs regions)[k]? := by
  induction cs generalizing column offset regions k with
  | nil => rfl
  | cons c cs ih =>
    cases regions with
    | nil => rfl
    | cons region regions =>
      cases k with
      | zero => simp [placeChars, byteLength]
      | succ k =>
        have positive := c.utf8Size_pos
        have behind : offset + byteLength ((c :: cs).take (k + 1)) =
            offset + c.utf8Size + byteLength (cs.take k) := by
          rw [List.take_succ_cons, byteLength, Nat.add_assoc]
        have other : (offset == offset + c.utf8Size + byteLength (cs.take k)) = false := by
          rw [beq_eq_false_iff_ne]
          omega
        rw [placeChars, List.getElem?_cons_succ, behind, List.find?_cons, other]
        exact ih _ _ regions k

/-- **Asked by bytes or by characters, the scan of a line tells the same region.** -/
theorem ScannedLine.regionAt?_byteLength {line : ScannedLine} {content : List Char}
    (chars : line.chars = classifyLine content) (k : Nat) :
    line.regionAt? (byteLength (content.take k)) = line.chars[k]?.map (·.region) := by
  have found := find?_offset_placeChars 1 0 content (lineRegions content) k
  rw [Nat.zero_add] at found
  rw [regionAt?, chars, classifyLine, found]

/-! ## Where a cursor can stand -/

namespace Cursor

variable {text : List Char} {c : Cursor}

theorem position_lt_advance (h : c.rest ≠ []) : c.position < c.advance.position := by
  unfold advance
  split
  · contradiction
  · split
    · exact Position.lt_iff.2 (.inl (Nat.lt_succ_self _))
    · exact Position.lt_iff.2 (.inr ⟨rfl, Nat.lt_succ_self _⟩)

/-- A cursor does not come to the same place twice. -/
theorem position_lt_advanceBy {i j : Nat} (h : i < c.rest.length) (lt : i < j) :
    (c.advanceBy i).position < (c.advanceBy j).position := by
  obtain ⟨further, rfl⟩ : ∃ further, j = i + (1 + further) := ⟨j - i - 1, by omega⟩
  have more : (c.advanceBy i).rest ≠ [] := by simpa using h
  rw [advanceBy_add, advanceBy_add]
  exact Position.lt_of_lt_of_le (position_lt_advance more) (position_le_advanceBy _ _)

theorem position_injective {i j : Nat} (hi : i < c.rest.length) (hj : j < c.rest.length)
    (same : (c.advanceBy i).position = (c.advanceBy j).position) : i = j := by
  rcases Nat.lt_trichotomy i j with lt | eq | lt
  · exact absurd same (Position.ne_of_lt (position_lt_advanceBy hi lt))
  · exact eq
  · exact absurd same.symm (Position.ne_of_lt (position_lt_advanceBy hj lt))

/-- Every line is reached. -/
theorem exists_at_line {n : Nat} (h : n < lineCount text) :
    ∃ c, (ofChars text).Reaches c ∧ c.position = ⟨n + 1, 1⟩ := by
  induction n with
  | zero => exact ⟨_, .refl _, rfl⟩
  | succ n ih =>
    obtain ⟨c, reached, place⟩ := ih (by omega)
    have line : c.line = n + 1 := congrArg Position.line place
    have toEnd := reached.trans (reaches_skipWhile c (· != '\n'))
    have line : (c.skipWhile (· != '\n')).line = n + 1 := by
      have noNewline : '\n' ∉ c.rest.take (c.run (· != '\n')).length :=
        Parse.not_mem_take_of_run rfl c.rest
      rw [skipWhile, line_advanceBy, List.count_eq_zero.2 noNewline]
      exact congrArg Position.line place
    -- The line ends with a newline, as there is a next one.
    cases left : (c.skipWhile (· != '\n')).rest with
    | nil =>
      have last := (at_end_of_text toEnd left).2
      rw [lineCount, length_splitLines] at h
      omega
    | cons ch further =>
      have newline : ch = '\n' := by
        have stop := List.head?_dropWhile_not (· != '\n') c.rest
        rw [← rest_skipWhile, left] at stop
        simpa using stop
      refine ⟨_, toEnd.trans (reaches_advance _), ?_⟩
      rw [advance_newline (newline ▸ left), position, line]

/-- Every place of every line is reached. -/
theorem exists_at {n k : Nat} {line : List Char} (h : (splitLines text)[n]? = some line)
    (le : k ≤ line.length) :
    ∃ c, (ofChars text).Reaches c ∧ c.position = ⟨n + 1, k + 1⟩ ∧ c.lineTail = line.drop k := by
  obtain ⟨c, reached, place⟩ := exists_at_line (List.getElem?_eq_some_iff.1 h).1
  have number : c.line = n + 1 := congrArg Position.line place
  have first : c.column = 1 := congrArg Position.column place
  have whole : c.lineTail = line := by
    obtain ⟨front, found, column, -⟩ := reached.line?
    have none : front = [] := List.length_eq_zero_iff.1 (by omega)
    simpa [number, h, none] using found.symm
  have fits : k ≤ c.lineTail.length := whole ▸ le
  have noNewline := c.not_mem_take_of_le fits
  refine ⟨c.advanceBy k, reached.trans (reaches_advanceBy k c), ?_, ?_⟩
  · have same : (c.advanceBy k).line = n + 1 := by
      rw [line_advanceBy, List.count_eq_zero.2 noNewline, number, Nat.add_zero]
    have stop : (c.advanceBy k).column = k + 1 := by
      rw [column_advanceBy k c noNewline, c.take_lineTail fits, List.length_take, first]
      omega
    rw [position, same, stop]
  · rw [c.lineTail_advanceBy noNewline, whole]

end Cursor

/-! ## Agreement -/

/-- The character at an index belongs to the content of its line: it is no newline, and none of the carriage
returns at the end of the line. -/
def IsLineContent (text : List Char) (i : Nat) : Prop :=
  ∃ c ∈ (text.drop i).takeWhile (· != '\n'), c ≠ '\r'

/-- An entry of the scan is about the character that a cursor stands in front of: it is found at the line and
the column of the cursor, and the bytes of the character have the span of that one character. -/
structure EntryAt (text : List Char) (c : Cursor) (entry : ScannedChar) : Prop where
  found : ∃ line, (scanText text)[c.line - 1]? = some line ∧ line.number = c.line ∧
    line.chars[c.column - 1]? = some entry
  char : c.peek = some entry.char
  column : entry.column = c.column
  span : spanForBytes? text c.line entry.offset (entry.offset + entry.char.utf8Size) =
    some ⟨c.line, c.column, 1⟩

/-- The content of a line goes on behind what was read of it with the next character. -/
theorem exists_content {c : Cursor} {ch : Char} (front : List Char) (here : c.peek = some ch)
    (content : ∃ ch ∈ c.lineTail, ch ≠ '\r') :
    ∃ back, dropReturns (front ++ c.lineTail) = front ++ ch :: back := by
  have some : dropReturns c.lineTail ≠ [] := by simpa [dropReturns_eq_nil_iff] using content
  obtain ⟨first, back, kept⟩ := List.exists_cons_of_ne_nil some
  obtain ⟨further, split⟩ := (prefix_dropReturns c.lineTail).trans (List.takeWhile_prefix _)
  have same : first = ch := by simpa [Cursor.peek, ← split, kept] using here
  exact ⟨back, by rw [dropReturns_append front content, kept, same]⟩

theorem exists_entryAt {text : List Char} {c : Cursor} (reached : (Cursor.ofChars text).Reaches c)
    (content : ∃ ch ∈ c.lineTail, ch ≠ '\r') : ∃ entry, EntryAt text c entry := by
  obtain ⟨front, found, column, positive⟩ := reached.line?
  have number : c.line - 1 + 1 = c.line := Nat.sub_add_cancel positive
  obtain ⟨ch, peek⟩ : ∃ ch, c.peek = some ch := by
    obtain ⟨x, mem, -⟩ := content
    have some := List.ne_nil_of_mem ((List.takeWhile_sublist _).subset mem)
    exact ⟨_, List.head?_eq_some_head some⟩
  obtain ⟨back, line⟩ := exists_content front peek content
  have line? : line? text c.line = some (front ++ ch :: back) := by
    rw [← number, PatternRules.line?, lineContents, List.getElem?_map, found, Option.map_some, line]
  obtain ⟨region, hregion⟩ : ∃ region, (lineRegions (front ++ ch :: back))[front.length]? = some region := by
    refine ⟨_, List.getElem?_eq_getElem ?_⟩
    rw [length_lineRegions]
    simp
  have there : (front ++ ch :: back)[front.length]? = some ch := by simp
  have entry := getElem?_placeChars 1 0 there hregion
  rw [List.take_left, Nat.zero_add] at entry
  refine ⟨⟨ch, 1 + front.length, byteLength front, region⟩, ?_, peek, by dsimp only; omega, ?_⟩
  · refine ⟨⟨c.line, classifyLine (front ++ ch :: back)⟩, ?_, rfl, ?_⟩
    · rw [getElem?_scanText, found, Option.map_some, line, number]
    · rw [column, Nat.add_sub_cancel]
      exact entry
  · rw [column]
    exact spanForBytes?_char line?

namespace IsLineContent

variable {text : List Char} {i : Nat}

theorem lt_length (h : IsLineContent text i) : i < text.length := by
  obtain ⟨ch, mem, -⟩ := h
  have some := List.ne_nil_of_mem ((List.takeWhile_sublist _).subset mem)
  simpa using some

theorem exists_entryAt (h : IsLineContent text i) :
    ∃ entry, EntryAt text ((Cursor.ofChars text).advanceBy i) entry := by
  refine PatternRules.exists_entryAt ⟨i, rfl⟩ ?_
  simpa [IsLineContent, Cursor.lineTail, Cursor.run, Cursor.ofChars] using h

end IsLineContent

/-- What is found at the place of a cursor is the entry there. -/
theorem EntryAt.eq {text : List Char} {c : Cursor} {entry other : ScannedChar} {n k : Nat}
    {line : ScannedLine} (h : EntryAt text c entry) (place : c.position = ⟨n + 1, k + 1⟩)
    (found : (scanText text)[n]? = some line) (there : line.chars[k]? = some other) : entry = other := by
  obtain ⟨scanned, hscanned, -, hentry⟩ := h.found
  have hline : c.line = n + 1 := congrArg Position.line place
  have hcolumn : c.column = k + 1 := congrArg Position.column place
  rw [hline, Nat.add_sub_cancel, found, Option.some.injEq] at hscanned
  rw [hcolumn, Nat.add_sub_cancel, ← hscanned, there, Option.some.injEq] at hentry
  exact hentry.symm

/-- Each entry of the scan comes from one index of the text. -/
theorem existsUnique_index {text : List Char} {n k : Nat} {line : ScannedLine} {entry : ScannedChar}
    (hline : (scanText text)[n]? = some line) (hentry : line.chars[k]? = some entry) :
    ∃! i, IsLineContent text i ∧ ((Cursor.ofChars text).advanceBy i).position = ⟨n + 1, k + 1⟩ ∧
      EntryAt text ((Cursor.ofChars text).advanceBy i) entry := by
  obtain ⟨raw, hraw, rfl⟩ := Option.map_eq_some_iff.1 (getElem?_scanText text n ▸ hline)
  have within : k < (dropReturns raw).length := by
    have content := congrArg List.length (content_classifyLine (dropReturns raw) (n + 1))
    rw [ScannedLine.content, List.length_map] at content
    rw [← content]
    exact (List.getElem?_eq_some_iff.1 hentry).1
  have shorter := length_dropReturns_le raw
  obtain ⟨c, ⟨i, rfl⟩, place, tail⟩ := Cursor.exists_at hraw (k := k) (by omega)
  have content : IsLineContent text i := by
    have some := exists_of_lt_length_dropReturns within
    rw [← tail] at some
    simpa [IsLineContent, Cursor.lineTail, Cursor.run, Cursor.ofChars] using some
  obtain ⟨other, found⟩ := content.exists_entryAt
  have same : other = entry := found.eq place hline hentry
  refine ⟨i, ⟨content, place, same ▸ found⟩, ?_⟩
  rintro j ⟨content', place', -⟩
  exact Cursor.position_injective content'.lt_length content.lt_length (place'.trans place.symm)

/-- **Cursor, table of lines and scan use the same coordinates.** In front of each character of the content of a
line the cursor stands at the line and the column of an entry of the scan for that character, and the bytes of
the character have the span of one character there. Each entry comes from exactly one index of the text. At the
end of the text the cursor is on the last line. Lines and columns are at most one larger than the text is
long. -/
theorem coordinates_agree (text : List Char) :
    (∀ i, IsLineContent text i → ∃ entry, EntryAt text ((Cursor.ofChars text).advanceBy i) entry) ∧
    (∀ n line k entry, (scanText text)[n]? = some line → line.chars[k]? = some entry →
      ∃! i, IsLineContent text i ∧ ((Cursor.ofChars text).advanceBy i).position = ⟨n + 1, k + 1⟩ ∧
        EntryAt text ((Cursor.ofChars text).advanceBy i) entry) ∧
    (∀ c, (Cursor.ofChars text).Reaches c → c.atEnd = true → c.line = lineCount text) ∧
    (∀ c, (Cursor.ofChars text).Reaches c → c.line ≤ text.length + 1 ∧ c.column ≤ text.length + 1) := by
  refine ⟨fun i content => content.exists_entryAt, fun n line k entry => existsUnique_index, ?_, ?_⟩
  · intro c reached atEnd
    rw [lineCount, length_splitLines]
    exact (Cursor.at_end_of_text reached (List.isEmpty_iff.1 atEnd)).2
  · intro c reached
    exact ⟨Cursor.line_le_length reached, reached.column_le_length⟩

end PatternRules

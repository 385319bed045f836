import PatternRules.Source.Cursor

/-!
What moving a cursor does to it. A cursor is `Valid` if it stands within its text and what is left
to read is the rest of the text; every operation keeps that, also a `reset` to a mark of another
text.

* `rest_advanceBy`, `pos_advanceBy`: reading `n` characters drops them and counts them;
* `Valid.advanceBy`, `Valid.reset`: validity is kept;
* `textSince_eq_sliceFrom`: both ways to cut out the text read agree.
-/

namespace PatternRules.Cursor

/-! ## One step -/

@[simp]
theorem source_advance (c : Cursor) : c.advance.source = c.source := by
  unfold advance
  split
  · rfl
  · split <;> rfl

@[simp]
theorem rest_advance (c : Cursor) : c.advance.rest = c.rest.tail := by
  unfold advance
  split
  · next h => simp [h]
  · next h => split <;> simp [h]

theorem pos_advance (c : Cursor) : c.advance.pos = c.pos + min 1 c.rest.length := by
  unfold advance
  split
  · next h => simp [h]
  · next h => split <;> simp [h]

/-- At the end of the text nothing more is read. -/
theorem advance_of_rest_nil {c : Cursor} (h : c.rest = []) : c.advance = c := by
  unfold advance
  rw [h]

/-! ## Many steps -/

@[simp]
theorem source_advanceBy (n : Nat) (c : Cursor) : (c.advanceBy n).source = c.source := by
  induction n generalizing c with
  | zero => rfl
  | succ n ih => rw [advanceBy, ih, source_advance]

@[simp]
theorem rest_advanceBy (n : Nat) (c : Cursor) : (c.advanceBy n).rest = c.rest.drop n := by
  induction n generalizing c with
  | zero => simp [advanceBy]
  | succ n ih => rw [advanceBy, ih, rest_advance, List.drop_tail]

theorem pos_advanceBy (n : Nat) (c : Cursor) :
    (c.advanceBy n).pos = c.pos + min n c.rest.length := by
  induction n generalizing c with
  | zero => simp [advanceBy]
  | succ n ih =>
    rw [advanceBy, ih, pos_advance, rest_advance, List.length_tail]
    omega

theorem advanceBy_of_rest_nil {c : Cursor} (h : c.rest = []) (n : Nat) : c.advanceBy n = c := by
  induction n with
  | zero => rfl
  | succ n ih => rw [advanceBy, advance_of_rest_nil h, ih]

/-- Reading in two goes is reading in one. -/
theorem advanceBy_add (m n : Nat) (c : Cursor) :
    c.advanceBy (m + n) = (c.advanceBy m).advanceBy n := by
  induction m generalizing c with
  | zero => simp [advanceBy]
  | succ m ih => rw [Nat.succ_add, advanceBy, ih, advanceBy]

theorem rest_skipWhile (c : Cursor) (p : Char → Bool) : (c.skipWhile p).rest = c.rest.dropWhile p := by
  have whole := List.takeWhile_append_dropWhile (p := p) (l := c.rest)
  rw [skipWhile, rest_advanceBy, run]
  exact (congrArg (List.drop _) whole.symm).trans List.drop_left

/-! ## Validity -/

/-- The cursor stands within its text, and what is left to read is the rest of the text. -/
structure Valid (c : Cursor) : Prop where
  pos_le : c.pos ≤ c.source.chars.length
  rest_eq : c.rest = c.source.chars.drop c.pos

theorem valid_ofChars (chars : List Char) : (ofChars chars).Valid := ⟨Nat.zero_le _, rfl⟩

/-- What has been read and what is left make up the text. -/
theorem Valid.length_rest {c : Cursor} (h : c.Valid) :
    c.pos + c.rest.length = c.source.chars.length := by
  rw [h.rest_eq, List.length_drop]
  have := h.pos_le
  omega

theorem Valid.advanceBy {c : Cursor} (h : c.Valid) (n : Nat) : (c.advanceBy n).Valid := by
  have hlen := h.length_rest
  constructor
  · rw [pos_advanceBy, source_advanceBy]
    omega
  · rw [rest_advanceBy, source_advanceBy, pos_advanceBy, h.rest_eq, List.drop_drop]
    by_cases hn : n ≤ c.rest.length
    · rw [← h.rest_eq, Nat.min_eq_left hn]
    · rw [List.drop_eq_nil_of_le (by omega), List.drop_eq_nil_of_le (by rw [← h.rest_eq]; omega)]

/-- What has been read grows by what comes next. -/
theorem Valid.take_pos_advanceBy {c : Cursor} (h : c.Valid) (n : Nat) :
    c.source.chars.take (c.advanceBy n).pos = c.source.chars.take c.pos ++ c.rest.take n := by
  rw [pos_advanceBy, List.take_add, ← h.rest_eq]
  congr 1
  rcases Nat.le_total n c.rest.length with le | le
  · rw [Nat.min_eq_left le]
  · rw [Nat.min_eq_right le, List.take_length, List.take_of_length_le le]

/-- Going to a mark leaves a valid cursor, whatever text the mark was made on. -/
theorem valid_reset (c : Cursor) (m : Mark) : (c.reset m).Valid := by
  constructor
  · exact Nat.min_le_right _ _
  · by_cases h : m.pos ≤ c.source.chars.length
    · simp [reset, Nat.min_eq_left h]
    · have h' : c.source.chars.length ≤ m.pos := by omega
      simp [reset, Nat.min_eq_right h', List.drop_eq_nil_of_le h']

/-- Cutting out what was read since an earlier state, or since its mark, is the same. -/
theorem textSince_eq_sliceFrom {c start : Cursor} (h : start.Valid)
    (same : c.source = start.source) : c.textSince start = c.sliceFrom start.mark := by
  rw [textSince, sliceFrom, h.rest_eq, same]
  rfl

end PatternRules.Cursor

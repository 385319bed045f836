import Mathlib.Data.List.TakeWhile
import PatternRules.Source.Cursor.Lemmas

/-!
Where a cursor can go. `c.Reaches d` says that `d` is `c` after reading some characters; whatever moves
a cursor forward reaches its new place. Reading on never goes back:

* `Reaches.position_le`: positions grow by line, then by column;
* `Reaches.onLine`: a cursor on a text stands on one of its lines, behind what it has read of it;
* `Reaches.lineEnd`: the end of that line, which lies behind the cursor unless a carriage return comes
  first.
-/

namespace PatternRules

/-! ## The order of positions -/

namespace Position

instance : LE Position := ⟨fun p q => (p.compare q).isLE⟩

instance : LT Position := ⟨fun p q => p.compare q = .lt⟩

theorem le_iff {p q : Position} :
    p ≤ q ↔ p.line < q.line ∨ p.line = q.line ∧ p.column ≤ q.column := by
  show (p.compare q).isLE = true ↔ _
  unfold compare
  rcases Nat.lt_trichotomy p.line q.line with h | h | h
  · simp [Nat.compare_eq_lt.2 h, h]
  · simp [h, Nat.isLE_compare]
  · simp [Nat.compare_eq_gt.2 h, Nat.not_lt_of_lt h, Nat.ne_of_gt h]

theorem lt_iff {p q : Position} :
    p < q ↔ p.line < q.line ∨ p.line = q.line ∧ p.column < q.column := by
  show p.compare q = .lt ↔ _
  unfold compare
  rcases Nat.lt_trichotomy p.line q.line with h | h | h
  · simp [Nat.compare_eq_lt.2 h, h]
  · simp [h, Nat.compare_eq_lt]
  · simp [Nat.compare_eq_gt.2 h, Nat.not_lt_of_lt h, Nat.ne_of_gt h]

theorem le_refl (p : Position) : p ≤ p := le_iff.2 (.inr ⟨rfl, Nat.le_refl _⟩)

theorem le_trans {p q r : Position} (h : p ≤ q) (h' : q ≤ r) : p ≤ r := by
  rw [le_iff] at h h' ⊢
  omega

theorem le_antisymm {p q : Position} (h : p ≤ q) (h' : q ≤ p) : p = q := by
  obtain ⟨line, column⟩ := p
  obtain ⟨line', column'⟩ := q
  rw [le_iff] at h h'
  simp only at h h'
  rw [mk.injEq]
  omega

theorem lt_of_lt_of_le {p q r : Position} (h : p < q) (h' : q ≤ r) : p < r := by
  rw [lt_iff] at h ⊢
  rw [le_iff] at h'
  omega

theorem le_of_lt {p q : Position} (h : p < q) : p ≤ q := by
  rw [lt_iff] at h
  rw [le_iff]
  omega

theorem ne_of_lt {p q : Position} (h : p < q) : p ≠ q := by
  rintro rfl
  rw [lt_iff] at h
  omega

theorem le_or_lt (p q : Position) : p ≤ q ∨ q < p := by
  rw [le_iff, lt_iff]
  omega

theorem not_lt_of_le {p q : Position} (h : p ≤ q) : ¬ q < p := by
  rw [le_iff] at h
  rw [lt_iff]
  omega

end Position

namespace Cursor

/-! ## Reading on -/

/-- `d` is `c` after reading some characters. -/
def Reaches (c d : Cursor) : Prop := ∃ n, d = c.advanceBy n

theorem Reaches.refl (c : Cursor) : c.Reaches c := ⟨0, rfl⟩

theorem Reaches.trans {c d e : Cursor} (h : c.Reaches d) (h' : d.Reaches e) : c.Reaches e := by
  obtain ⟨m, rfl⟩ := h
  obtain ⟨n, rfl⟩ := h'
  exact ⟨m + n, (advanceBy_add m n c).symm⟩

/-- Of two places that are reached from one, the one is reached from the other. -/
theorem Reaches.total {c d e : Cursor} (h : c.Reaches d) (h' : c.Reaches e) : d.Reaches e ∨ e.Reaches d := by
  obtain ⟨i, rfl⟩ := h
  obtain ⟨j, rfl⟩ := h'
  rcases Nat.le_total i j with le | le
  · obtain ⟨k, rfl⟩ := Nat.exists_eq_add_of_le le
    exact .inl ⟨k, advanceBy_add _ _ _⟩
  · obtain ⟨k, rfl⟩ := Nat.exists_eq_add_of_le le
    exact .inr ⟨k, advanceBy_add _ _ _⟩

theorem reaches_advanceBy (n : Nat) (c : Cursor) : c.Reaches (c.advanceBy n) := ⟨n, rfl⟩

theorem reaches_advance (c : Cursor) : c.Reaches c.advance := ⟨1, rfl⟩

theorem reaches_skipWhile (c : Cursor) (p : Char → Bool) : c.Reaches (c.skipWhile p) := ⟨_, rfl⟩

theorem reaches_skipBlank (c : Cursor) : c.Reaches c.skipBlank := ⟨_, rfl⟩

theorem reaches_skipInlineBlank (c : Cursor) : c.Reaches c.skipInlineBlank := ⟨_, rfl⟩

theorem reaches_skipLine (c : Cursor) : c.Reaches c.skipLine :=
  (reaches_skipWhile c _).trans (reaches_advance _)

theorem reaches_seekRule (fuel : Nat) (c : Cursor) : c.Reaches (c.seekRule fuel) := by
  induction fuel generalizing c with
  | zero => exact .refl c
  | succ fuel ih =>
    unfold seekRule
    dsimp only
    split
    · exact reaches_skipBlank c
    · exact (reaches_skipBlank c).trans ((reaches_skipLine _).trans (ih _))

theorem reaches_synchronize (c : Cursor) : c.Reaches c.synchronize :=
  (reaches_skipLine c).trans (reaches_seekRule _ _)

theorem reaches_of_consume? {c d : Cursor} {ch : Char} (h : c.consume? ch = some d) :
    c.Reaches d := by
  unfold consume? at h
  split at h
  · cases h
    exact reaches_advance c
  · cases h

theorem reaches_of_consumeLiteral? {c d : Cursor} {literal : String}
    (h : c.consumeLiteral? literal = some d) : c.Reaches d := by
  unfold consumeLiteral? at h
  split at h
  · cases h
    exact reaches_advanceBy _ c
  · cases h

theorem reaches_of_consumeWord? {c d : Cursor} {word : String}
    (h : c.consumeWord? word = some d) : c.Reaches d := by
  unfold consumeWord? at h
  split at h
  · exact reaches_of_consumeLiteral? h
  · cases h

theorem Reaches.source_eq {c d : Cursor} (h : c.Reaches d) : d.source = c.source := by
  obtain ⟨n, rfl⟩ := h
  exact source_advanceBy n c

theorem position_le_advance (c : Cursor) : c.position ≤ c.advance.position := by
  unfold advance
  split
  · exact Position.le_refl _
  · split
    · exact Position.le_iff.2 (.inl (Nat.lt_succ_self _))
    · exact Position.le_iff.2 (.inr ⟨rfl, Nat.le_succ _⟩)

theorem position_le_advanceBy (n : Nat) (c : Cursor) : c.position ≤ (c.advanceBy n).position := by
  induction n generalizing c with
  | zero => exact Position.le_refl _
  | succ n ih => exact Position.le_trans (position_le_advance c) (ih c.advance)

/-- **Reading on never goes back.** -/
theorem Reaches.position_le {c d : Cursor} (h : c.Reaches d) : c.position ≤ d.position := by
  obtain ⟨n, rfl⟩ := h
  exact position_le_advanceBy n c

theorem Reaches.line_le {c d : Cursor} (h : c.Reaches d) : c.line ≤ d.line := by
  rcases Position.le_iff.1 h.position_le with h | ⟨h, -⟩
  · exact Nat.le_of_lt h
  · exact Nat.le_of_eq h

theorem Reaches.column_le {c d : Cursor} (h : c.Reaches d) (same : d.line = c.line) :
    c.column ≤ d.column := by
  rcases Position.le_iff.1 h.position_le with h | ⟨-, h⟩
  · exact absurd h (by simp [position, same])
  · exact h

end Cursor

/-! ## The line of a cursor -/

theorem splitLines_append_newline {front : List Char} (h : '\n' ∉ front) (rest : List Char) :
    splitLines (front ++ '\n' :: rest) = front :: splitLines rest := by
  induction front with
  | nil => simp [splitLines]
  | cons c front ih =>
    rw [List.mem_cons, not_or] at h
    have hc : c ≠ '\n' := fun e => h.1 e.symm
    simp [splitLines, hc, ih h.2]

theorem sublist_of_mem_splitLines {text line : List Char} (h : line ∈ splitLines text) :
    line.Sublist text := by
  induction text generalizing line with
  | nil =>
    rw [splitLines, List.mem_singleton] at h
    exact h ▸ List.Sublist.refl _
  | cons c text ih =>
    unfold splitLines at h
    split at h
    · rcases List.mem_cons.1 h with rfl | h
      · exact List.nil_sublist _
      · exact (ih h).cons c
    · cases hl : splitLines text with
      | nil => exact absurd hl (splitLines_ne_nil text)
      | cons first lines =>
        rw [hl] at h ih
        rcases List.mem_cons.1 h with rfl | h
        · exact (ih List.mem_cons_self).cons_cons c
        · exact (ih (List.mem_cons_of_mem _ h)).cons c

/-- A text without newline at its front has that front at the front of its first line. -/
theorem splitLines_append {front : List Char} (h : '\n' ∉ front) (rest : List Char) :
    ∃ lines, splitLines (front ++ rest) = (front ++ rest.takeWhile (· != '\n')) :: lines := by
  induction front with
  | nil =>
    induction rest with
    | nil => exact ⟨[], rfl⟩
    | cons c rest ih =>
      obtain ⟨lines, hl⟩ := ih
      by_cases hc : c = '\n'
      · exact ⟨splitLines rest, by simp [splitLines, hc]⟩
      · exact ⟨lines, by simpa [splitLines, hc] using by rw [List.nil_append] at hl; simp [hl]⟩
  | cons c front ih =>
    rw [List.mem_cons, not_or] at h
    obtain ⟨lines, hl⟩ := ih h.2
    have hc : c ≠ '\n' := fun e => h.1 e.symm
    exact ⟨lines, by simp [splitLines, hc, hl]⟩

namespace Cursor

/-- How a cursor stands in a text: `before` are the lines behind it, `front` is what it has read of
its own line. -/
structure OnLine (text : List Char) (c : Cursor) (before : List (List Char)) (front : List Char) :
    Prop where
  lines_eq : splitLines text = before ++ splitLines (front ++ c.rest)
  noNewline : '\n' ∉ front
  line_eq : c.line = before.length + 1
  column_eq : c.column = front.length + 1

theorem OnLine.advance {text : List Char} {c : Cursor} {before : List (List Char)}
    {front : List Char} (h : OnLine text c before front) :
    ∃ before front, OnLine text c.advance before front := by
  unfold Cursor.advance
  split
  · exact ⟨before, front, h⟩
  · next ch rest hrest =>
    have hlines := h.lines_eq
    rw [hrest] at hlines
    split
    · next hch =>
      refine ⟨before ++ [front], [], ?_, by simp, by simp [h.line_eq], rfl⟩
      rw [hlines, hch, splitLines_append_newline h.noNewline]
      simp
    · next hch =>
      refine ⟨before, front ++ [ch], by simpa using hlines, ?_, h.line_eq, by simp [h.column_eq]⟩
      rw [List.mem_append, not_or, List.mem_singleton]
      exact ⟨h.noNewline, fun e => hch e.symm⟩

theorem OnLine.advanceBy {text : List Char} {c : Cursor} {before : List (List Char)}
    {front : List Char} (n : Nat) (h : OnLine text c before front) :
    ∃ before front, OnLine text (c.advanceBy n) before front := by
  induction n generalizing c before front with
  | zero => exact ⟨before, front, h⟩
  | succ n ih =>
    obtain ⟨before, front, h⟩ := h.advance
    exact ih h

/-- **Every cursor on a text stands on a line of it.** -/
theorem Reaches.onLine {text : List Char} {c : Cursor} (h : (ofChars text).Reaches c) :
    ∃ before front, OnLine text c before front := by
  obtain ⟨n, rfl⟩ := h
  have start : OnLine text (ofChars text) [] [] := ⟨rfl, by simp, rfl, rfl⟩
  exact start.advanceBy n

theorem OnLine.lineEnd {text : List Char} {c : Cursor} {before : List (List Char)}
    {front : List Char} (h : OnLine text c before front) :
    ∃ back, front ++ back ∈ splitLines text ∧ (lineEndColumns text)[c.line - 1]? =
      some (((front ++ back).takeWhile (· != '\r')).length + 1) := by
  obtain ⟨lines, hl⟩ := splitLines_append h.noNewline c.rest
  have hlines := h.lines_eq
  rw [hl] at hlines
  refine ⟨c.rest.takeWhile (· != '\n'), by simp [hlines], ?_⟩
  rw [lineEndColumns, hlines, h.line_eq]
  simp

/-- **Where the line of a cursor ends.** Without carriage returns that is at or behind the
cursor. -/
theorem Reaches.lineEnd {text : List Char} {c : Cursor} (h : (ofChars text).Reaches c) :
    ∃ stop, c.source.lineEnds[c.line - 1]? = some stop ∧ stop ≤ text.length + 1 ∧
      ('\r' ∉ text → c.column ≤ stop) := by
  obtain ⟨before, front, on⟩ := h.onLine
  obtain ⟨back, hmem, hend⟩ := on.lineEnd
  have sub := sublist_of_mem_splitLines hmem
  refine ⟨_, by rw [h.source_eq]; simpa [ofChars, SourceText.ofChars] using hend, ?_, ?_⟩
  · have := (List.takeWhile_sublist (· != '\r')).trans sub |>.length_le
    omega
  · intro noReturn
    have all : (front ++ back).takeWhile (· != '\r') = front ++ back := by
      rw [List.takeWhile_eq_self_iff]
      intro x hx
      have : x ≠ '\r' := fun e => noReturn (e ▸ sub.subset hx)
      simpa using this
    rw [all, on.column_eq, List.length_append]
    omega

theorem Reaches.column_le_length {text : List Char} {c : Cursor} (h : (ofChars text).Reaches c) :
    c.column ≤ text.length + 1 := by
  obtain ⟨before, front, on⟩ := h.onLine
  obtain ⟨back, hmem, -⟩ := on.lineEnd
  have := (sublist_of_mem_splitLines hmem).length_le
  rw [List.length_append] at this
  rw [on.column_eq]
  omega

end Cursor

end PatternRules

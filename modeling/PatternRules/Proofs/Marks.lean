import Mathlib.Data.List.DropRight
import PatternRules.Proofs.Located

/-!
What a cursor knows of its place, whatever is done with it. Operations come in any order and go back to any
mark, also to one that was taken on another text. A mark is `TakenOn` a text if a cursor over the text took it
without ever having gone to a mark of another one.

* `Cursor.performAll_keeps`: what reading a character and going to a mark keep, every sequence of operations
  keeps; three invariants follow from it;
* `Cursor.InText`: the cursor stands within its text;
* `Cursor.reaches_performAll`: going back to marks of the text leads nowhere that reading on does not lead, so
  that `Mark.takenOn_iff` tells all marks of a text, and `Cursor.Reaches.column_eq` where they are;
* `Cursor.Room`: no line or column is counted further than the text allows;
* `Cursor.performAll_consistent`: all of it together.
-/

namespace PatternRules

namespace Cursor

/-! ## Operations -/

/-- What is done with a cursor. -/
inductive Operation where
  | advance
  | consume (ch : Char)
  | consumeLiteral (literal : String)
  | consumeWord (word : String)
  | takeWhile (p : Char → Bool)
  | skipBlank
  | skipInlineBlank
  | mark
  | reset (m : Mark)

/-- One operation. The cursor stays where it is if something else comes next than what is to be read, and if
a mark is taken. -/
def perform (c : Cursor) : Operation → Cursor
  | .advance => c.advance
  | .consume ch => (c.consume? ch).getD c
  | .consumeLiteral literal => (c.consumeLiteral? literal).getD c
  | .consumeWord word => (c.consumeWord? word).getD c
  | .takeWhile p => c.skipWhile p
  | .skipBlank => c.skipBlank
  | .skipInlineBlank => c.skipInlineBlank
  | .mark => c
  | .reset m => c.reset m

/-- Operations one after the other. -/
def performAll (c : Cursor) (ops : List Operation) : Cursor := ops.foldl perform c

theorem reaches_getD {c : Cursor} {found : Option Cursor} (h : ∀ {d}, found = some d → c.Reaches d) :
    c.Reaches (found.getD c) := by
  cases found with
  | none => exact .refl c
  | some d => exact h rfl

/-- **An operation reads on, or it goes to a mark.** -/
theorem perform_reaches_or_resets (c : Cursor) (op : Operation) :
    c.Reaches (c.perform op) ∨ ∃ m, op = .reset m := by
  cases op with
  | advance => exact .inl (reaches_advance c)
  | consume ch => exact .inl (reaches_getD reaches_of_consume?)
  | consumeLiteral literal => exact .inl (reaches_getD reaches_of_consumeLiteral?)
  | consumeWord word => exact .inl (reaches_getD reaches_of_consumeWord?)
  | takeWhile p => exact .inl (reaches_skipWhile c p)
  | skipBlank => exact .inl (reaches_skipBlank c)
  | skipInlineBlank => exact .inl (reaches_skipInlineBlank c)
  | mark => exact .inl (.refl c)
  | reset m => exact .inr ⟨m, rfl⟩

section Keeps

variable {P : Cursor → Prop} (advance : ∀ d : Cursor, P d → P d.advance)
include advance

theorem advanceBy_keeps (n : Nat) {c : Cursor} (h : P c) : P (c.advanceBy n) := by
  induction n generalizing c with
  | zero => exact h
  | succ n ih => exact ih (advance c h)

/-- **What one step keeps, every sequence of operations keeps.** -/
theorem performAll_keeps {ops : List Operation}
    (reset : ∀ (d : Cursor) (m : Mark), P d → .reset m ∈ ops → P (d.reset m)) {c : Cursor} (h : P c) :
    P (c.performAll ops) := by
  induction ops generalizing c with
  | nil => exact h
  | cons op ops ih =>
    have next : P (c.perform op) := by
      rcases c.perform_reaches_or_resets op with ⟨n, ahead⟩ | ⟨m, rfl⟩
      · exact ahead ▸ advanceBy_keeps advance n h
      · exact reset c m h List.mem_cons_self
    exact ih (fun d m hd mem => reset d m hd (List.mem_cons_of_mem _ mem)) next

end Keeps

/-! ## Within the text -/

/-- The cursor is over the text and stands within it. -/
structure InText (text : List Char) (c : Cursor) : Prop where
  chars_eq : c.source.chars = text
  valid : c.Valid

/-- **A cursor does not leave its text**, whatever the marks are that it goes to. -/
theorem inText_performAll (text : List Char) (ops : List Operation) :
    InText text ((ofChars text).performAll ops) := by
  refine performAll_keeps ?_ ?_ ⟨rfl, valid_ofChars text⟩
  · intro d h
    exact ⟨by rw [source_advance, h.chars_eq], h.valid.advanceBy 1⟩
  · intro d m h _
    exact ⟨h.chars_eq, valid_reset d m⟩

/-- The characters from `start` up to `stop`, if there are any such places in this order. -/
def slice? (chars : List Char) (start stop : Nat) : Option (List Char) :=
  if start ≤ stop ∧ stop ≤ chars.length then some ((chars.take stop).drop start) else none

theorem inText_of_reaches {text : List Char} {c : Cursor} (h : (ofChars text).Reaches c) : InText text c := by
  obtain ⟨n, rfl⟩ := h
  exact ⟨by rw [source_advanceBy]; rfl, (valid_ofChars text).advanceBy n⟩

namespace InText

variable {text : List Char} {c : Cursor}

theorem pos_le (h : InText text c) : c.pos ≤ text.length := h.chars_eq ▸ h.valid.pos_le

theorem slice?_sliceFrom (h : InText text c) (m : Mark) :
    slice? text (min m.pos c.pos) c.pos = some (c.sliceFrom m) := by
  rw [slice?, if_pos ⟨Nat.min_le_right .., h.pos_le⟩, sliceFrom, h.chars_eq, List.drop_take]
  rcases Nat.le_total m.pos c.pos with before | behind
  · rw [Nat.min_eq_left before]
  · rw [Nat.min_eq_right behind, Nat.sub_self, Nat.sub_eq_zero_of_le behind, List.take_zero, List.take_zero]

theorem slice?_rest (h : InText text c) :
    slice? text (min c.pos text.length) text.length = some c.rest := by
  rw [slice?, if_pos ⟨Nat.min_le_right .., Nat.le_refl _⟩, List.take_length, Nat.min_eq_left h.pos_le,
    h.valid.rest_eq, h.chars_eq]

end InText

/-! ## Going back -/

/-- A cursor is found again at its mark. -/
theorem reset_mark {c d : Cursor} (valid : d.Valid) (same : c.source = d.source) : c.reset d.mark = d := by
  obtain ⟨source, rest, pos, line, column⟩ := d
  obtain ⟨pos_le, rest_eq⟩ := valid
  dsimp only at same pos_le rest_eq
  simp [reset, mark, same, rest_eq, Nat.min_eq_left pos_le]

theorem reaches_performAll {text : List Char} {ops : List Operation}
    (own : ∀ m, .reset m ∈ ops → ∃ d, (ofChars text).Reaches d ∧ m = d.mark) :
    (ofChars text).Reaches ((ofChars text).performAll ops) := by
  refine performAll_keeps ?_ ?_ (.refl _)
  · intro d reached
    exact reached.trans (reaches_advance d)
  · intro d m reached mem
    obtain ⟨e, there, rfl⟩ := own m mem
    rwa [reset_mark (inText_of_reaches there).valid (reached.source_eq.trans there.source_eq.symm)]

end Cursor

/-- A mark of a text: a cursor over it took the mark, after operations that only went to marks of the text. -/
inductive Mark.TakenOn (text : List Char) : Mark → Prop where
  | intro (ops : List Cursor.Operation) (own : ∀ m, .reset m ∈ ops → TakenOn text m) :
      TakenOn text ((Cursor.ofChars text).performAll ops).mark

theorem Mark.TakenOn.exists_reached {text : List Char} {m : Mark} (h : m.TakenOn text) :
    ∃ c, (Cursor.ofChars text).Reaches c ∧ m = c.mark := by
  induction h with
  | intro ops own ih => exact ⟨_, Cursor.reaches_performAll ih, rfl⟩

/-- **The marks of a text** are those that are taken while it is read from its start. -/
theorem Mark.takenOn_iff {text : List Char} {m : Mark} :
    m.TakenOn text ↔ ∃ c, (Cursor.ofChars text).Reaches c ∧ m = c.mark := by
  constructor
  · exact TakenOn.exists_reached
  · rintro ⟨c, ⟨n, rfl⟩, rfl⟩
    have reading (c : Cursor) : c.performAll (List.replicate n .advance) = c.advanceBy n := by
      induction n generalizing c with
      | zero => rfl
      | succ n ih => exact ih c.advance
    rw [← reading]
    refine .intro _ fun m mem => ?_
    cases List.eq_of_mem_replicate mem

namespace Cursor

variable {text : List Char} {c : Cursor}

/-- **The line** counts the newlines that were read. -/
theorem Reaches.line_eq (h : (ofChars text).Reaches c) : c.line = 1 + (text.take c.pos).count '\n' := by
  obtain ⟨n, rfl⟩ := h
  rw [line_advanceBy, pos_advanceBy]
  simp [ofChars, ← List.take_eq_take_min]

/-- **The column** counts what was read since the last newline. -/
theorem Reaches.column_eq (h : (ofChars text).Reaches c) :
    c.column = 1 + ((text.take c.pos).rtakeWhile (· != '\n')).length := by
  obtain ⟨n, rfl⟩ := h
  induction n with
  | zero => rfl
  | succ n ih =>
    rw [advanceBy_add n 1]
    have here := inText_of_reaches (reaches_advanceBy n (ofChars text))
    generalize (ofChars text).advanceBy n = c at ih here
    have grown := here.valid.take_pos_advanceBy 1
    rw [here.chars_eq] at grown
    cases next : c.rest with
    | nil => rw [advanceBy_of_rest_nil next, ih]
    | cons ch rest =>
      rw [grown, next, List.take_succ_cons, List.take_zero, List.rtakeWhile_concat, advanceBy, advanceBy]
      by_cases newline : ch = '\n'
      · rw [advance_newline (newline ▸ next)]
        simp [newline]
      · rw [column_advance next newline, ih, if_pos (by simpa using newline), List.length_append,
          List.length_singleton, Nat.add_assoc]

end Cursor

/-! ## How far is counted -/

theorem Mark.TakenOn.counts_le {text : List Char} {m : Mark} (h : m.TakenOn text) :
    m.pos ≤ text.length ∧ m.line ≤ m.pos + 1 ∧ m.column ≤ m.pos + 1 := by
  obtain ⟨c, reached, rfl⟩ := h.exists_reached
  have within : (text.take c.pos).length ≤ c.pos := List.length_take_le ..
  have newlines := List.count_le_length (a := '\n') (l := text.take c.pos)
  have lineLength := (List.rtakeWhile_suffix (· != '\n') (text.take c.pos)).length_le
  have line := reached.line_eq
  have column := reached.column_eq
  refine ⟨(Cursor.inText_of_reaches reached).pos_le, ?_, ?_⟩
  · dsimp only [Cursor.mark]
    omega
  · dsimp only [Cursor.mark]
    omega

namespace Cursor

/-- Line and column do not get beyond `limit`, whatever is left to read. -/
structure Room (limit : Nat) (c : Cursor) : Prop where
  line_le : c.line + c.rest.length ≤ limit
  column_le : c.column + c.rest.length ≤ limit

namespace Room

variable {limit : Nat} {c : Cursor}

theorem start {text : List Char} (short : text.length < limit) : Room limit (ofChars text) := by
  constructor <;> simp only [ofChars] <;> omega

theorem advance (h : Room limit c) : Room limit c.advance := by
  obtain ⟨line_le, column_le⟩ := h
  unfold Cursor.advance
  split
  · exact ⟨line_le, column_le⟩
  · next next =>
    rw [next, List.length_cons] at line_le column_le
    split <;> constructor <;> dsimp only <;> omega

/-- Behind a mark of a longer text nothing is left to read. -/
theorem reset {m : Mark} {other : List Char} (long : other.length < limit) (taken : m.TakenOn other)
    (short : c.source.chars.length < limit) : Room limit (c.reset m) := by
  obtain ⟨pos_le, line_le, column_le⟩ := taken.counts_le
  constructor <;> simp only [Cursor.reset, List.length_drop] <;> omega

end Room

/-- **No line or column is counted too far**, as long as all texts are shorter than `limit`. -/
theorem room_performAll {limit : Nat} {text : List Char} {ops : List Operation} (short : text.length < limit)
    (taken : ∀ m, .reset m ∈ ops → ∃ other : List Char, other.length < limit ∧ m.TakenOn other) :
    Room limit ((ofChars text).performAll ops) := by
  refine (performAll_keeps (P := fun d => d.source.chars = text ∧ Room limit d) ?_ ?_ ⟨rfl, .start short⟩).2
  · rintro d ⟨chars_eq, room⟩
    exact ⟨by rw [source_advance, chars_eq], room.advance⟩
  · rintro d m ⟨chars_eq, -⟩ mem
    obtain ⟨other, long, there⟩ := taken m mem
    exact ⟨chars_eq, .reset long there (chars_eq ▸ short)⟩

/-! ## Consistency -/

/-- **The state of a cursor is consistent**, whatever was done with it. It stands within its text, wherever its
marks come from, so that the text since any mark and the word ahead are cut out of the text at places that it
has. If it only went to marks of its own text, its line counts the newlines in front of it and its column counts
the characters behind the last one of them. If its text and those of all its marks have fewer than `2 ^ 32 - 2`
characters, line and column fit in thirty-two bits, and still do when one more is counted. -/
theorem performAll_consistent (text : List Char) (ops : List Operation) :
    let c := (ofChars text).performAll ops
    (c.pos ≤ text.length ∧ c.rest = text.drop c.pos ∧
      (∀ m, slice? text (min m.pos c.pos) c.pos = some (c.sliceFrom m)) ∧
      (slice? text (min c.pos text.length) text.length).map (·.takeWhile isWordChar) =
        some (c.run isWordChar)) ∧
    ((∀ m, .reset m ∈ ops → m.TakenOn text) →
      c.line = 1 + (text.take c.pos).count '\n' ∧
      c.column = 1 + ((text.take c.pos).rtakeWhile (· != '\n')).length) ∧
    (text.length < 2 ^ 32 - 2 →
      (∀ m, .reset m ∈ ops → ∃ other : List Char, other.length < 2 ^ 32 - 2 ∧ m.TakenOn other) →
      c.line < Span.maxColumn ∧ c.column < Span.maxColumn) := by
  intro c
  have within : InText text c := inText_performAll text ops
  refine ⟨⟨within.pos_le, ?_, within.slice?_sliceFrom, ?_⟩, ?_, ?_⟩
  · rw [within.valid.rest_eq, within.chars_eq]
  · rw [within.slice?_rest, Option.map_some, run]
  · intro own
    have reached : (ofChars text).Reaches c := reaches_performAll fun m mem => (own m mem).exists_reached
    exact ⟨reached.line_eq, reached.column_eq⟩
  · intro short taken
    obtain ⟨line_le, column_le⟩ : Room (2 ^ 32 - 2) c := room_performAll short taken
    rw [Span.maxColumn]
    omega

/-- A text of three lines, the second of them a comment. -/
def commentedLines : List Char := "ab\n# c\n  d".toList

/-- Operations that go on to the end of the text, back to its first line, and from there into the comment. -/
def thereAndBack : List Operation :=
  [.advance, .mark, .consumeWord "b", .skipBlank, .consume 'd', .reset ⟨1, 1, 2⟩, .takeWhile (· != '\n'), .advance,
    .consumeLiteral "# "]

/-- A mark behind twelve newlines, which no shorter text has. -/
def farMark : Mark := ⟨12, 13, 1⟩

/-- Operations that go to a mark of another text. -/
def farAway : List Operation := [.reset farMark, .skipBlank]

theorem performAll_consistent_thereAndBack :
    ((∀ m, .reset m ∈ thereAndBack → m.TakenOn commentedLines) ∧
      let c := (ofChars commentedLines).performAll thereAndBack
      c.mark = ⟨5, 2, 3⟩ ∧ c.line = 1 + (commentedLines.take c.pos).count '\n' ∧
        c.column = 1 + ((commentedLines.take c.pos).rtakeWhile (· != '\n')).length) ∧
    farMark.TakenOn (List.replicate 12 '\n') ∧
      let c := (ofChars commentedLines).performAll farAway
      c.mark = ⟨10, 13, 1⟩ ∧ c.pos ≤ commentedLines.length ∧ c.line < Span.maxColumn := by
  have own : ∀ m, .reset m ∈ thereAndBack → m.TakenOn commentedLines := by
    intro m mem
    obtain rfl : m = ⟨1, 1, 2⟩ := by simpa [thereAndBack] using mem
    exact Mark.takenOn_iff.2 ⟨_, ⟨1, rfl⟩, by decide +kernel⟩
  have far : farMark.TakenOn (List.replicate 12 '\n') :=
    Mark.takenOn_iff.2 ⟨_, ⟨12, rfl⟩, by decide +kernel⟩
  have short : ∀ m, .reset m ∈ farAway →
      ∃ other : List Char, other.length < 2 ^ 32 - 2 ∧ m.TakenOn other := by
    intro m mem
    obtain rfl : m = farMark := by simpa [farAway] using mem
    exact ⟨_, by decide +kernel, far⟩
  obtain ⟨-, placed, -⟩ := performAll_consistent commentedLines thereAndBack
  obtain ⟨⟨within, -⟩, -, fits⟩ := performAll_consistent commentedLines farAway
  exact ⟨⟨own, by decide +kernel, placed own⟩, far, by decide +kernel, within, (fits (by decide +kernel) short).1⟩

end Cursor

end PatternRules

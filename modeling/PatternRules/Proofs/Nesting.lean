import PatternRules.Proofs.Contract.Document
import PatternRules.Proofs.Settles

/-!
That nesting goes too deep is recorded at most once, whatever the text. The state remembers that it has been
complained about, and no other complaint is put in the same words. So between two states it is recorded at
most as often as it is newly remembered (`Later`). Every reading leads to a later state
(`Contract.nesting`), from the basic steps up to documents.
-/

namespace PatternRules

/-! ## Later states -/

/-- The error says that nesting went too deep. -/
def SyntaxError.TooDeep (depth : Nat) (e : SyntaxError) : Prop :=
  e.message = (Complaint.nestingTooDeep depth).message

instance (depth : Nat) : DecidablePred (SyntaxError.TooDeep depth) := fun _ => instDecidableEqString _ _

/-- How often it was recorded that nesting went too deep. -/
def nestings (depth : Nat) (errors : List SyntaxError) : Nat :=
  errors.countP (decide <| SyntaxError.TooDeep depth ·)

/-- No error gets lost from `s` to `t`, and that nesting went too deep is recorded at most as often as it is
newly remembered. -/
structure Later (depth : Nat) (s t : ParseState) : Prop where
  front : s.errors <+: t.errors
  once : nestings depth t.errors + s.nestingReported.toNat ≤ nestings depth s.errors + t.nestingReported.toNat

theorem ParseState.front_recording (s : ParseState) (limits : Limits) (e : SyntaxError) :
    s.errors <+: (s.recording limits e).errors := by
  have grows : Extends limits s.errors (s.recording limits e).errors := .recording s e
  exact grows.front

namespace Later

variable {depth : Nat} {limits : Limits} {s t u : ParseState}

theorem refl (s : ParseState) : Later depth s s := ⟨List.prefix_rfl, Nat.le_refl _⟩

theorem trans (h : Later depth s t) (h' : Later depth t u) : Later depth s u := by
  refine ⟨h.front.trans h'.front, ?_⟩
  have first := h.once
  have second := h'.once
  omega

theorem moved (s : ParseState) (c : Cursor) : Later depth s { s with cursor := c } :=
  ⟨List.prefix_rfl, Nat.le_refl _⟩

theorem recording {e : SyntaxError} (other : ¬ e.TooDeep depth) : Later depth s (s.recording limits e) := by
  refine ⟨ParseState.front_recording s limits _, ?_⟩
  rw [ParseState.nestingReported_recording, ParseState.recording]
  split
  · exact Nat.le_refl _
  · have same : nestings depth (s.errors ++ [e]) = nestings depth s.errors := by
      simp [nestings, other]
    rw [same]

/-- Too deep a nesting is remembered as it is complained about. -/
theorem nested (notNested : s.nestingReported = false) (e : SyntaxError) :
    Later depth s ({ s with nestingReported := true } |>.recording limits e) := by
  refine ⟨ParseState.front_recording { s with nestingReported := true } limits e, ?_⟩
  rw [ParseState.nestingReported_recording, ParseState.recording, notNested]
  split
  · exact Nat.le_add_right _ _
  · have one : nestings depth [e] ≤ 1 := List.countP_le_length
    have parts : nestings depth (s.errors ++ [e]) = nestings depth s.errors + nestings depth [e] :=
      List.countP_append
    show nestings depth (s.errors ++ [e]) + 0 ≤ nestings depth s.errors + 1
    omega

end Later

/-! ## The contract -/

namespace Parse

/-- As long as something may nest, `p` leads to a later state. -/
def Proceeds {α : Type} (p : Parse α) : Prop :=
  ∀ limits s, 0 < limits.depth → Ensures limits s p fun _ t => Later limits.depth s t

namespace Proceeds

variable {α β : Type}

theorem pure (a : α) : Proceeds (Pure.pure a) := fun _ s _ => .refl s

theorem bind {p : Parse α} {f : α → Parse β} (h : Proceeds p) (next : ∀ a, Proceeds (f a)) :
    Proceeds (p >>= f) :=
  fun limits s room => (h limits s room).bind fun a t later =>
    (next a limits t room).mono fun _ _ further => later.trans further

theorem looking {f : Cursor → Parse α} (h : ∀ c, Proceeds (f c)) : Proceeds (cursor >>= f) :=
  fun limits s room => h s.cursor limits s room

theorem move (f : Cursor → Cursor) : Proceeds (move f) := fun _ s _ => .moved s _

theorem report {complaint : Complaint} (plain : complaint.isPlain = true) (span : Span) :
    Proceeds (report complaint span) := by
  intro limits s _
  rw [ensures_report]
  exact .recording (Complaint.message_ne_of_isPlain plain rfl)

theorem reportUnlessNested {complaint : Complaint} (plain : complaint.isPlain = true) :
    Proceeds (reportUnlessNested complaint) := by
  intro limits s room
  simp only [Parse.reportUnlessNested, ensures_bind, ensures_get]
  split
  · exact (looking fun c => report plain c.nextSpan) limits s room
  · exact .refl s

theorem reportNesting : Proceeds reportNesting := by
  intro limits s _
  simp only [Parse.reportNesting, ensures_bind, ensures_get]
  split
  · next notNested =>
    simp only [reportHere, ensures_bind, ensures_modify, ensures_read, ensures_cursor, ensures_report]
    exact .nested (by simpa using notNested) _
  · exact .refl s

/-- Nothing is said about places. -/
def placeless : Placeless := ⟨Proceeds, .pure, .bind, .looking, .move⟩

theorem accept (match? : Cursor → Option Cursor) : Proceeds (accept match?) := placeless.accept match?

theorem afterBlank {p : Parse (Option α)} (h : Proceeds p) : Proceeds (afterBlank p) := placeless.afterBlank h

theorem string : Proceeds string := by
  refine placeless.string fun span limits s _ => ?_
  have other : Complaint.stringUnterminated.message ≠ (Complaint.nestingTooDeep limits.depth).message :=
    Complaint.message_ne (by simp [Complaint.opening])
  rw [ensures_report]
  exact .recording other

theorem depth {f : Nat → Parse α} (h : ∀ n, Proceeds (f (n + 1))) : Proceeds (do f (← read).depth) := by
  rintro ⟨_ | n, errors⟩ s room
  · cases room
  · exact h n ⟨n + 1, errors⟩ s room

/-- How many errors there are may be asked at any time. -/
theorem counting {f : Nat → Parse α} (h : ∀ n, Proceeds (f n)) : Proceeds (errorCount >>= f) :=
  fun limits s room => h _ limits s room

theorem asking {f : Bool → Parse α} (h : ∀ full, Proceeds (f full)) : Proceeds (errorsFull >>= f) :=
  fun limits s room => h _ limits s room

end Proceeds

end Parse

/-- Every reading leads to a later state. -/
def Contract.nesting : Contract where
  keeps _ _ p := Parse.Proceeds p
  mono _ h := h
  pure _ a := .pure a
  bind h next := .bind h next
  look _ := .looking fun c => .pure c
  start h := .looking h
  moveOn _ _ := .move _
  spanFrom h limits s room := h (s.cursor.spanFrom _) rfl limits s room
  report _ _ plain _ := .report plain _
  reportUnlessNested _ plain := .reportUnlessNested plain
  tooDeep := .afterBlank (.bind .reportNesting fun _ => .pure none)
  string := .string
  accept _ := .accept _
  eatChar _ yes no := .bind (.accept _) (Bool.rec no yes)
  afterBlank _ h nothing found := .bind (.afterBlank h) (Option.rec nothing found)
  depth h := .depth h

theorem Contract.nesting_stageless : nesting.Stageless where
  same h := h
  counting h := .counting h
  asking h := .asking h

/-- **Too deep a nesting is recorded at most once.** -/
theorem nestings_le_one {limits : Limits} (deep : 0 < limits.depth) (text : List Char) :
    nestings limits.depth (readWithin limits text).2.errors ≤ 1 := by
  have later : Later limits.depth ⟨.ofChars text, [], false⟩ (readWithin limits text).2 :=
    Parse.document_contract Contract.nesting_stageless limits ⟨.ofChars text, [], false⟩ deep
  have once := later.once
  have flag := (readWithin limits text).2.nestingReported.toNat_le
  have none : nestings limits.depth [] = 0 := rfl
  have fresh : Bool.toNat false = 0 := rfl
  simp only [none, fresh] at once
  omega

end PatternRules

import PatternRules.Proofs.Recovery
import PatternRules.Proofs.Traceless
import PatternRules.Proofs.Twin.Document

/-!
Reading ends. A reading of a part of an expression `Attempts` it: the cursor never goes back, where something
is found it has gone on, and where nothing is found nothing at all has happened. A whole expression that is
nested too deep is complained about once, and that is all that is left of it.

Every repetition of the grammar counts its rounds, and the count is no part of the rules: since each round but
the last one reads a character, as many rounds take place as there would be without it (`Repeats`).

* `primary_attempts`, `quantified_attempts`, `concatenation_attempts`, `alternation_attempts`: the parts of an
  expression, over any reading of what their groups contain that moves on where it finds something;
* `expressionWithin_ends`: an expression at every level of nesting;
* `many_repeats`: a repetition goes on until its step finds nothing;
* `expression_progress`: all of it together, for every loop of the grammar and for recovery.
-/

namespace PatternRules

theorem Cursor.pos_lt_of_shorter {c d : Cursor} (h : c.Reaches d) (shorter : d.rest.length < c.rest.length) :
    c.pos < d.pos := by
  obtain ⟨n, rfl⟩ := h
  rw [rest_advanceBy, List.length_drop] at shorter
  rw [pos_advanceBy]
  omega

namespace Parse

variable {α : Type} {limits : Limits} {s t : ParseState}

/-! ## Going on -/

/-- The cursor has not gone back, and it has gone on if something was found. -/
structure GoesOn (s : ParseState) (found : Bool) (t : ParseState) : Prop where
  ahead : s.cursor.Reaches t.cursor
  further : found = true → s.cursor.pos < t.cursor.pos

/-- `p` goes on where it finds something, and does nothing otherwise. -/
def Attempts (p : Parse (Option α)) : Prop :=
  ∀ limits s, Ensures limits s p fun r t => GoesOn s r.isSome t ∧ (r = none → t = s)

theorem goesOn_of_consumes {p : Parse (Option α)} (moves : Moves p) (consumes : Consumes p) (limits : Limits)
    (s : ParseState) : Ensures limits s p fun r t => GoesOn s r.isSome t :=
  ((moves limits s).and (consumes limits s)).mono fun _ _ ⟨ahead, shorter⟩ =>
    ⟨ahead, fun found => Cursor.pos_lt_of_shorter ahead (shorter found)⟩

theorem attempts_of_consumes {p : Parse (Option α)} (moves : Moves p) (consumes : Consumes p)
    (traceless : Traceless p) : Attempts p :=
  fun limits s => (goesOn_of_consumes moves consumes limits s).and (traceless limits s)

theorem joined_moves (kind : Kind) (start : Cursor) (first : Node) (further : List Node) :
    Moves (joined kind start first further) := by
  intro limits s
  unfold joined
  split
  · exact .refl _
  · exact .refl _

section Parts

variable {inner : Parse (Option Node)} (h : Reads (Each Kind.isExpression) inner)
include h

theorem primary_attempts : Attempts (primary inner) :=
  attempts_of_consumes (primary_reads h).moves (primary_consumes h) (primary_traceless inner)

theorem quantified_attempts : Attempts (quantified inner) :=
  attempts_of_consumes (quantified_reads h).moves (quantified_consumes h) (quantified_traceless inner)

theorem concatenation_consumes : Consumes (concatenation inner) := by
  intro limits s
  rw [concatenation, ensures_bind, ensures_cursor]
  refine Consumes.bind (item_consumes h) ?_ ?_ limits s
  · rintro (_ | first)
    · exact fun _ _ => .refl _
    · exact ((item_reads h).afterBlank rfl).many.moves.bind fun further => joined_moves _ _ first further
  · exact fun _ _ => rfl

theorem concatenation_attempts : Attempts (concatenation inner) :=
  attempts_of_consumes (concatenation_reads h).moves (concatenation_consumes h) (concatenation_traceless inner)

theorem alternation_consumes : Consumes (alternation inner) := by
  intro limits s
  rw [alternation, ensures_bind, ensures_cursor]
  refine Consumes.bind (concatenation_consumes h) ?_ ?_ limits s
  · rintro (_ | first)
    · exact fun _ _ => .refl _
    · exact (nextBranch_reads h).many.moves.bind fun further => joined_moves _ _ first further
  · exact fun _ _ => rfl

theorem alternation_attempts : Attempts (alternation inner) :=
  attempts_of_consumes (alternation_reads h).moves (alternation_consumes h) (alternation_traceless inner)

end Parts

/-! ## Expressions -/

/-- Nothing happened but that nesting was complained about, for the first time. The complaint is missing if too
many others were there already. -/
structure ComplainsOfNesting (limits : Limits) (s t : ParseState) : Prop where
  cursor_eq : t.cursor = s.cursor
  first : s.nestingReported = false
  once : t.nestingReported = true
  errors : t.errors = s.errors ∨
    t.errors = s.errors ++ [⟨(Complaint.nestingTooDeep limits.depth).message, s.cursor.nextSpan⟩]

theorem reportNesting_complains (limits : Limits) (s : ParseState) :
    Ensures limits s reportNesting fun _ t => t = s ∨ ComplainsOfNesting limits s t := by
  simp only [reportNesting, reportHere, ensures_bind, ensures_get]
  split
  · next first =>
    simp only [ensures_bind, ensures_modify, ensures_read, ensures_cursor, ensures_report, ParseState.recording]
    rw [Bool.not_eq_true'] at first
    split
    · exact .inr ⟨rfl, first, rfl, .inl rfl⟩
    · exact .inr ⟨rfl, first, rfl, .inr rfl⟩
  · exact .inl rfl

/-- **An expression at any level of nesting** goes on where it is found. Where it is not, it is nested too
deep, or nothing has happened. -/
theorem expressionWithin_ends (levels : Nat) (limits : Limits) (s : ParseState) :
    Ensures limits s (expressionWithin levels) fun r t =>
      GoesOn s r.isSome t ∧ (r = none → t = s ∨ ComplainsOfNesting limits s t) := by
  cases levels with
  | zero =>
    rw [expressionWithin, ensures_bind]
    refine (reportNesting_complains limits s).mono ?_
    intro _ t nothing
    have same : t.cursor = s.cursor := by
      rcases nothing with rfl | complaint
      · rfl
      · exact complaint.cursor_eq
    exact ⟨⟨same ▸ .refl _, fun found => by cases found⟩, fun _ => nothing⟩
  | succ levels =>
    refine (alternation_attempts (expressionWithin_reads levels) limits s).mono ?_
    rintro r t ⟨goesOn, nothing⟩
    exact ⟨goesOn, fun none => .inl (nothing none)⟩

/-! ## Repetition -/

/-- The rounds of a repetition, as many as there are: a step is taken again until it finds nothing. -/
inductive Repeats (limits : Limits) (step : Parse (Option α)) : ParseState → List α → ParseState → Prop
  | stops {s t : ParseState} (nothing : Ensures limits s step fun r u => r = none ∧ u = t) :
    Repeats limits step s [] t
  | goesOn {s t u : ParseState} {item : α} {items : List α}
    (finds : Ensures limits s step fun r v => r = some item ∧ v = t) (further : Repeats limits step t items u) :
    Repeats limits step s (item :: items) u

/-- **A repetition goes on until its step finds nothing**, if the step reads something wherever it finds
something: its rounds are counted down from more than there are characters. -/
theorem manyFuel_repeats {step : Parse (Option α)} (h : Consumes step) {fuel : Nat}
    (enough : s.cursor.rest.length < fuel) :
    Ensures limits s (manyFuel step fuel) fun items t =>
      Repeats limits step s items t ∧ items.length ≤ s.cursor.rest.length := by
  induction fuel generalizing s with
  | zero => omega
  | succ fuel ih =>
    rw [ensures_manyFuel_succ]
    have outcome : Ensures limits s step fun r t => Ensures limits s step fun r' t' => r' = r ∧ t' = t :=
      ⟨rfl, rfl⟩
    refine (outcome.and (h limits s)).mono ?_
    rintro r t ⟨here, shorter⟩
    refine ⟨?_, ?_⟩
    · rintro rfl
      exact ⟨.stops here, Nat.zero_le _⟩
    · rintro item rfl
      have less := shorter rfl
      refine (ih (s := t) (by omega)).mono ?_
      rintro items u ⟨further, bound⟩
      refine ⟨.goesOn here further, ?_⟩
      rw [List.length_cons]
      omega

theorem many_repeats {step : Parse (Option α)} (h : Consumes step) (limits : Limits) (s : ParseState) :
    Ensures limits s (many step) fun items t =>
      Repeats limits step s items t ∧ items.length ≤ s.cursor.rest.length :=
  manyFuel_repeats h (Nat.lt_succ_self _)

/-- The loops of the grammar. Those of an expression belong to a level of nesting. -/
inductive Loop
  | classItems
  | items (levels : Nat)
  | branches (levels : Nat)
  | tokensFiles
  | resolverFlags
  | arguments
  | importFlags
  | imports
  | rules

namespace Loop

/-- What a round of a loop finds. An option that is read and dropped counts as found. -/
def Item : Loop → Type
  | resolverFlags => List Node
  | importFlags => List Node
  | _ => Node

/-- A round of a loop. -/
def step : (loop : Loop) → Parse (Option loop.Item)
  | classItems => nextClassItem
  | items levels => afterBlank (item (expressionWithin levels))
  | branches levels => nextBranch (expressionWithin levels)
  | tokensFiles => nextInList tokensFile
  | resolverFlags => nextInList nextResolverFlag
  | arguments => nextInList nextArgument
  | importFlags => nextInList nextImportFlag
  | imports => nextImport
  | rules => nextRule

theorem consumes (loop : Loop) : Consumes loop.step := by
  cases loop with
  | classItems => exact nextClassItem_consumes
  | items levels => exact (item_consumes (expressionWithin_reads levels)).afterBlank
  | branches levels => exact nextBranch_consumes (expressionWithin_reads levels)
  | tokensFiles => exact nextInList_consumes tokensFile_reads.moves
  | resolverFlags => exact nextInList_consumes nextResolverFlag_reads.moves
  | arguments => exact nextInList_consumes nextArgument_reads.moves
  | importFlags => exact nextInList_consumes nextImportFlag_reads.moves
  | imports => exact nextImport_consumes
  | rules => exact nextRule_consumes

end Loop

/-- **Expressions are read forward, and what is not found leaves no trace**, so that every loop of the grammar
ends by itself. How deep a reading is nested is told by the levels that are left to it, which it is given and
hands on; they are the same in front of it and behind it. -/
theorem expression_progress (limits : Limits) (s : ParseState) :
    (∀ levels,
      Attempts (primary (expressionWithin levels)) ∧ Attempts (quantified (expressionWithin levels)) ∧
      Attempts (concatenation (expressionWithin levels)) ∧ Attempts (alternation (expressionWithin levels)) ∧
      Ensures limits s (expressionWithin levels) fun r t =>
        GoesOn s r.isSome t ∧ (r = none → t = s ∨ ComplainsOfNesting limits s t)) ∧
    (∀ loop : Loop, Ensures limits s (many loop.step) fun items t =>
      Repeats limits loop.step s items t ∧ items.length ≤ s.cursor.rest.length) ∧
    s.cursor.skipLine.SeeksRule s.cursor.synchronize := by
  refine ⟨fun levels => ?_, fun loop => many_repeats loop.consumes limits s, ?_⟩
  · have inner := expressionWithin_reads levels
    exact ⟨primary_attempts inner, quantified_attempts inner, concatenation_attempts inner,
      alternation_attempts inner, expressionWithin_ends levels limits s⟩
  · exact Cursor.seekRule_seeks (Nat.lt_succ_self _)

end Parse

end PatternRules

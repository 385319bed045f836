import PatternRules.Proofs.Contract.Document
import PatternRules.Proofs.Settles.Document

/-!
Errors are recorded in the order of their places. A complaint is about what comes next, or about what has
been read since some place, and by then none is about anything further on. There is one exception: too deep
a nesting is complained about behind blanks, before the cursor is put back in front of them. But then no
closing parenthesis is missed any more, and whatever else is read starts behind those blanks.

The contract of order (`Contract.inOrder`) is kept by all statements; behind a broken one reading goes on in
the next line at the soonest, and so again behind all complaints (`nextRule_order`).
-/

namespace PatternRules

/-- The errors come in the order of their places, none of which is behind `stop`. -/
structure SyntaxError.InOrder (errors : List SyntaxError) (stop : Cursor) : Prop where
  sorted : errors.Pairwise fun e e' => e.span.start ≤ e'.span.start
  start_le : ∀ e ∈ errors, e.span.start ≤ stop.position

/-- The errors of a state are in order. -/
def Stage.Holds : Stage → ParseState → Prop
  | since start, s => start.Reaches s.cursor ∧ SyntaxError.InOrder s.errors start
  | settled, s => SyntaxError.InOrder s.errors s.cursor
  | loose, s => SyntaxError.InOrder s.errors s.cursor ∨
      s.nestingReported = true ∧ SyntaxError.InOrder s.errors s.cursor.skipBlank

open SyntaxError (InOrder)

namespace SyntaxError.InOrder

variable {errors : List SyntaxError} {c d : Cursor}

theorem nil (stop : Cursor) : InOrder [] stop := ⟨.nil, by simp⟩

theorem mono (h : InOrder errors c) (reaches : c.Reaches d) : InOrder errors d :=
  ⟨h.sorted, fun e he => Position.le_trans (h.start_le e he) reaches.position_le⟩

theorem snoc (h : InOrder errors c) {e : SyntaxError} (place : e.span.start = c.position) :
    InOrder (errors ++ [e]) c := by
  constructor
  · rw [List.pairwise_append]
    refine ⟨h.sorted, List.pairwise_singleton _ _, ?_⟩
    intro earlier mem e' mem'
    rw [List.mem_singleton.1 mem', place]
    exact h.start_le earlier mem
  · intro e' mem
    rcases List.mem_append.1 mem with old | new
    · exact h.start_le e' old
    · rw [List.mem_singleton.1 new, place]
      exact Position.le_refl _

end SyntaxError.InOrder

theorem SyntaxError.InOrder.recording {s : ParseState} {c : Cursor} (h : InOrder s.errors c)
    (limits : Limits) {e : SyntaxError} (place : e.span.start = c.position) :
    InOrder (s.recording limits e).errors c := by
  unfold ParseState.recording
  split
  · exact h
  · exact h.snoc place

/-! ## The contract of order -/

namespace Stage

variable {x y : Stage} {s : ParseState}

theorem Holds.loose (h : x.Holds s) : Stage.loose.Holds s := by
  cases x with
  | since start => exact .inl (h.2.mono h.1)
  | settled => exact .inl h
  | loose => exact h

theorem Holds.mono (h : x.Holds s) (le : x.Le y) : y.Holds s := by
  cases le with
  | refl => exact h
  | settled start => exact h.2.mono h.1
  | loose => exact h.loose

theorem Holds.move (h : Stage.settled.Holds s) {c : Cursor} (reaches : s.cursor.Reaches c) :
    Stage.settled.Holds { s with cursor := c } :=
  SyntaxError.InOrder.mono h reaches

/-- Behind the blanks complaints are settled. -/
theorem Holds.skipBlank (h : x.Holds s) : Stage.settled.Holds { s with cursor := s.cursor.skipBlank } := by
  rcases h.loose with settled | ⟨-, behind⟩
  · exact Holds.move settled (Cursor.reaches_skipBlank _)
  · exact behind

end Stage

theorem Cursor.skipBlank_of_peek {c : Cursor} {next : Char} (h : c.peek = some next)
    (stop : opensBlank next = false) : c.skipBlank = c := by
  have stops : Stops opensBlank c.rest := by
    rw [Stops, ← peek, h, Option.any_some, stop]
  have none : blankRun false c.rest = 0 := @blankRun_append [] _ rfl stops
  rw [skipBlank, none]
  rfl

namespace Parse

/-- `p` leads from errors in order to errors in order, as long as something may nest. -/
def KeepsOrder {α : Type} (x y : Stage) (p : Parse α) : Prop :=
  ∀ limits s, 0 < limits.depth → x.Holds s → Ensures limits s p fun _ t => y.Holds t

theorem reportUnlessNested_order (complaint : Complaint) :
    KeepsOrder .loose .loose (reportUnlessNested complaint) := by
  intro limits s _ h
  simp only [reportUnlessNested, ensures_bind, ensures_get]
  split
  · next notNested =>
    rcases h with settled | ⟨nested, -⟩
    · simp only [reportHere, ensures_bind, ensures_cursor, ensures_report]
      left
      rw [ParseState.cursor_recording]
      exact settled.recording limits rfl
    · rw [nested] at notNested
      cases notNested
  · exact h

/-- The complaint stands behind the blanks, and the cursor in front of them. -/
theorem tooDeep_order : KeepsOrder .loose .loose (afterBlank (expressionWithin 0)) := by
  intro limits s _ h
  have behind : InOrder s.errors s.cursor.skipBlank := h.skipBlank
  simp only [afterBlank, expressionWithin, reportNesting, ensures_bind, ensures_cursor, ensures_skipBlank,
    ensures_get]
  split
  · simp only [reportHere, ensures_bind, ensures_modify, ensures_read, ensures_cursor, ensures_report,
      ensures_pure, moveTo]
    right
    rw [ParseState.nestingReported_recording]
    exact ⟨rfl,
      SyntaxError.InOrder.recording (s := ⟨s.cursor.skipBlank, s.errors, true⟩) behind limits rfl⟩
  · exact h

theorem accept_order {match? : Cursor → Option Cursor} (h : ∀ c d, match? c = some d → c.Reaches d) :
    KeepsOrder .settled .settled (accept match?) := by
  intro limits s _ settled
  simp only [accept, ensures_bind, ensures_cursor]
  split
  · next d matched => exact settled.move (h _ _ matched)
  · exact settled

/-- That a string has no end is complained about where it begins. -/
theorem string_order : KeepsOrder .settled .settled string := by
  intro limits s _ settled
  simp only [string, ensures_bind, ensures_cursor]
  split
  · simp only [ensures_bind, ensures_move]
    have reaches := Cursor.reaches_advanceBy ((stringTail s.cursor.rest.tail).1 + 1) s.cursor
    split
    · simp only [ensures_bind, ensures_spanFrom, ensures_report, ensures_textNodeFrom, ensures_pure]
      show InOrder _ _
      rw [ParseState.cursor_recording]
      refine SyntaxError.InOrder.mono ?_ reaches
      exact SyntaxError.InOrder.recording (s := ⟨s.cursor.advanceBy _, s.errors, s.nestingReported⟩) settled limits rfl
    · simp only [ensures_bind, ensures_textNodeFrom, ensures_pure]
      exact settled.move reaches
  · exact settled

/-- In front of a character that is no blank, complaints are settled. -/
theorem eatChar_order {α : Type} {z : Stage} {c : Char} {f : Bool → Parse α} (stop : opensBlank c = false)
    (yes : KeepsOrder .settled z (f true)) (no : KeepsOrder .loose z (f false)) :
    KeepsOrder .loose z (eatChar c >>= f) := by
  intro limits s room h
  simp only [eatChar, accept, ensures_bind, ensures_cursor, Cursor.consume?]
  split
  · next d matched =>
    split at matched
    · next next =>
      cases matched
      refine yes limits _ room ?_
      have settled := h.skipBlank
      rw [Cursor.skipBlank_of_peek next stop] at settled
      exact settled.move (Cursor.reaches_advance _)
    · cases matched
  · exact no limits s room h

theorem afterBlank_order {α β : Type} {x y z : Stage} {p : Parse (Option α)} {f : Option α → Parse β}
    (traceless : Traceless p) (h : KeepsOrder .settled y p) (nothing : KeepsOrder x z (f none))
    (found : ∀ a, KeepsOrder y z (f (some a))) : KeepsOrder x z (afterBlank p >>= f) := by
  intro limits s room before
  have outcome : Ensures limits { s with cursor := s.cursor.skipBlank } p fun r t =>
      y.Holds t ∧ (r = none → t = { s with cursor := s.cursor.skipBlank }) :=
    ⟨h limits _ room before.skipBlank, traceless limits _⟩
  simp only [afterBlank, bind_assoc, ensures_bind, ensures_cursor, ensures_skipBlank]
  refine outcome.mono ?_
  rintro (_ | a) t ⟨after, same⟩
  · rw [same rfl]
    exact nothing limits s room before
  · exact found a limits t room after

end Parse

/-- Errors come in the order of their places. -/
def Contract.inOrder : Contract where
  keeps := Parse.KeepsOrder
  mono le h limits s room before := h limits s room (before.mono le)
  pure _ _ _ _ _ h := h
  bind h next limits s room before := (h limits s room before).bind fun a t => next a limits t room
  look _ _ _ _ h := h
  start h limits s room before := h s.cursor limits s room ⟨.refl _, before⟩
  moveOn _ forward _ s _ before := ⟨before.1.trans (forward s.cursor), before.2⟩
  spanFrom h limits s room before := h _ rfl limits s room before
  report complaint _ _ place limits s _ before := by
    rw [Parse.ensures_report]
    show InOrder _ _
    rw [ParseState.cursor_recording]
    exact (before.2.recording limits place).mono before.1
  reportUnlessNested complaint _ := Parse.reportUnlessNested_order complaint
  tooDeep := Parse.tooDeep_order
  string := Parse.string_order
  accept := Parse.accept_order
  eatChar := Parse.eatChar_order
  afterBlank := Parse.afterBlank_order
  depth h limits s room before := by
    obtain ⟨n, hn⟩ := Nat.exists_eq_succ_of_ne_zero (Nat.pos_iff_ne_zero.1 room)
    rw [Parse.ensures_bind, Parse.ensures_read, hn]
    exact h n limits s room before

namespace Parse

/-! ## Documents -/

open Contract (inOrder)

/-- Behind a broken statement reading goes on behind the blanks at the soonest. -/
theorem leaving_order {α : Type} {c : Prop} [Decidable c] {f : Cursor → Cursor} (a : α)
    (forward : ∀ c : Cursor, c.skipBlank.Reaches (f c).skipBlank) :
    KeepsOrder .loose .settled (do
      if c then
        move f
      skipBlank
      return a) := by
  intro limits s _ before
  split
  · exact before.skipBlank.move (forward s.cursor)
  · exact before.skipBlank

theorem rule_order : KeepsOrder .settled .loose rule := by
  intro limits s room before
  simp only [rule, ensures_bind, ensures_cursor, ensures_errorCount]
  have name : inOrder.keeps .settled .settled identifier := identifier_contract
  refine (name limits s room before).mono ?_
  rintro (_ | name) t settled
  · exact settled.loose
  · have tail : inOrder.keeps .settled .loose (ruleTail (name.text?.getD "")) := ruleTail_contract _
    exact (tail limits t room settled).bind fun _ _ after => after

theorem nextRule_order : KeepsOrder .settled .settled nextRule := by
  intro limits s room before
  simp only [nextRule, ensures_bind, ensures_cursor, ensures_errorsFull]
  split
  · exact before
  · have outcome : Ensures limits s rule fun r t => Stage.loose.Holds t ∧ (r = none → t = s) :=
      ⟨rule_order limits s room before, rule_traceless limits s⟩
    refine outcome.bind ?_
    rintro (_ | rule) t ⟨after, same⟩
    · rw [same rfl]
      exact before
    · refine leaving_order (some rule.node) ?_ limits t room after
      exact fun c => (Cursor.skipBlank_reaches_synchronize c).trans (Cursor.reaches_skipBlank _)

theorem nextImport_order : KeepsOrder .settled .settled nextImport := by
  have statement : inOrder.keeps .settled .settled importStatement := importStatement_contract
  intro limits s room before
  simp only [nextImport, ensures_bind, ensures_cursor]
  split
  · simp only [ensures_bind, ensures_errorsFull]
    split
    · exact before
    · simp only [ensures_bind, ensures_errorCount]
      refine (statement limits s room before).mono ?_
      intro node t after
      exact leaving_order (some node) Cursor.skipBlank_reaches_skipLine limits t room after.loose
  · exact before

theorem resolverSection_order : KeepsOrder .settled .settled resolverSection := by
  have statement : inOrder.keeps .settled .settled resolverDefault := resolverDefault_contract
  intro limits s room before
  simp only [resolverSection, atResolverDefault, ensures_bind, ensures_cursor, ensures_pure]
  split
  · simp only [ensures_bind, ensures_errorCount]
    refine (statement limits s room before).mono ?_
    intro node t after
    refine leaving_order [node] ?_ limits t room after.loose
    exact fun c => (Cursor.skipBlank_reaches_synchronize c).trans (Cursor.reaches_skipBlank _)
  · exact before

theorem document_order : KeepsOrder .settled .settled document := by
  have blank : inOrder.keeps .settled .settled skipBlank := skipBlank_contract
  have imports : inOrder.keeps .settled .settled (many nextImport) := many_contract nextImport_order
  have rules : inOrder.keeps .settled .settled (many nextRule) := many_contract nextRule_order
  refine inOrder.bind (inOrder.look _) fun start => inOrder.bind blank fun _ => ?_
  refine inOrder.bind versionSection_contract fun version => inOrder.bind imports fun imports => ?_
  refine inOrder.bind resolverSection_order fun resolver => inOrder.bind rules fun rules => ?_
  exact branchFrom_contract _ _ start _

end Parse

/-- **Errors are recorded in the order of their places**, whatever the limits, as long as something may
nest. -/
theorem readWithin_inOrder {limits : Limits} (room : 0 < limits.depth) (text : List Char) :
    SyntaxError.InOrder (readWithin limits text).2.errors (readWithin limits text).2.cursor :=
  Parse.document_order limits ⟨.ofChars text, [], false⟩ room (.nil _)

end PatternRules

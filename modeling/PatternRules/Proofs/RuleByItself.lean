import PatternRules.Proofs.Impartial
import PatternRules.Proofs.RuleLine

/-!
A rule is read as it is read by itself, whatever stands above it. What a rule comes to depends on where it
starts and on whether nesting was complained about (`Contract.impartial`); the errors above are recorded
first (`Alike`), and the lines above are counted (`readWithin_behindLines`). So the reading of a document is
what it gives up to the start of a rule, and then the reading of the rest by itself, moved down.

That nesting was complained about is never forgotten, and neither an empty group nor one that is not closed is
complained about any more after that. So below a place where nesting goes too deep a rule is not read as it is
by itself, and this case is left out (`rule_read_by_itself`).
-/

namespace PatternRules

/-- The state behind earlier errors. -/
def ParseState.after (earlier : List SyntaxError) (s : ParseState) : ParseState :=
  { s with errors := earlier ++ s.errors }

@[simp]
theorem ParseState.cursor_after (earlier : List SyntaxError) (s : ParseState) :
    (s.after earlier).cursor = s.cursor := rfl

@[simp]
theorem ParseState.length_after (earlier : List SyntaxError) (s : ParseState) :
    (s.after earlier).errors.length = earlier.length + s.errors.length := List.length_append

namespace Parse

variable {α β : Type} {limits : Limits} {s t : ParseState} {earlier : List SyntaxError}

/-! ## Behind earlier errors -/

/-- The second reading ends like the first one, behind earlier errors, unless there is no room for those of
both. -/
def SameAfter (limits : Limits) (earlier : List SyntaxError) (a : α) (s : ParseState) (b : α)
    (t : ParseState) : Prop :=
  b = a ∧ t = s.after earlier ∨ limits.errors ≤ earlier.length + s.errors.length

/-- Behind earlier errors `p` does what it does without them. -/
def Alike (p : Parse α) : Prop :=
  ∀ limits, 0 < limits.depth → ∀ earlier s,
    Both limits s (s.after earlier) p p (SameAfter limits earlier)

/-- Where there is no room, there is none later on. -/
theorem Grows.full {p q : Parse α} (h : Grows p)
    (full : limits.errors ≤ earlier.length + s.errors.length) :
    Both limits s t p q (SameAfter limits earlier) :=
  (h limits s).mono fun _ _ grows => .inr (Nat.le_trans full (Nat.add_le_add_left grows.front.length_le _))

theorem Impartial.alike {p : Parse α} (h : Impartial p) : Alike p := by
  intro limits deep earlier s
  obtain ⟨o, comes⟩ := h limits.depth deep s.cursor s.nestingReported
  refine (comes limits.errors s.errors).mono ?_
  rintro _ _ ⟨rfl, rfl⟩
  refine (comes limits.errors (earlier ++ s.errors)).mono ?_
  rintro _ _ ⟨rfl, rfl⟩
  -- If there is room for the errors of both, neither reading leaves a complaint out.
  by_cases full : limits.errors ≤ earlier.length + (o.state limits.errors s.errors).errors.length
  · exact .inr full
  · refine .inl ⟨rfl, ?_⟩
    rw [Outcome.state, List.length_append, List.length_take] at full
    have fits : o.complaints.length ≤ limits.errors - s.errors.length := by omega
    have fitsBehind : o.complaints.length ≤ limits.errors - (earlier ++ s.errors).length := by
      rw [List.length_append]
      omega
    rw [Outcome.state, Outcome.state, List.take_of_length_le fits, List.take_of_length_le fitsBehind,
      ParseState.after, List.append_assoc]

namespace Alike

theorem bind {p : Parse α} {f : α → Parse β} (h : Alike p) (grows : ∀ a, Grows (f a))
    (next : ∀ a, Alike (f a)) : Alike (p >>= f) := by
  intro limits deep earlier s
  refine Both.bind (h limits deep earlier s) ?_
  rintro a s' _ _ (⟨rfl, rfl⟩ | full)
  · exact next _ limits deep earlier s'
  · exact (grows a).full full

theorem pure (a : α) : Alike (Pure.pure a) := fun _ _ _ _ => .inl ⟨rfl, rfl⟩

theorem manyFuel {step : Parse (Option α)} (h : Alike step) (grows : Grows step) (fuel : Nat) :
    Alike (manyFuel step fuel) := by
  induction fuel with
  | zero => exact .pure []
  | succ fuel ih =>
    refine h.bind (grows.furtherRounds fuel) ?_
    rintro (_ | item)
    · exact .pure []
    · exact ih.bind (fun _ _ _ => .refl) fun items => .pure (item :: items)

end Alike

/-! ## Rules -/

/-- The node of a rule that begins at `start`, and whether all of it was found. -/
def ruleNode (start : Cursor) : Parse (Option (Node × Bool)) := do
  match ← identifier with
  | none => return none
  | some name =>
    let (parts, complete) ← ruleTail (name.text?.getD "")
    return some (← branchFrom .ruleDefinition start (name :: parts), complete)

theorem rule_eq : rule = (do
    let start ← cursor
    let before ← errorCount
    match ← ruleNode start with
    | none => return none
    | some (node, complete) => return some ⟨node, complete && (← errorCount) == before⟩) := by
  simp only [rule, ruleNode, bind_assoc]
  refine bind_congr fun start => bind_congr fun before => bind_congr fun name => ?_
  cases name with
  | none => rfl
  | some name => simp only [bind_assoc, pure_bind]

theorem ruleNode_impartial (start : Cursor) : Impartial (ruleNode start) := by
  refine .bind (identifier_contract (K := .impartial)) ?_
  rintro (_ | name)
  · exact .pure none
  · refine .bind (ruleTail_contract (K := .impartial) _) fun tail => ?_
    exact .bind (branchFrom_contract (K := .impartial) .settled _ start _) fun node => .pure _

/-- How many errors a rule adds does not depend on how many there were. -/
theorem rule_alike : Alike rule := by
  intro limits deep earlier s
  rw [rule_eq, both_cursor, both_errorCount]
  refine Both.bind ((ruleNode_impartial s.cursor).alike limits deep earlier s) ?_
  rintro (_ | ⟨node, complete⟩) s' _ _ (⟨rfl, rfl⟩ | full)
  · exact .inl ⟨rfl, rfl⟩
  · exact Grows.full (fun _ _ => .refl) full
  · refine .inl ⟨?_, rfl⟩
    have added : ((s'.after earlier).errors.length == (s.after earlier).errors.length) =
        (s'.errors.length == s.errors.length) := by
      simp only [ParseState.length_after, Bool.beq_eq_decide_eq, Nat.add_left_cancel_iff]
    show some (Rule.mk node (complete && _)) = _
    rw [added]
    rfl
  · exact Grows.full (fun _ _ => .refl) full

theorem nextRule_alike : Alike nextRule := by
  intro limits deep earlier s
  by_cases full : limits.errors ≤ earlier.length + s.errors.length
  · exact nextRule_carries.grows.full full
  · have room : decide (limits.errors ≤ s.errors.length) = false := decide_eq_false (by omega)
    have roomAfter : decide (limits.errors ≤ (s.after earlier).errors.length) = false :=
      decide_eq_false (by rwa [ParseState.length_after])
    rw [nextRule, both_cursor, both_errorsFull, room, roomAfter, ParseState.cursor_after]
    split
    · exact .inl ⟨rfl, rfl⟩
    · refine Both.bind (rule_alike limits deep earlier s) ?_
      rintro (_ | rule) s' _ _ (⟨rfl, rfl⟩ | full)
      · exact .inl ⟨rfl, rfl⟩
      · exact (leavingRule_grows none).full full
      · dsimp only
        split
        · exact .inl ⟨rfl, rfl⟩
        · exact .inl ⟨rfl, rfl⟩
      · exact (leavingRule_grows (some rule)).full full

theorem nextRules_alike (fuel : Nat) : Alike (manyFuel nextRule fuel) :=
  nextRule_alike.manyFuel nextRule_carries.grows fuel

/-! ## Reading up to a rule -/

/-- Reading up to some item, and then the rest of them: the fuel of the whole lasts for both. The induction
is on the number of items in front. -/
theorem Ensures.manyInTwo {step : Parse (Option α)} (traceless : Traceless step) (consumes : Consumes step)
    {n fuel : Nat} {post : List α → ParseState → Prop} (enough : s.cursor.rest.length < fuel)
    (h : Ensures limits s (Parse.manyFuel step n) fun front t => ∀ fuel', t.cursor.rest.length < fuel' →
      Ensures limits t (Parse.manyFuel step fuel') fun more u => post (front ++ more) u) :
    Ensures limits s (Parse.manyFuel step fuel) post := by
  induction n generalizing s fuel post with
  | zero => exact h fuel enough
  | succ n ih =>
    obtain ⟨fuel, rfl⟩ : ∃ k, fuel = k + 1 := ⟨fuel - 1, by omega⟩
    rw [ensures_manyFuel_succ] at h ⊢
    have stops : Ensures limits s step fun r t => r = none → t = s ∧ Declines limits s step :=
      fun none => ⟨traceless limits s none, none, traceless limits s none⟩
    refine ((h.and stops).and (consumes limits s)).mono ?_
    rintro r t ⟨⟨⟨nothing, further⟩, stops⟩, shorter⟩
    refine ⟨?_, ?_⟩
    · -- Where the step finds nothing, reading on from there finds nothing, with any fuel.
      intro none
      obtain ⟨rfl, declines⟩ := stops none
      obtain ⟨⟨nothingMore, same⟩, done⟩ :=
        (declines.manyFuel (fuel + 1)).and (nothing none (fuel + 1) enough)
      rw [nothingMore, same] at done
      exact done
    · rintro item rfl
      have := shorter rfl
      exact ih (by omega) (further item rfl)

theorem statements_eq : statements = statementsWith (many nextRule) := by
  simp only [statements, importsFrom, resolverFrom, rulesFrom, statementsWith]

/-- What follows the rules in front may be read as all the rules are. -/
theorem statements_inTwo {n : Nat} {post : List Node → ParseState → Prop}
    (h : Ensures limits s (statementsWith (manyFuel nextRule n)) fun front t =>
      ∀ fuel, t.cursor.rest.length < fuel →
        Ensures limits t (manyFuel nextRule fuel) fun more u => post (front ++ more) u) :
    Ensures limits s statements post := by
  rw [statements_eq]
  simp only [statementsWith, ensures_bind, ensures_skipBlank, ensures_pure] at h ⊢
  refine h.mono fun version s₁ h => h.mono fun imports s₂ h => h.mono fun resolver s₃ h => ?_
  rw [many, ensures_bind, ensures_cursor]
  refine Ensures.manyInTwo nextRule_traceless nextRule_consumes (Nat.lt_succ_self _) (h.mono ?_)
  intro front t h fuel enough
  simpa only [List.append_assoc] using h fuel enough

end Parse

/-- Reads a document up to its rule number `n`, where the first one has number zero: the statements in front
of it, and the state in which it is read. -/
def readUpTo (limits : Limits) (n : Nat) (text : List Char) : List Node × ParseState :=
  ((Parse.statementsWith (Parse.manyFuel Parse.nextRule n)).run limits).run ⟨.ofChars text, [], false⟩

theorem readUpTo_reaches (limits : Limits) (n : Nat) (text : List Char) :
    (Cursor.ofChars text).Reaches (readUpTo limits n text).2.cursor := by
  have kept := Parse.statementsWith_carries (Parse.nextRule_carries.manyFuel n) text limits
    ⟨.ofChars text, [], false⟩
  exact (kept.state (ParseState.settled_start text)).reached

/-- A document is what is in front of a rule, and what its rules are read as from there on. -/
theorem readWithin_inTwo {limits : Limits} {n : Nat} {text : List Char} {front : List Node} {s : ParseState}
    (post : List Node → ParseState → Prop) (reads : readUpTo limits n text = (front, s))
    (h : ∀ fuel, s.cursor.rest.length < fuel →
      Parse.Ensures limits s (Parse.manyFuel Parse.nextRule fuel) fun more t => post (front ++ more) t) :
    post (readWithin limits text).1.children (readWithin limits text).2 := by
  have all : Parse.Ensures limits ⟨.ofChars text, [], false⟩ Parse.statements post := by
    refine Parse.statements_inTwo (n := n) ?_
    rw [readUpTo] at reads
    rw [Parse.Ensures, reads]
    exact h
  obtain ⟨statements, state, runs, children, final⟩ := readWithin_eq limits text
  rw [Parse.Ensures, runs] at all
  rw [children, final]
  exact all

/-- Where a rule is all that is left, it stands behind the lines above it. -/
theorem Cursor.eq_behindLines {above line : List Char} {c : Cursor} (rule : startsRule line = true)
    (reached : (Cursor.ofChars (above ++ '\n' :: line)).Reaches c) (rest : c.rest = line) :
    c = (Frame.behindLines above line).lift (Cursor.ofChars line) := by
  obtain ⟨n, rfl⟩ := reached
  rw [Cursor.rest_advanceBy] at rest
  have some : line ≠ [] := by
    rintro rfl
    cases rule
  have index : n = above.length + 1 := by
    have left : ((above ++ '\n' :: line).drop n).length = line.length := congrArg List.length rest
    rw [List.length_drop, List.length_append, List.length_cons] at left
    have := List.length_pos_iff.2 some
    omega
  have front : Cursor.ofChars (above ++ '\n' :: line) =
      (Frame.front above rule).lift (Cursor.ofChars above) := rfl
  have fits : above.length ≤ (Cursor.ofChars above).rest.length := Nat.le_refl _
  rw [index, Cursor.advanceBy_add, front, ← Frame.lift_advanceBy fits]
  refine Frame.advance_front (Cursor.reaches_advanceBy _ _) ?_
  rw [Cursor.rest_advanceBy]
  exact List.drop_length

namespace Parse

variable {above line : List Char} {limits : Limits} {s : ParseState}

/-- A rule behind lines and errors is read as it is by itself. -/
theorem rules_alone (rule : startsRule line = true) (deep : 0 < limits.depth)
    (cursor : s.cursor = (Frame.behindLines above line).lift (Cursor.ofChars line))
    (unnested : s.nestingReported = false)
    (room : s.errors.length + (readWithin limits line).2.errors.length < limits.errors) {fuel : Nat}
    (enough : s.cursor.rest.length < fuel) :
    Ensures limits s (manyFuel nextRule fuel) fun more t =>
      t.errors = s.errors ++
          (readWithin limits line).2.errors.map (SyntaxError.down (above.count '\n' + 1)) ∧
        more = (readWithin limits line).1.children.map (Node.down (above.count '\n' + 1)) := by
  -- Without the errors above, the reading is compared twice: with that of the rule by itself, which starts
  -- elsewhere, and with the one from `s`, which starts behind those errors.
  have aligned : Aligned (.behindLines above line) ⟨.ofChars line, [], false⟩ { s with errors := [] } :=
    ⟨.refl _, cursor, rfl, fun _ => rfl, unnested⟩
  have alone : Ensures limits { s with errors := [] } (manyFuel nextRule fuel) fun more t =>
      Matched (Aligned (.behindLines above line)) (Frame.behindLines above line).lines
        (readWithin limits line).1.children (readWithin limits line).2 more t :=
    (readWithin_behindLines rule aligned enough).mono fun _ _ ends => ends.whole rfl
  have start : ParseState.after s.errors { s with errors := [] } = s := by
    rw [ParseState.after, List.append_nil]
  have alike := nextRules_alike fuel limits deep s.errors { s with errors := [] }
  rw [start] at alike
  have ends : Ensures limits s (manyFuel nextRule fuel) fun more' t => ∃ more s',
      Matched (Aligned (.behindLines above line)) (Frame.behindLines above line).lines
        (readWithin limits line).1.children (readWithin limits line).2 more s' ∧
        SameAfter limits s.errors more s' more' t := ⟨_, _, alone, alike⟩
  refine ends.mono ?_
  rintro more' t ⟨more, s', ⟨rfl, states⟩, ⟨rfl, rfl⟩ | full⟩
  · have errors := states.errors rfl
    rw [Frame.lines_behindLines] at errors
    refine ⟨?_, ?_⟩
    · rw [← errors]
      rfl
    · rw [Frame.lines_behindLines]
      rfl
  · rw [states.count] at full
    omega

end Parse

theorem readWithin_joined {limits : Limits} {above line : List Char} {n : Nat} {front : List Node}
    {s : ParseState} (rule : startsRule line = true) (deep : 0 < limits.depth)
    (reads : readUpTo limits n (above ++ '\n' :: line) = (front, s)) (atRule : s.cursor.rest = line)
    (unnested : s.nestingReported = false)
    (room : s.errors.length + (readWithin limits line).2.errors.length < limits.errors) :
    (readWithin limits (above ++ '\n' :: line)).2.errors = s.errors ++
        (readWithin limits line).2.errors.map (SyntaxError.down (above.count '\n' + 1)) ∧
      (readWithin limits (above ++ '\n' :: line)).1.children = front ++
        (readWithin limits line).1.children.map (Node.down (above.count '\n' + 1)) := by
  have reached := readUpTo_reaches limits n (above ++ '\n' :: line)
  rw [reads] at reached
  have cursor := Cursor.eq_behindLines rule reached atRule
  refine readWithin_inTwo (fun all t => t.errors = _ ∧ all = _) reads fun fuel enough => ?_
  refine (Parse.rules_alone rule deep cursor unnested room enough).mono ?_
  rintro more t ⟨errors, rfl⟩
  exact ⟨errors, rfl⟩

/-- **A rule is read as it is read by itself.** Where the reading of a document has come to a line that starts
a rule, and nesting was not complained about in front of it, the document has the rules and the errors of what
is left by itself, moved down behind the statements and the errors in front, as long as there is room for the
errors of both. -/
theorem rule_read_by_itself {above line : String} {n : Nat} {front : List Node} {s : ParseState}
    (rule : startsRule line.toList = true)
    (reads : readUpTo .standard n (above ++ "\n" ++ line).toList = (front, s))
    (atRule : s.cursor.rest = line.toList) (unnested : s.nestingReported = false)
    (room : s.errors.length + (readDocument line).errors.length < Limits.standard.errors) :
    (readDocument (above ++ "\n" ++ line)).errors = s.errors ++
        (readDocument line).errors.map (SyntaxError.down (above.toList.count '\n' + 1)) ∧
      (readDocument (above ++ "\n" ++ line)).tree.children = front ++
        (readDocument line).tree.children.map (Node.down (above.toList.count '\n' + 1)) := by
  rw [errors_readDocument] at room
  rw [errors_readDocument, errors_readDocument, tree_readDocument, tree_readDocument]
  rw [toList_joined] at reads ⊢
  exact readWithin_joined rule (by decide) reads atRule unnested room

theorem rule_read_by_itself_unclosed :
    (readUpTo .standard 1 ("a = [b" ++ "\n" ++ "c = ()\nd = (e |").toList).2.cursor.rest =
        "c = ()\nd = (e |".toList ∧
      (readDocument ("a = [b" ++ "\n" ++ "c = ()\nd = (e |")).errors.map SyntaxError.message =
        ["Expected ']' to close character class", "Expected expression after '('",
          "Expected expression after '|'", "Expected closing parenthesis"] ∧
      (readDocument ("a = [b" ++ "\n" ++ "c = ()\nd = (e |")).tree.children =
        (readUpTo .standard 1 ("a = [b" ++ "\n" ++ "c = ()\nd = (e |").toList).1 ++
          (readDocument "c = ()\nd = (e |").tree.children.map (Node.down 1) := by
  have atRule : (readUpTo .standard 1 ("a = [b" ++ "\n" ++ "c = ()\nd = (e |").toList).2.cursor.rest =
      "c = ()\nd = (e |".toList := by decide +kernel
  obtain ⟨errors, children⟩ := rule_read_by_itself (by decide) (Prod.eta _).symm atRule
    (by decide +kernel) (by decide +kernel)
  refine ⟨atRule, ?_, children⟩
  rw [errors]
  decide +kernel

/-- Below a nesting that goes too deep, an empty group is not complained about. -/
example :
    (readDocument "b = ()").errors.map SyntaxError.message = ["Expected expression after '('"] ∧
      (readDocument ("a = " ++ String.ofList (List.replicate 65 '(') ++ "\nb = ()")).errors.map
        SyntaxError.message = ["Expression nesting too deep (maximum depth is 64)"] := by
  decide +kernel

end PatternRules

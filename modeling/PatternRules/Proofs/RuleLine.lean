import PatternRules.Proofs.Twin.Document

/-!
A line that starts a rule ends the statement in front of it. The readings of a text by itself and of the
text with such a line behind it are in step up to the seam (`readWithin_front`), and from the seam on the
reading is in step with that of the rule by itself.

* `rule_line_ends_statement`: two documents that are read to their end without complaint, the second of
  which starts with a rule, are read as one document like each by itself;
* `rule_survives_errors`: a rule behind a text that is complained about is found.

The options of an import or a clause are announced by the word `with`, which is not looked at as the name of
a rule. So a rule of that name is read as options behind a statement that has none (`statementAwaits`). Nor
is a rule found behind a text whose last statement is left open (`SyntaxError.LeavesOpen`).
-/

namespace PatternRules

/-! ## The two frames -/

/-- A text in front of a rule. -/
def Frame.front (text : List Char) {line : List Char} (rule : startsRule line = true) : Frame :=
  ⟨[], text, '\n' :: line, .inl rfl, .inr ⟨line, rfl, rule⟩⟩

/-- A text behind other lines. -/
def Frame.behindLines (above text : List Char) : Frame :=
  ⟨above ++ ['\n'], text, [], .inr ⟨above, rfl⟩, .inl rfl⟩

theorem Span.down_zero (s : Span) : s.down 0 = s := rfl

mutual

theorem Node.down_zero : (n : Node) → n.down 0 = n
  | ⟨kind, value, children, span⟩ => by rw [down, downAll_zero children, Span.down_zero]

theorem Node.downAll_zero : (ns : List Node) → downAll 0 ns = ns
  | [] => by rw [downAll]
  | n :: ns => by rw [downAll, down_zero n, downAll_zero ns]

end

theorem Frame.lines_behindLines (above text : List Char) :
    (Frame.behindLines above text).lines = above.count '\n' + 1 := by
  rw [lines, behindLines, List.count_append]
  rfl

/-- The rule behind a text stands as if it were read behind the lines of the text. -/
theorem Frame.advance_front {text line : List Char} {rule : startsRule line = true} {c : Cursor}
    (reached : (Cursor.ofChars text).Reaches c) (atEnd : c.rest = []) :
    ((Frame.front text rule).lift c).advance =
      (Frame.behindLines text line).lift (Cursor.ofChars line) := by
  obtain ⟨pos, number⟩ : c.pos = text.length ∧ c.line = text.count '\n' + 1 :=
    Cursor.at_end_of_text reached atEnd
  have rest : ((Frame.front text rule).lift c).rest = '\n' :: line := by
    rw [Frame.rest_lift, atEnd]
    rfl
  have whole : (Frame.front text rule).whole = (Frame.behindLines text line).whole := by
    simp [Frame.whole, Frame.front, Frame.behindLines]
  have above : (text ++ ['\n']).length = text.length + 1 := by simp
  have lines := Frame.lines_behindLines text line
  rw [Cursor.advance_newline rest]
  show Cursor.mk (.ofChars (Frame.front text rule).whole) line (c.pos + 0 + 1) (c.line + 0 + 1) 1 =
    Cursor.mk (.ofChars (Frame.behindLines text line).whole) (line ++ [])
      (0 + (text ++ ['\n']).length) (1 + (Frame.behindLines text line).lines) 1
  rw [whole, pos, number, above, lines, List.append_nil, Nat.zero_add, Nat.add_comm 1]

theorem Seam.cursor_eq {text line : List Char} {rule : startsRule line = true} {s t : ParseState}
    (h : Seam (.front text rule) s t) :
    t.cursor = (Frame.behindLines text line).lift (Cursor.ofChars line) := by
  rw [h.cursor]
  exact Frame.advance_front h.reached h.atEnd

/-! ## Reading all statements -/

theorem readWithin_eq (limits : Limits) (text : List Char) : ∃ statements state,
    (Parse.statements.run limits).run ⟨.ofChars text, [], false⟩ = (statements, state) ∧
      (readWithin limits text).1.children = statements ∧ (readWithin limits text).2 = state := by
  rw [readWithin, Parse.document_eq]
  exact ⟨_, _, rfl, rfl, rfl⟩

namespace Parse

variable {text line : List Char} {limits : Limits} {s t : ParseState}

/-- The readings of a text by itself and in front of a rule. -/
theorem readWithin_front (rule : startsRule line = true) (limits : Limits) :
    RulesEnd (.front text rule) limits (readWithin limits text).1.children (readWithin limits text).2
      (readWithin limits (text ++ '\n' :: line)).1.children
      (readWithin limits (text ++ '\n' :: line)).2 := by
  have aligned : Aligned (.front text rule) ⟨.ofChars text, [], false⟩
      ⟨.ofChars (text ++ '\n' :: line), [], false⟩ :=
    ⟨.refl _, rfl, rfl, fun _ => rfl, rfl⟩
  have both := @statements_both (.front text rule) limits _ _ aligned
  obtain ⟨a, s, runs, children, state⟩ := readWithin_eq limits text
  obtain ⟨b, t, runs', children', state'⟩ := readWithin_eq limits (text ++ '\n' :: line)
  rw [children, children', state, state']
  simpa only [Both, Ensures, runs, runs'] using both

/-- A document that starts with a rule has nothing but rules. -/
theorem statements_of_startsRule (rule : startsRule s.cursor.rest = true) :
    Ensures limits s statements fun a t => Ensures limits s (many nextRule) fun b u => a = b ∧ t = u := by
  have keyword (word : String) : s.cursor.atKeyword word = false := by
    rw [Cursor.atKeyword, Cursor.atRuleStart, rule, Bool.not_true, Bool.and_false]
  have blank : s.cursor.skipBlank = s.cursor := by
    rw [Cursor.skipBlank, Frame.blankRun_of_startsRule rule]
    rfl
  have version : Ensures limits s versionSection fun a t => a = [] ∧ t = s := by
    simp only [versionSection, ensures_bind, ensures_cursor, keyword, Bool.false_eq_true, if_false,
      ensures_pure, and_self]
  have noImport : Declines limits s nextImport := by
    simp only [Declines, nextImport, ensures_bind, ensures_cursor, keyword, Bool.false_eq_true, if_false,
      ensures_pure, and_self]
  have imports : Ensures limits s (many nextImport) fun a t => a = [] ∧ t = s := by
    rw [many, ensures_bind, ensures_cursor, manyFuel]
    refine Ensures.bind noImport ?_
    rintro _ _ ⟨rfl, rfl⟩
    exact ⟨rfl, rfl⟩
  have resolver : Ensures limits s resolverSection fun a t => a = [] ∧ t = s := by
    simp only [resolverSection, atResolverDefault, ensures_bind, ensures_cursor, keyword, ensures_pure,
      Bool.false_and, Bool.false_eq_true, if_false, and_self]
  rw [statements, ensures_bind, ensures_skipBlank, blank]
  refine version.bind ?_
  rintro _ _ ⟨rfl, rfl⟩
  refine imports.bind ?_
  rintro _ _ ⟨rfl, rfl⟩
  refine resolver.bind ?_
  rintro _ _ ⟨rfl, rfl⟩
  exact ⟨rfl, rfl⟩

/-- A document that starts with a rule is read as its rules are. -/
theorem readWithin_of_startsRule (rule : startsRule text = true) (limits : Limits) :
    Ensures limits ⟨.ofChars text, [], false⟩ (many nextRule) fun rules t =>
      (readWithin limits text).1.children = rules ∧ (readWithin limits text).2 = t := by
  obtain ⟨statements, state, runs, children, same⟩ := readWithin_eq limits text
  have rules := @statements_of_startsRule limits ⟨.ofChars text, [], false⟩ rule
  rw [Ensures, runs] at rules
  rw [children, same]
  exact rules

/-- A rule that starts at a place. -/
structure RuleAt (place : Position) (n : Node) : Prop where
  kind : n.kind = .ruleDefinition
  name : ∃ name ∈ n.children.head?, name.kind = .identifier ∧ name.span.start = place

theorem rule_finds (start : s.cursor.peek.any isIdentStart = true) :
    Ensures limits s rule fun r _ => ∃ rule, r = some rule ∧ RuleAt s.cursor.position rule.node := by
  rw [rule, ensures_bind, ensures_cursor, ensures_bind, ensures_errorCount]
  refine (identifier_of_start start).bind ?_
  rintro _ _ ⟨name, rfl, kind, place, -, rfl⟩
  exact ⟨_, rfl, rfl, name, rfl, kind, place⟩

/-- A rule is found where one starts, as long as there is room for errors. -/
theorem nextRule_finds (rule : startsRule s.cursor.rest = true)
    (room : s.errors.length < limits.errors) :
    Ensures limits s nextRule fun r _ => ∃ node, r = some node ∧ RuleAt s.cursor.position node := by
  have start : s.cursor.peek.any isIdentStart = true := by
    rw [startsRule, Bool.and_eq_true] at rule
    exact rule.1
  have left : s.cursor.atEnd = false := by
    obtain ⟨c, next, -⟩ := (Option.any_eq_true _ _).1 start
    rw [Cursor.atEnd, List.isEmpty_eq_false_iff]
    exact left_of_peek next
  have notFull : decide (limits.errors ≤ s.errors.length) = false := decide_eq_false (Nat.not_le.2 room)
  rw [nextRule, ensures_bind, ensures_cursor, ensures_bind, ensures_errorsFull, left, notFull]
  refine (rule_finds start).bind ?_
  rintro _ t ⟨rule, rfl, found⟩
  dsimp only
  split
  · exact ⟨_, rfl, found⟩
  · exact ⟨_, rfl, found⟩

/-- The readings of a rule by itself and behind the lines of a text. -/
theorem readWithin_behindLines {above : List Char} (rule : startsRule line = true)
    (aligned : Aligned (.behindLines above line) ⟨.ofChars line, [], false⟩ t) {fuel : Nat}
    (enough : t.cursor.rest.length < fuel) :
    Ensures limits t (manyFuel nextRule fuel) fun more t' => RulesEnd (.behindLines above line) limits
      (readWithin limits line).1.children (readWithin limits line).2 more t' := by
  have both : Both limits ⟨.ofChars line, [], false⟩ t (many nextRule) (manyFuel nextRule fuel)
      (RulesEnd (.behindLines above line) limits) :=
    nextRules_both (.inl ⟨aligned, .inl rfl⟩) (Nat.lt_succ_self _) enough
  obtain ⟨children, state⟩ := readWithin_of_startsRule rule limits
  rw [children, state]
  exact both

/-! ## A rule behind a text -/

theorem RulesEnd.ruleAt {rule : startsRule line = true} {a b : List Node}
    (h : RulesEnd (.front text rule) limits a s b t)
    (noWith : line.takeWhile isWordChar ≠ "with".toList)
    (closed : ∀ e ∈ s.errors, ¬ e.LeavesOpen (line.takeWhile isWordChar) text)
    (toEnd : t.cursor.rest = []) (room : t.errors.length < limits.errors) :
    ∃ n ∈ b, RuleAt ⟨text.count '\n' + 2, 1⟩ n := by
  cases h with
  | stopped matched inside =>
    rw [matched.states.cursor, Frame.rest_lift, List.append_eq_nil_iff] at toEnd
    exact absurd toEnd.2 (List.cons_ne_nil _ _)
  | behind t₁ fuel seam enough further =>
    obtain ⟨fuel, rfl⟩ : ∃ k, fuel = k + 1 := ⟨fuel - 1, by omega⟩
    have grows := (nextRule_carries.grows.manyFuel (fuel + 1) limits t₁).front.length_le
    obtain ⟨children, state⟩ := further
    rw [← state] at grows
    have first : Ensures limits t₁ (manyFuel nextRule (fuel + 1)) fun more _ =>
        ∃ n ∈ more, RuleAt t₁.cursor.position n := by
      refine (nextRule_finds seam.rule (Nat.lt_of_le_of_lt grows room)).bind ?_
      rintro _ t₂ ⟨node, rfl, found⟩
      exact ⟨node, List.mem_cons_self, found⟩
    obtain ⟨n, mem, found⟩ := first
    refine ⟨n, by rw [children]; exact List.mem_append_right _ mem, ?_⟩
    rw [seam.cursor_eq] at found
    have place : ((Frame.behindLines text line).lift (Cursor.ofChars line)).position =
        ⟨text.count '\n' + 2, 1⟩ := by
      show Position.mk (1 + (Frame.behindLines text line).lines) 1 = _
      rw [Frame.lines_behindLines, Nat.add_comm]
    rw [place] at found
    exact found
  | parted h =>
    obtain ⟨-, ⟨e, he, opens⟩ | ⟨-, full⟩⟩ := h
    · exact absurd opens (closed e he)
    · omega
  | taken _ done => exact absurd done.word noWith

theorem RulesEnd.joined {rule : startsRule line = true} {a b : List Node}
    (h : RulesEnd (.front text rule) limits a s b t) (room : 0 < limits.errors)
    (closed : line.takeWhile isWordChar = "with".toList → a.getLast?.any statementAwaits = false)
    (clean : s.errors = []) (notNested : s.nestingReported = false) (toEnd : s.cursor.rest = [])
    (cleanRule : (readWithin limits line).2.errors = []) :
    t.errors = [] ∧
      b = a ++ (readWithin limits line).1.children.map (Node.down (text.count '\n' + 1)) := by
  cases h with
  | stopped matched inside =>
    rcases inside with nothing | left
    · exact absurd nothing (List.cons_ne_nil _ _)
    · exact absurd toEnd left
  | behind t₁ fuel seam enough further =>
    have none : t₁.errors = [] := by
      rw [← List.length_eq_zero_iff, seam.count, clean]
      rfl
    have aligned : Aligned (.behindLines text line) ⟨.ofChars line, [], false⟩ t₁ :=
      ⟨.refl _, seam.cursor_eq, by rw [none], fun _ => none, by rw [seam.nesting, notNested]⟩
    have rules := @readWithin_behindLines line limits t₁ text rule aligned fuel enough
    obtain ⟨children, state⟩ := further
    rw [Ensures, ← state] at rules
    have front : shift (Frame.front text rule).lines a = a := by
      show a.map (Node.down 0) = a
      rw [← Node.downAll_eq_map, Node.downAll_zero]
    rw [front] at children
    rw [children]
    have matched := rules.whole rfl
    refine ⟨List.length_eq_zero_iff.1 ?_, ?_⟩
    · rw [matched.states.count, cleanRule]
      rfl
    · rw [matched.result, Frame.lines_behindLines]
      rfl
  | parted h =>
    obtain ⟨-, ⟨e, he, -⟩ | ⟨full, -⟩⟩ := h
    · rw [clean] at he
      cases he
    · rw [clean, List.length_nil] at full
      omega
  | taken awaits done =>
    rw [closed done.word] at awaits
    cases awaits

end Parse

/-- Too deep a nesting leaves an error behind. -/
theorem notNested_of_clean {limits : Limits} {text : List Char} (room : 0 < limits.errors)
    (clean : (readWithin limits text).2.errors = []) :
    (readWithin limits text).2.nestingReported = false := by
  rw [← Bool.not_eq_true]
  intro nested
  have kept := Parse.document_carries text limits ⟨.ofChars text, [], false⟩
  rcases kept.nested nested with before | full | more
  · cases before
  · exact absurd full (Nat.not_le.2 room)
  · have grown : ([] : List SyntaxError).length < (readWithin limits text).2.errors.length := more
    rw [clean] at grown
    exact absurd grown (Nat.lt_irrefl _)

/-- The text is read to its end without complaint. -/
structure Clean (text : String) : Prop where
  errors : (readDocument text).errors = []
  rest : (readWithin .standard text.toList).2.cursor.rest = []

instance (text : String) : Decidable (Clean text) :=
  decidable_of_iff
    ((readDocument text).errors = [] ∧ (readWithin .standard text.toList).2.cursor.rest = [])
    ⟨fun h => ⟨h.1, h.2⟩, fun h => ⟨h.errors, h.rest⟩⟩

theorem toList_joined (front line : String) :
    (front ++ "\n" ++ line).toList = front.toList ++ '\n' :: line.toList := by
  simp

/-- **A rule line ends the statement before it**: two clean documents, the second of which starts with a
rule, make one clean document of the statements of both, unless that rule is called `with` and the last
statement of the first document has no options where it may have some. -/
theorem rule_line_ends_statement (front line : String) (rule : startsRule line.toList = true)
    (clean : Clean front) (cleanRule : Clean line)
    (closed : line.toList.takeWhile isWordChar = "with".toList →
      (readDocument front).tree.children.getLast?.any Parse.statementAwaits = false) :
    (readDocument (front ++ "\n" ++ line)).errors = [] ∧
      (readDocument (front ++ "\n" ++ line)).tree.children = (readDocument front).tree.children ++
        (readDocument line).tree.children.map (Node.down (front.toList.count '\n' + 1)) := by
  have room : 0 < Limits.standard.errors := by decide
  have cleanFront := clean.errors
  have cleanLine := cleanRule.errors
  rw [errors_readDocument] at cleanFront cleanLine
  rw [tree_readDocument] at closed
  rw [errors_readDocument, tree_readDocument, tree_readDocument, tree_readDocument, toList_joined]
  exact (Parse.readWithin_front rule .standard).joined room closed cleanFront
    (notNested_of_clean room cleanFront) clean.rest cleanLine

theorem rule_line_ends_statement_with :
    Clean "import \"x\" as a\nr = b | c" ∧ Clean "with = (d)?\ne = f uses m" ∧
      (readDocument ("import \"x\" as a\nr = b | c" ++ "\n" ++ "with = (d)?\ne = f uses m")).errors = [] ∧
      (readDocument ("import \"x\" as a\nr = b | c" ++ "\n" ++ "with = (d)?\ne = f uses m")).tree.children =
        (readDocument "import \"x\" as a\nr = b | c").tree.children ++
          (readDocument "with = (d)?\ne = f uses m").tree.children.map
            (Node.down ("import \"x\" as a\nr = b | c".toList.count '\n' + 1)) := by
  have clean : Clean "import \"x\" as a\nr = b | c" := by decide +kernel
  have cleanRule : Clean "with = (d)?\ne = f uses m" := by decide +kernel
  have closed : (readDocument "import \"x\" as a\nr = b | c").tree.children.getLast?.any
      Parse.statementAwaits = false := by decide +kernel
  exact ⟨clean, cleanRule, rule_line_ends_statement _ _ (by decide) clean cleanRule fun _ => closed⟩

/-- **A rule behind errors is found**: whatever is wrong with a text, a rule on the next line is read, if
reading goes on to the end and no statement of the text is left open there. -/
theorem rule_survives_errors (front line : String) (rule : startsRule line.toList = true)
    (noWith : line.toList.takeWhile isWordChar ≠ "with".toList)
    (closed : ∀ e ∈ (readDocument front).errors,
      ¬ e.LeavesOpen (line.toList.takeWhile isWordChar) front.toList)
    (toEnd : (readWithin .standard (front ++ "\n" ++ line).toList).2.cursor.rest = [])
    (room : (readDocument (front ++ "\n" ++ line)).errors.length < Limits.standard.errors) :
    ∃ n ∈ (readDocument (front ++ "\n" ++ line)).tree.children,
      Parse.RuleAt ⟨front.toList.count '\n' + 2, 1⟩ n := by
  rw [errors_readDocument] at closed room
  rw [tree_readDocument, toList_joined]
  rw [toList_joined] at toEnd room
  exact (Parse.readWithin_front rule .standard).ruleAt noWith closed toEnd room

theorem rule_survives_errors_unclosed :
    (readDocument "r = (a | [b").errors.map SyntaxError.message =
        ["Expected ']' to close character class", "Expected closing parenthesis"] ∧
      ∃ n ∈ (readDocument ("r = (a | [b" ++ "\n" ++ "local = c")).tree.children,
        Parse.RuleAt ⟨"r = (a | [b".toList.count '\n' + 2, 1⟩ n := by
  have messages : (readDocument "r = (a | [b").errors.map SyntaxError.message =
      ["Expected ']' to close character class", "Expected closing parenthesis"] := by decide +kernel
  refine ⟨messages, rule_survives_errors _ _ (by decide) (by decide) ?_ (by decide +kernel)
    (by decide +kernel)⟩
  rintro e he ⟨complaint, c, opens, -, -, rfl⟩
  have message : complaint.message ∈ (readDocument "r = (a | [b").errors.map SyntaxError.message :=
    List.mem_map_of_mem he
  rw [messages] at message
  have word : "local = c".toList.takeWhile isWordChar = "local".toList := by decide
  rw [word] at opens
  cases complaint with
  | argumentMissing => revert message; decide
  | argumentValueMissing => revert message; decide
  | tokensFileMissing => revert message; decide
  | methodMissing => revert message; decide
  | asMissing => revert opens; decide
  | usesMissing => revert opens; decide
  | equalsMissing name =>
    have other : ("local".toList == "default".toList) = false := by decide
    rw [Complaint.leavesOpen, other, Bool.and_false] at opens
    cases opens
  | _ => cases opens

end PatternRules

import PatternRules.Proofs.Twin.Resolver

/-!
Statements are read in step until the seam. The readings may part behind the path of an import and behind
the words `resolver default`, where a rule called `as` or `uses` is taken for the missing word. Behind a
statement that has no options where it may have some (`statementAwaits`) nothing is missing, but a rule called
`with` is taken for the options.
-/

namespace PatternRules

theorem isDigit_of_isIdentStart {c : Char} (h : isIdentStart c = true) : c.isDigit = false := by
  rw [isIdentStart, Bool.or_eq_true] at h
  rcases h with letter | underscore
  · have letter : (decide (c.val ≥ 'A'.val ∧ c.val ≤ 'Z'.val) ||
        (decide (c.val ≥ 'a'.val) && decide (c.val ≤ 'z'.val))) = true := letter
    have behind : '9'.val < c.val := by
      simp only [Bool.or_eq_true, Bool.and_eq_true, decide_eq_true_eq] at letter
      rcases letter with ⟨low, -⟩ | ⟨low, -⟩
      · exact UInt32.lt_of_lt_of_le (by decide) low
      · exact UInt32.lt_of_lt_of_le (by decide) low
    show (decide (c.val ≥ '0'.val) && decide (c.val ≤ '9'.val)) = false
    rw [decide_eq_false (UInt32.not_le.2 behind), Bool.and_false]
  · rw [beq_iff_eq.1 underscore]
    rfl

namespace Parse

variable {F : Frame} {E : Parting} {limits : Limits} {s t : ParseState}

/-! ## Version -/

theorem versionLength_le_length (cs : List Char) : versionLength cs ≤ cs.length := by
  fun_induction versionLength cs with
  | case1 => exact Nat.le_refl 0
  | case2 c cs _ ih => exact Nat.succ_le_succ ih
  | case3 => exact Nat.zero_le _

theorem versionLiteral_follows : Follows F never versionLiteral versionLiteral := by
  intro limits s t aligned
  rw [versionLiteral, followsAt_cursor, aligned.cursor, Frame.any_peek_lift rfl, Frame.rest_lift,
    Frame.versionLength_append_behind]
  split
  · exact (takeLeaf_follows .versionLiteral (versionLength_le_length _) aligned).asSome
  · exact .pure aligned none

theorem versionLiteral_nothing (h : s.cursor.peek.any Char.isDigit = false) :
    Declines limits s versionLiteral := by
  simp only [Declines, versionLiteral, ensures_bind, ensures_cursor, h, Bool.false_eq_true, if_false]
  exact ⟨rfl, rfl⟩

theorem versionLiteral_idle : Idle F versionLiteral := by
  intro limits s t seam
  refine Declines.idleAt seam (versionLiteral_nothing ?_) (versionLiteral_nothing ?_)
  · rw [seam.peek_left]
    rfl
  · obtain ⟨c, next, start⟩ := (Option.any_eq_true _ _).1 seam.any_peek_right
    rw [next]
    exact isDigit_of_isIdentStart start

theorem versionStatement_follows (aligned : Aligned F s t) (fits : 7 ≤ s.cursor.rest.length) :
    FollowsAt F never limits s t versionStatement versionStatement := by
  have literal := (versionLiteral_follows.afterBlank (F := F) versionLiteral_idle).orReport
    .versionNumberMissing
  rw [versionStatement, followsAt_cursor, followsAt_move, aligned.cursor]
  have moved := aligned.advanceBy (n := "version".length) fits
  rw [aligned.cursor] at moved
  refine (literal limits _ _ moved).then ?_
  rintro (_ | literal) s₁ t₁ aligned₁
  · exact branchFrom_follows .versionStatement aligned.reached [] limits s₁ t₁ aligned₁
  · exact branchFrom_follows .versionStatement aligned.reached [literal] limits s₁ t₁ aligned₁

/-! ## Imports -/

theorem nextImportFlag_follows : Follows F never nextImportFlag nextImportFlag := by
  intro limits s t aligned
  refine (seekListItem_follows _ limits s t aligned).then ?_
  rintro (_ | _) s₁ t₁ aligned₁
  · exact .pure aligned₁ none
  · simp only [Shifts.shift_some]
    rw [followsAt_cursor, aligned₁.cursor, Frame.peekWord?_lift]
    cases hword : s₁.cursor.peekWord? with
    | none =>
      refine (reportHere_follows _ limits s₁ t₁ aligned₁).then ?_
      exact fun _ _ _ aligned₂ => .pure aligned₂ none
    | some word =>
      dsimp only
      split
      · refine (takeLeaf_follows .importFlag (length_le_of_peekWord? hword) aligned₁).then ?_
        exact fun flag _ _ aligned₂ => .pure aligned₂ (some [flag])
      · refine (unknownWord_follows _ word limits s₁ t₁ aligned₁).then ?_
        exact fun _ _ _ aligned₂ => .pure aligned₂ (some [])

theorem importOptions_follows : Follows F never importOptions importOptions :=
  optionList_follows nextImportFlag_follows nextImportFlag_reads.moves nextImportFlag_carries.grows

theorem aliasName_follows : Follows F never aliasName aliasName := by
  intro limits s t aligned
  rw [aliasName, followsAt_cursor, aligned.cursor, Frame.atRuleStart_lift]
  split
  · exact .pure aligned none
  · exact identifier_follows limits s t aligned

theorem aliasName_idle : Idle F aliasName := by
  intro limits s t seam
  refine Declines.idleAt seam ?_ ?_
  · have start : s.cursor.atRuleStart = false := by
      rw [Cursor.atRuleStart, seam.atEnd]
      rfl
    simp only [Declines, aliasName, ensures_bind, ensures_cursor, start, Bool.false_eq_true, if_false]
    exact identifier_nothing_atEnd limits s seam.atEnd
  · have start : t.cursor.atRuleStart = true := seam.rule
    simp only [Declines, aliasName, ensures_bind, ensures_cursor, start, if_true]
    exact ⟨rfl, rfl⟩

theorem importTail_complains (atEnd : s.cursor.skipBlank.rest = []) :
    Complains limits s importTail ⟨Complaint.asMissing.message, s.cursor.nextSpan⟩ := by
  refine Ensures.bind (eatWordAfterBlank_nothing (by decide) (by decide) atEnd) ?_
  rintro _ _ ⟨rfl, rfl⟩
  simp only [Bool.false_eq_true, if_false, reportHere, ensures_bind, ensures_cursor, ensures_report,
    ensures_pure]
  exact .refl

theorem importTail_orTakes (aligned : Aligned F s t) :
    FollowsOrTakes F limits s t (·.length == 1) importTail importTail := by
  rcases @eatWordAfterBlank_cases F limits s t "as" (by decide) (by decide) aligned with as | ⟨as, atEnd⟩
  · refine as.thenOrTakes ?_
    rintro (_ | _) s₁ t₁ aligned₁
    · refine FollowsAt.orTakes ((reportHere_follows _ limits s₁ t₁ aligned₁).then ?_)
      exact fun _ _ _ aligned₂ => .pure aligned₂ []
    · refine ((aliasName_follows.afterBlank aliasName_idle).orReport _ limits s₁ t₁ aligned₁).thenOrTakes ?_
      rintro (_ | name) s₂ t₂ aligned₂
      · exact (FollowsAt.pure aligned₂ []).orTakes
      · rcases @eatWordAfterBlank_cases F limits s₂ t₂ "with" (by decide) (by decide) aligned₂ with
          announced | ⟨word, atEnd⟩
        · refine FollowsAt.orTakes (announced.then ?_)
          rintro (_ | _) s₃ t₃ aligned₃
          · exact .pure aligned₃ [name]
          · refine (importOptions_follows limits s₃ t₃ aligned₃).then ?_
            exact fun options _ _ aligned₄ => .pure aligned₄ [name, options]
        · refine .taken (Ensures.bind (eatWordAfterBlank_nothing (by decide) (by decide) atEnd) ?_)
          rintro _ _ ⟨rfl, rfl⟩
          exact ⟨rfl, word, atEnd⟩
  · exact ((importTail_complains atEnd).leftOpen (Frame.behind_of_word as (by decide)) (beq_iff_eq.2 as)
      aligned.reached atEnd aligned.count importTail_carries.grows).orTakes

theorem string_idle : Idle F string := by
  intro limits s t seam
  exact Declines.idleAt seam (string_nothing_atEnd limits s seam.atEnd)
    (string_nothing (seam.peek_right rfl))

/-- A statement behind which options may follow: an import with a path and a name and nothing else, or one
that ends with such a clause. -/
def statementAwaits (n : Node) : Bool :=
  n.kind == .importStatement && n.children.length == 2 || n.children.getLast?.any clauseAwaits

theorem importStatement_orTakes (aligned : Aligned F s t) (fits : 6 ≤ s.cursor.rest.length) :
    FollowsOrTakes F limits s t statementAwaits importStatement importStatement := by
  have node := branchFrom_follows (F := F) (E := leftOpen F) .importStatement aligned.reached
  have path := (string_follows.afterBlank (F := F) string_idle).orReport .importPathMissing
  rw [importStatement, FollowsOrTakes, both_cursor, both_move, aligned.cursor]
  have moved := aligned.advanceBy (n := "import".length) fits
  rw [aligned.cursor] at moved
  refine FollowsAt.thenOrTakes (path limits _ _ moved) ?_
  rintro (_ | path) s₁ t₁ aligned₁
  · exact (node [] limits s₁ t₁ aligned₁).orTakes
  · refine (importTail_orTakes aligned₁).bind ?_ ?_ ?_ ?_
    · exact fun tail s₂ t₂ aligned₂ => node (path :: tail) limits s₂ t₂ aligned₂
    · intro tail s₂ named before
      obtain ⟨name, rfl⟩ := List.length_eq_one_iff.1 (beq_iff_eq.1 named)
      exact ⟨rfl, before⟩
    · exact fun _ _ _ => .refl
    · exact fun _ _ _ => .refl

/-! ## The default resolver -/

theorem usesWithClause_nothing (h : s.cursor.checkWord "uses" = false) :
    Declines limits s usesWithClause := by
  rw [Declines, usesWithClause, ensures_bind, ensures_cursor]
  simp only [ensures_bind, eatWord, accept, ensures_cursor, Cursor.consumeWord?, h, Bool.false_eq_true,
    if_false, ensures_pure, and_self]

theorem usesWithClause_idle (other : F.word ≠ "uses".toList) : Idle F usesWithClause := by
  intro limits s t seam
  exact Declines.idleAt seam (usesWithClause_nothing (seam.checkWord_left (by decide) (by decide)))
    (usesWithClause_nothing (seam.checkWord_right (by decide) other))

theorem defaultClause_orTakes (aligned : Aligned F s t) :
    FollowsOrTakes F limits s t (Option.any clauseAwaits) (orReport .usesMissing (afterBlank usesWithClause))
      (orReport .usesMissing (afterBlank usesWithClause)) := by
  rcases aligned.skipBlank with ⟨inStep, -⟩ | seam
  · exact (FollowsOrTakes.afterBlank aligned (usesWithClause_orTakes inStep)).orReport _
  · by_cases uses : F.word = "uses".toList
    · have nothing : Declines limits s (afterBlank usesWithClause) :=
        (usesWithClause_nothing (seam.checkWord_left (by decide) (by decide))).afterBlank
      exact ((nothing.complains .usesMissing).leftOpen seam.more (beq_iff_eq.2 uses) aligned.reached seam.atEnd
        aligned.count (orReport_grows usesWithClause_tries.afterBlank.grows _)).orTakes
    · have clause : FollowsAt F (leftOpen F) limits s t (afterBlank usesWithClause)
          (afterBlank usesWithClause) :=
        .afterBlankAtSeam aligned seam (usesWithClause_idle uses limits _ _ seam)
      exact (clause.orReport _).orTakes

/-- A statement that ends with a clause. -/
theorem statementAwaits_of_clause {n clause : Node} (h : n.children.getLast? = some clause)
    (awaits : clauseAwaits clause = true) : statementAwaits n = true := by
  rw [statementAwaits, h, Option.any_some, awaits, Bool.or_true]

/-- Where the words `resolver default` come next in the text, they are read in step. -/
theorem resolverDefault_orTakes (aligned : Aligned F s t)
    (first : s.cursor.checkLiteral "resolver" = true)
    (second : ((s.cursor.advanceBy "resolver".length).skipBlank).checkLiteral "default" = true) :
    FollowsOrTakes F limits s t statementAwaits resolverDefault resolverDefault := by
  have node := branchFrom_follows (F := F) (E := leftOpen F) .resolverDefault aligned.reached
  rcases (aligned.advanceBy (length_le_of_checkLiteral first)).skipBlank with ⟨inStep, -⟩ | seam
  · have words := inStep.advanceBy (length_le_of_checkLiteral second)
    rw [resolverDefault, FollowsOrTakes, both_cursor, both_move]
    refine FollowsOrTakes.bind (defaultClause_orTakes words) ?_ ?_ ?_ ?_
    · rw [aligned.cursor]
      rintro (_ | clause) s₁ t₁ aligned₁
      · exact node [] limits s₁ t₁ aligned₁
      · exact node [clause] limits s₁ t₁ aligned₁
    · rintro (_ | clause) s₁ awaits before
      · cases awaits
      · exact ⟨statementAwaits_of_clause rfl awaits, before⟩
    · exact fun _ _ _ => .refl
    · exact fun _ _ _ => .refl
  · have atEnd : (s.cursor.advanceBy "resolver".length).skipBlank.rest = [] := seam.atEnd
    rw [Cursor.checkLiteral, atEnd] at second
    cases second

/-! ## Rules -/

theorem singleEquals_follows : Follows F never singleEquals singleEquals := by
  intro limits s t aligned
  rw [singleEquals, followsAt_cursor, aligned.cursor, Frame.rest_lift, Frame.startsAssignment_append_behind]
  split
  · next assigns =>
    have left : s.cursor.rest ≠ [] := fun nothing => by
      rw [nothing] at assigns
      cases assigns
    have moved := aligned.advance left
    rw [followsAt_move]
    exact .pure moved (some ())
  · exact .pure aligned none

theorem singleEquals_nothing (h : startsAssignment s.cursor.rest = false) :
    Declines limits s singleEquals := by
  simp only [Declines, singleEquals, ensures_bind, ensures_cursor, h, Bool.false_eq_true, if_false]
  exact ⟨rfl, rfl⟩

theorem singleEquals_idle : Idle F singleEquals := by
  intro limits s t seam
  refine Declines.idleAt seam (singleEquals_nothing ?_) (singleEquals_nothing ?_)
  · rw [seam.atEnd]
    rfl
  · obtain ⟨c, rest, hrest, start⟩ := head_of_startsRule seam.rule
    rw [hrest]
    refine startsAssignment_of_ne ?_ rest
    rintro rfl
    cases start

theorem ruleUses_orTakes (aligned : Aligned F s t) :
    FollowsOrTakes F limits s t (Option.any clauseAwaits) ruleUses ruleUses := by
  rw [ruleUses, FollowsOrTakes, both_cursor, aligned.cursor, Frame.atKeyword_lift (by decide)]
  split
  · exact usesWithClause_orTakes aligned
  · exact (FollowsAt.pure aligned none).orTakes

theorem ruleUses_nothing (h : s.cursor.atKeyword "uses" = false) : Declines limits s ruleUses := by
  simp only [Declines, ruleUses, ensures_bind, ensures_cursor, h, Bool.false_eq_true, if_false]
  exact ⟨rfl, rfl⟩

theorem ruleUses_idle : Idle F ruleUses := by
  intro limits s t seam
  exact Declines.idleAt seam (ruleUses_nothing (seam.atKeyword_left (by decide) (by decide)))
    (ruleUses_nothing (seam.atKeyword_right _))

theorem ruleClause_orTakes (aligned : Aligned F s t) :
    FollowsOrTakes F limits s t (Option.any clauseAwaits) (afterBlank ruleUses) (afterBlank ruleUses) := by
  rcases aligned.skipBlank with ⟨inStep, -⟩ | seam
  · exact .afterBlank aligned (ruleUses_orTakes inStep)
  · exact (FollowsAt.afterBlankAtSeam aligned seam (ruleUses_idle limits _ _ seam)).orTakes

theorem ruleTail_orTakes (name : String) (aligned : Aligned F s t) :
    FollowsOrTakes F limits s t (·.1.getLast?.any clauseAwaits) (ruleTail name) (ruleTail name) := by
  refine FollowsAt.thenOrTakes
    ((singleEquals_follows.afterBlank singleEquals_idle).orReport _ limits s t aligned) ?_
  rintro (_ | _) s₁ t₁ aligned₁
  · exact (FollowsAt.pure aligned₁ ([], false)).orTakes
  · refine FollowsAt.thenOrTakes
      ((expression_follows.afterBlank expression_idle).orReport _ limits s₁ t₁ aligned₁) ?_
    rintro (_ | body) s₂ t₂ aligned₂
    · exact (FollowsAt.pure aligned₂ ([], false)).orTakes
    · refine (ruleClause_orTakes aligned₂).bind ?_ ?_ ?_ ?_
      · rintro (_ | clause) s₃ t₃ aligned₃
        · exact .pure aligned₃ ([body], true)
        · exact .pure aligned₃ ([body, clause], true)
      · rintro (_ | clause) s₃ awaits before
        · cases awaits
        · exact ⟨awaits, before⟩
      · exact fun _ _ _ => .refl
      · exact fun _ _ _ => .refl

theorem text?_shift (n : Node) (k : Nat) : (shift k n).text? = n.text? := by
  cases n with
  | mk kind value children span =>
    show (Node.down k ⟨kind, value, children, span⟩).text? = _
    rw [Node.down_mk]
    rfl

theorem rule_orTakes (aligned : Aligned F s t) :
    FollowsOrTakes F limits s t (Option.any (statementAwaits ·.node)) rule rule := by
  rw [rule, FollowsOrTakes, both_cursor, aligned.cursor, both_errorCount, aligned.count]
  refine FollowsAt.thenOrTakes (identifier_follows limits s t aligned) ?_
  rintro (_ | name) s₁ t₁ aligned₁
  · exact (FollowsAt.pure aligned₁ none).orTakes
  · simp only [Shifts.shift_some, text?_shift]
    refine (ruleTail_orTakes _ aligned₁).bind ?_ ?_ ?_ ?_
    · rintro ⟨parts, complete⟩ s₂ t₂ aligned₂
      refine (branchFrom_follows .ruleDefinition aligned.reached (name :: parts) limits s₂ t₂ aligned₂).then ?_
      intro node s₃ t₃ aligned₃
      rw [followsAt_errorCount, aligned₃.count]
      exact .pure aligned₃ (some (Rule.mk node (complete && s₃.errors.length == s.errors.length)))
    · rintro ⟨parts, complete⟩ s₂ awaits before
      obtain ⟨clause, isLast, awaits⟩ := (Option.any_eq_true _ _).1 awaits
      have isLast' : (name :: parts).getLast? = some clause := by
        rw [List.getLast?_cons, Option.mem_def.1 isLast]
        rfl
      exact ⟨statementAwaits_of_clause isLast' awaits, before⟩
    · exact fun _ _ _ => .refl
    · exact fun _ _ _ => .refl

end Parse

end PatternRules

import PatternRules.Proofs.Likeness.Expression
import PatternRules.Proofs.RuleByItself

/-!
Statements of texts that read alike. Arguments, their values and token files are sought behind blanks and
complained about there (`resolverArgument_agrees`, `tokensFile_agrees`); all else that is missing is
complained about where the statement stopped. A statement that a keyword begins is read at corresponding places
(`importStatement_agrees`, `resolverDefault_agrees`, `ruleNode_agrees`).
-/

namespace PatternRules.Parse

variable {L : Likeness} {depth : Nat} {nested : Bool} {c c' : Cursor}

/-! ## Options -/

theorem atEnd_eq (h : L.place c c') (last : c.rest = [] → c'.rest = []) : c'.atEnd = c.atEnd := by
  have both : c'.rest = [] ↔ c.rest = [] :=
    ⟨fun none => List.length_eq_zero_iff.1 (Nat.le_zero.1 ((L.length_le h).trans_eq (by rw [none]; rfl))), last⟩
  rw [Cursor.atEnd, Cursor.atEnd, Bool.eq_iff_iff, List.isEmpty_iff, List.isEmpty_iff]
  exact both

theorem seekListItem_agrees (missing : Complaint) : L.Agrees (seekListItem missing) := by
  intro depth nested c c' h
  refine orReport_agrees (afterBlank_agrees h ?_ ?_) missing
  · intro nested d d' placed last
    rw [agreeAt_cursor, atEnd_eq placed last, L.atRuleStart_eq placed]
    split
    · exact .pure placed none
    · exact .pure placed (some ())
  · have fails : FailsAtEnd (do
        let c ← cursor
        return if c.atEnd || c.atRuleStart then none else some ()) := by
      intro limits s atEnd
      have here : s.cursor.atEnd = true := List.isEmpty_iff.2 atEnd
      rw [Declines, ensures_bind, ensures_cursor, here]
      exact ⟨rfl, rfl⟩
    exact fails.endAlike fails

theorem unknownWord_agrees (complaint : String → Complaint) (word : String) :
    L.Agrees (unknownWord complaint word) := by
  intro depth nested c c' h
  have placed : L.place (c.skipWhile isWordChar) (c'.skipWhile isWordChar) := L.skipWhile h rfl rfl
  rw [unknownWord, agreeAt_cursor, agreeAt_move, agreeAt_spanFrom, L.spanFrom h placed]
  exact report_agreeAt placed _ _

/-- A list in parentheses. -/
theorem closing_agrees {start start' : Cursor} (begins : L.place start start') (h : L.place c c')
    (kind : Kind) (complaint : Complaint) (children : List Node) :
    L.AgreeAt depth nested c c'
      (do
        if !(← eatCharAfterBlank ')') then
          reportHere complaint
        branchFrom kind start (mapTexts L.view children))
      (do
        if !(← eatCharAfterBlank ')') then
          reportHere complaint
        branchFrom kind start' children) := by
  refine (eatCharAfterBlank_agrees (by decide) _ _ _ _ h).bind fun nested d d' closed placed => ?_
  exact complaining_agrees placed _ (reportHere_agrees _)
    fun _ _ _ placed => branchFrom_agrees begins placed kind children

theorem tokensFile_agrees : L.Agrees tokensFile := fun _ _ _ _ h =>
  sought_agrees h rfl (fun _ _ _ placed => string_agrees _ _ _ _ placed) string_nothing_atEnd

theorem optionalTokens_agrees : L.Agrees optionalTokens := by
  intro depth nested c c' h
  rw [optionalTokens, agreeAt_cursor]
  refine (eatCharAfterBlank_agrees (by decide) _ _ _ _ h).bind ?_
  rintro nested d d' (_ | _) placed
  · exact reportHere_then_agrees placed (branchFrom_agrees h placed .optionalTokens []) _
  · refine (commaList_agrees tokensFile_agrees tokensFile_reads.moves _ _ _ _ placed).bind ?_
    exact fun _ _ _ files placed => closing_agrees h placed .optionalTokens _ files

/-- A word does not leave its line. -/
theorem length_word_le_line {word : String} (h : c.peekWord? = some word) :
    word.length ≤ (c.run inLine).length := by
  have whole : word.toList = c.run isWordChar := by
    unfold Cursor.peekWord? at h
    split at h
    · cases h
    · next run => rw [← Option.some.inj h, String.toList_ofList]
  rw [← String.length_toList, whole]
  exact c.length_run_le_line rfl rfl

theorem resolverFlag_agrees : L.Agrees resolverFlag := by
  intro depth nested c c' h
  rw [resolverFlag, agreeAt_cursor, L.peekWord?_eq h]
  cases hword : c.peekWord? with
  | none => exact reportHere_then_agrees h (.pure h []) _
  | some word =>
    have within := length_word_le_line hword
    dsimp only
    split
    · exact (takeLeaf_agrees h .resolverFlag within).bind fun _ _ _ leaf placed => .pure placed [leaf]
    · split
      · rw [agreeAt_move]
        refine (optionalTokens_agrees _ _ _ _ (L.advanceBy h within)).bind fun _ _ _ files placed => ?_
        exact (textNodeFrom_agrees h placed .resolverFlag [files]).bind
          fun _ _ _ node placed => .pure placed [node]
      · exact (unknownWord_agrees _ word _ _ _ _ h).bind fun _ _ _ _ placed => .pure placed []

theorem nextResolverFlag_agrees : L.Agrees nextResolverFlag := by
  intro depth nested c c' h
  refine (seekListItem_agrees _ _ _ _ _ h).bind ?_
  rintro nested d d' (_ | _) placed
  · exact .pure placed none
  · exact some_agrees (resolverFlag_agrees _ _ _ _ placed)

/-- Options behind `with`. -/
theorem optionList_agrees (kind : Kind) {next : Parse (Option (List Node))} (agree : L.Agrees next)
    (moves : Moves next) : L.Agrees (do
      skipInlineBlank
      let start ← cursor
      let flags ← commaList next
      branchFrom kind start flags.flatten) := by
  intro depth nested c c' h
  have begins := place_skipInlineBlank h
  rw [agreeAt_skipInlineBlank, agreeAt_cursor]
  refine (commaList_agrees agree moves _ _ _ _ begins).bind fun _ d d' flags placed => ?_
  have flat : (mapTexts L.view flags).flatten = mapTexts L.view flags.flatten := List.map_flatten.symm
  rw [flat]
  exact branchFrom_agrees begins placed kind flags.flatten

theorem resolverOptions_agrees : L.Agrees resolverOptions :=
  optionList_agrees _ nextResolverFlag_agrees nextResolverFlag_reads.moves

/-! ## Methods -/

theorem resolverArgument_agrees : L.Agrees resolverArgument := by
  intro depth nested c c' h
  rw [resolverArgument, agreeAt_cursor]
  refine (identifier_agrees _ _ _ _ h).bind ?_
  rintro nested d d' (_ | name) placed
  · refine (string_agrees _ _ _ _ placed).bind ?_
    rintro nested d d' (_ | value) placed
    · exact .pure placed none
    · exact some_agrees (branchFrom_agrees h placed .resolverArgument [value])
  · refine (eatCharAfterBlank_agrees (by decide) _ _ _ _ placed).bind ?_
    rintro nested d d' (_ | _) placed
    · exact reportHere_then_agrees placed
        (some_agrees (branchFrom_agrees h placed .resolverArgument [name])) _
    · refine sought_then_agrees placed rfl (fun _ _ _ placed => string_agrees _ _ _ _ placed)
        string_nothing_atEnd ?_
      rintro nested d d' (_ | value) placed
      · exact .pure placed none
      · exact some_agrees (branchFrom_agrees h placed .resolverArgument [name, value])

theorem nextArgument_agrees : L.Agrees nextArgument := fun _ _ _ _ h =>
  sought_agrees h rfl (fun _ _ _ placed => resolverArgument_agrees _ _ _ _ placed)
    resolverArgument_nothing_atEnd

theorem resolverArguments_agrees (h : L.place c c') (here : c.peek = some '(') :
    L.AgreeAt depth nested c c' resolverArguments resolverArguments := by
  rw [resolverArguments, agreeAt_cursor, agreeAt_move]
  have opened := place_advance h here (by decide)
  refine (commaList_agrees nextArgument_agrees nextArgument_reads.moves _ _ _ _ opened).bind ?_
  exact fun _ _ _ arguments placed => closing_agrees h placed .resolverArguments _ arguments

theorem resolverMethod_agrees : L.Agrees resolverMethod := by
  intro depth nested c c' h
  rw [resolverMethod, agreeAt_cursor]
  refine (identifier_agrees _ _ _ _ h).bind ?_
  rintro nested d d' (_ | name) placed
  · exact .pure placed none
  · refine (agreeAt_peek _ _).2 ?_
    simp only [L.peek_iff placed (show inLine '(' = true by decide)]
    split
    · next here =>
      refine (resolverArguments_agrees placed here).bind fun _ _ _ arguments placed => ?_
      exact some_agrees (branchFrom_agrees h placed .resolverMethod [name, arguments])
    · exact some_agrees (branchFrom_agrees h placed .resolverMethod [name])

/-! ## Clauses -/

theorem resolverScope_agrees : L.Agrees resolverScope := by
  intro depth nested c c' h
  rw [resolverScope, agreeAt_cursor, L.peekWord?_eq h]
  cases hword : c.peekWord? with
  | none => exact .pure h none
  | some word =>
    dsimp only
    split
    · exact some_agrees (takeLeaf_agrees h .resolverScope (length_word_le_line hword))
    · exact .pure h none

theorem methodBeforeOptions_agrees : L.Agrees methodBeforeOptions := by
  intro depth nested c c' h
  rw [methodBeforeOptions, agreeAt_cursor, L.checkWord_eq h (by decide), L.atRuleStart_eq h]
  split
  · exact .pure h none
  · exact resolverMethod_agrees _ _ _ _ h

theorem optionsBehindWith_agrees : L.Agrees optionsBehindWith := by
  intro depth nested c c' h
  refine (eatWordAfterBlank_agrees (by decide) (by decide) _ _ _ _ h).bind ?_
  rintro nested d d' (_ | _) placed
  · exact .pure placed []
  · exact (resolverOptions_agrees _ _ _ _ placed).bind fun _ _ _ options placed => .pure placed [options]

theorem afterBlankPart_agrees {α : Type} [HasTexts α] {p : Parse (Option α)} (agree : L.Agrees p)
    (fails : FailsAtEnd p) :
    L.Agrees (afterBlank p) := fun _ _ _ _ h =>
  afterBlank_agrees h (fun _ _ _ placed _ => agree _ _ _ _ placed) (fails.endAlike fails)

theorem usesClause_agrees {start start' : Cursor} (begins : L.place start start') (h : L.place c c') :
    L.AgreeAt depth nested c c' (usesClause start) (usesClause start') := by
  have scope := afterBlankPart_agrees (L := L) resolverScope_agrees resolverScope_nothing_atEnd
  have method := afterBlankPart_agrees (L := L) methodBeforeOptions_agrees methodBeforeOptions_nothing_atEnd
  refine (scope _ _ _ _ h).bind fun nested d d' scope placed => ?_
  refine (method _ _ _ _ placed).bind fun nested d d' method placed => ?_
  have missing : ((mapTexts L.view scope).isNone && (mapTexts L.view method).isNone) =
      (scope.isNone && method.isNone) := by
    cases scope <;> cases method <;> rfl
  rw [missing]
  split
  · exact reportHere_then_agrees placed (branchFrom_agrees begins placed .usesClause []) _
  · refine (optionsBehindWith_agrees _ _ _ _ placed).bind fun _ _ _ options placed => ?_
    have parts : (mapTexts L.view scope).toList ++ (mapTexts L.view method).toList ++
        mapTexts L.view options = mapTexts L.view (scope.toList ++ method.toList ++ options) := by
      cases scope <;> cases method <;> rfl
    rw [parts]
    exact branchFrom_agrees begins placed .usesClause _

theorem usesWithClause_agrees : L.Agrees usesWithClause := by
  intro depth nested c c' h
  rw [usesWithClause, agreeAt_cursor]
  refine (eatWord_agrees (by decide) _ _ _ _ h).bind ?_
  rintro nested d d' (_ | _) placed
  · exact .pure placed none
  · exact some_agrees (usesClause_agrees h placed)

/-! ## Statements -/

theorem versionLiteral_agrees : L.Agrees versionLiteral := by
  intro depth nested c c' h
  rw [versionLiteral, agreeAt_cursor, L.any_peek h rfl rfl, (L.sameLine h).versionLength_eq]
  split
  · exact some_agrees (takeLeaf_agrees h .versionLiteral (versionLength_le c.rest))
  · exact .pure h none

theorem versionLiteral_nothing_atEnd : FailsAtEnd versionLiteral := fun _ _ atEnd =>
  versionLiteral_nothing (by rw [Cursor.peek, atEnd]; rfl)

theorem toList_then_branch {start start' : Cursor} (begins : L.place start start') (h : L.place c c')
    (kind : Kind) (part : Option Node) :
    L.AgreeAt depth nested c c' (branchFrom kind start (mapTexts L.view part).toList)
      (branchFrom kind start' part.toList) := by
  cases part with
  | none => exact branchFrom_agrees begins h kind []
  | some part => exact branchFrom_agrees begins h kind [part]

theorem checkLiteral_of_checkWord {word : String} (h : c.checkWord word = true) :
    c.checkLiteral word = true := by
  rw [Cursor.checkWord, Bool.and_eq_true] at h
  exact h.1

theorem checkWord_of_atKeyword {word : String} (h : c.atKeyword word = true) : c.checkWord word = true := by
  rw [Cursor.atKeyword, Bool.and_eq_true] at h
  exact h.1

theorem place_word (h : L.place c c') {word : String} (all : word.toList.all inLine = true)
    (here : c.checkWord word = true) : L.place (c.advanceBy word.length) (c'.advanceBy word.length) :=
  place_literal h all (checkLiteral_of_checkWord here)

theorem versionStatement_agrees (h : L.place c c') (here : c.atKeyword "version" = true) :
    L.AgreeAt depth nested c c' versionStatement versionStatement := by
  have behind := place_word h (by decide) (checkWord_of_atKeyword here)
  rw [versionStatement, agreeAt_cursor, agreeAt_move]
  have literal := afterBlankPart_agrees (L := L) versionLiteral_agrees versionLiteral_nothing_atEnd
  refine (orReport_agrees (literal _ _ _ _ behind) _).bind fun _ _ _ literal placed => ?_
  exact toList_then_branch h placed .versionStatement literal

theorem nextImportFlag_agrees : L.Agrees nextImportFlag := by
  intro depth nested c c' h
  refine (seekListItem_agrees _ _ _ _ _ h).bind ?_
  rintro nested d d' (_ | _) placed
  · exact .pure placed none
  · refine (agreeAt_cursor _ _).2 ?_
    rw [L.peekWord?_eq placed]
    cases hword : d.peekWord? with
    | none => exact reportHere_then_agrees placed (.pure placed none) _
    | some word =>
      dsimp only
      split
      · exact (takeLeaf_agrees placed .importFlag (length_word_le_line hword)).bind
          fun _ _ _ leaf placed => .pure placed (some [leaf])
      · exact (unknownWord_agrees _ word _ _ _ _ placed).bind fun _ _ _ _ placed => .pure placed (some [])

theorem importOptions_agrees : L.Agrees importOptions :=
  optionList_agrees _ nextImportFlag_agrees nextImportFlag_reads.moves

theorem aliasName_agrees : L.Agrees aliasName := by
  intro depth nested c c' h
  rw [aliasName, agreeAt_cursor, L.atRuleStart_eq h]
  split
  · exact .pure h none
  · exact identifier_agrees _ _ _ _ h

theorem aliasName_nothing_atEnd : FailsAtEnd aliasName := by
  intro limits s atEnd
  have noRule : s.cursor.atRuleStart = false := by rw [Cursor.atRuleStart, atEnd]; rfl
  simp only [Declines, aliasName, ensures_bind, ensures_cursor, noRule, Bool.false_eq_true, if_false]
  exact identifier_nothing_atEnd limits s atEnd

theorem importTail_agrees : L.Agrees importTail := by
  intro depth nested c c' h
  refine (eatWordAfterBlank_agrees (by decide) (by decide) _ _ _ _ h).bind ?_
  rintro nested d d' (_ | _) placed
  · exact reportHere_then_agrees placed (.pure placed []) _
  · have naming := afterBlankPart_agrees (L := L) aliasName_agrees aliasName_nothing_atEnd
    refine (orReport_agrees (naming _ _ _ _ placed) _).bind ?_
    rintro nested d d' (_ | name) placed
    · exact .pure placed []
    · refine (eatWordAfterBlank_agrees (by decide) (by decide) _ _ _ _ placed).bind ?_
      rintro nested d d' (_ | _) placed
      · exact .pure placed [name]
      · exact (importOptions_agrees _ _ _ _ placed).bind
          fun _ _ _ options placed => .pure placed [name, options]

theorem importStatement_agrees (h : L.place c c') (here : c.atKeyword "import" = true) :
    L.AgreeAt depth nested c c' importStatement importStatement := by
  have behind := place_word h (by decide) (checkWord_of_atKeyword here)
  have path := afterBlankPart_agrees (L := L) string_agrees string_nothing_atEnd
  rw [importStatement, agreeAt_cursor, agreeAt_move]
  refine (orReport_agrees (path _ _ _ _ behind) _).bind ?_
  rintro nested d d' (_ | path) placed
  · exact branchFrom_agrees h placed .importStatement []
  · refine (importTail_agrees _ _ _ _ placed).bind fun _ _ _ tail placed => ?_
    exact branchFrom_agrees h placed .importStatement (path :: tail)

theorem checkWord_atEnd {word : String} (all : word.toList.all isWordChar = true) (ne : word.toList ≠ [])
    (atEnd : c.rest = []) : c.checkWord word = false := by
  rw [← Bool.not_eq_true, Cursor.checkWord_iff all, atEnd]
  exact ne.symm

theorem usesWithClause_nothing_atEnd : FailsAtEnd usesWithClause := fun _ _ atEnd =>
  usesWithClause_nothing (checkWord_atEnd (by decide) (by decide) atEnd)

/-- Behind the blanks behind a word, another one comes next. -/
theorem checkWord_skipBlank_eq (h : L.place c c') {word : String}
    (all : word.toList.all isWordChar = true) (ne : word.toList ≠ []) :
    c'.skipBlank.checkWord word = c.skipBlank.checkWord word := by
  rcases L.skipBlank h with ⟨placed, -⟩ | finished
  · exact L.checkWord_eq placed all
  · obtain ⟨atEnd, atEnd'⟩ := L.atEnd finished
    rw [checkWord_atEnd all ne atEnd, checkWord_atEnd all ne atEnd']

theorem resolverDefault_agrees (h : L.place c c') (first : c.atKeyword "resolver" = true)
    (second : (c.advanceBy "resolver".length).skipBlank.checkWord "default" = true) :
    L.AgreeAt depth nested c c' resolverDefault resolverDefault := by
  have words : L.place ((c.advanceBy "resolver".length).skipBlank.advanceBy "default".length)
      ((c'.advanceBy "resolver".length).skipBlank.advanceBy "default".length) := by
    have behind := place_word h (by decide) (checkWord_of_atKeyword first)
    rcases L.skipBlank behind with ⟨placed, -⟩ | finished
    · exact place_word placed (by decide) second
    · rw [checkWord_atEnd (by decide) (by decide) (L.atEnd finished).1] at second
      cases second
  have clause := afterBlankPart_agrees (L := L) usesWithClause_agrees usesWithClause_nothing_atEnd
  rw [resolverDefault, agreeAt_cursor, agreeAt_move]
  refine (orReport_agrees (clause _ _ _ _ words) _).bind fun _ _ _ clause placed => ?_
  exact toList_then_branch h placed .resolverDefault clause

/-! ## Rules -/

theorem singleEquals_agrees : L.Agrees singleEquals := by
  intro depth nested c c' h
  rw [singleEquals, agreeAt_cursor, (L.sameLine h).startsAssignment_eq]
  split
  · next assigns =>
    rw [agreeAt_move]
    have sign : c.peek = some '=' := by
      unfold startsAssignment at assigns
      split at assigns
      · cases assigns
      · next rest => rw [Cursor.peek, rest]; rfl
      · cases assigns
    exact .pure (place_advance h sign (by decide)) (some ())
  · exact .pure h none

theorem singleEquals_nothing_atEnd : FailsAtEnd singleEquals := fun _ _ atEnd =>
  singleEquals_nothing (by rw [atEnd]; rfl)

theorem ruleUses_agrees : L.Agrees ruleUses := by
  intro depth nested c c' h
  rw [ruleUses, agreeAt_cursor, L.atKeyword_eq h (by decide)]
  split
  · exact usesWithClause_agrees _ _ _ _ h
  · exact .pure h none

theorem ruleUses_nothing_atEnd : FailsAtEnd ruleUses := fun _ _ atEnd =>
  ruleUses_nothing (by rw [Cursor.atKeyword, checkWord_atEnd (by decide) (by decide) atEnd]; rfl)

theorem ruleTail_agrees (name : String) : L.Agrees (ruleTail name) := by
  intro depth nested c c' h
  have sign := afterBlankPart_agrees (L := L) singleEquals_agrees singleEquals_nothing_atEnd
  have clause := afterBlankPart_agrees (L := L) ruleUses_agrees ruleUses_nothing_atEnd
  refine (orReport_agrees (sign _ _ _ _ h) _).bind ?_
  rintro nested d d' (_ | _) placed
  · exact .pure placed ([], false)
  · have body : L.AgreeAt depth nested d d' (afterBlank expression) (afterBlank expression) :=
      expressionWithin_agrees depth depth nested d d' placed
    refine (orReport_agrees body _).bind ?_
    rintro nested d d' (_ | body) placed
    · exact .pure placed ([], false)
    · refine (clause _ _ _ _ placed).bind ?_
      rintro _ _ _ (_ | clause) placed
      · exact .pure placed ([body], true)
      · exact .pure placed ([body, clause], true)

/-- A rule. Its name is in its line and so the same in both texts. -/
theorem ruleNode_agrees (h : L.place c c') :
    L.AgreeAt depth nested c c' (ruleNode c) (ruleNode c') := by
  have placed := L.advanceBy h (c.length_run_le_line (p := isWordChar) rfl rfl)
  have run := L.run_eq h (p := isWordChar) rfl rfl
  rw [ruleNode, ruleNode, identifier, bind_assoc, bind_assoc, agreeAt_cursor, L.any_peek h rfl rfl, run]
  split
  · simp only [takeLeaf, bind_assoc, pure_bind]
    rw [agreeAt_cursor, agreeAt_move]
    refine textNodeFrom_then h placed [] fun name value => ?_
    have whole : (c'.advanceBy (c.run isWordChar).length).textSince c' = c.run isWordChar := by
      rw [← run, textSince_run]
    have seen := L.text h placed
    rw [textSince_run, whole] at seen
    have word : (mapTexts L.view name).text?.getD "" = name.text?.getD "" := by
      obtain ⟨kind, value, children, span⟩ := name
      subst value
      rw [whole]
      exact seen.symm
    show L.AgreeAt depth nested _ _ (ruleTail ((mapTexts L.view name).text?.getD "") >>= _)
      (ruleTail (name.text?.getD "") >>= _)
    rw [word]
    refine (ruleTail_agrees _ _ _ _ _ placed).bind ?_
    rintro _ _ _ ⟨parts, complete⟩ placed
    exact (branchFrom_agrees h placed .ruleDefinition (name :: parts)).bind
      fun _ _ _ node placed => .pure placed (some (node, complete))
  · exact .pure h none

end PatternRules.Parse

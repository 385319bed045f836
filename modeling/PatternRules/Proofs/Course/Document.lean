import PatternRules.Proofs.Course.Expression
import PatternRules.Proofs.Settles.Document
import PatternRules.Proofs.Twin.Statement

/-!
Reading a document in the pieces of the scan: the resolver clause, the statements and the sections of a
document, in the order of the grammar. Recovery does not count, since there is a complaint in front of it.

* `readWithin_tiled`: a document without complaints is read in pieces, from its start to where reading ends.
-/

namespace PatternRules

namespace Parse

variable (apart : Nat → Prop) {limits : Limits} {s : ParseState}

/-! ## Resolver options -/

theorem seekListItem_demands (missing : Complaint) : Demands (.tiles apart) (seekListItem missing) := by
  refine OnCourse.orReport (OnCourse.afterBlank ?_) missing
  intro limits s
  rw [ensures_bind, ensures_cursor]
  exact .refl s _

theorem unknownWord_loud (complaint : String → Complaint) (word : String) :
    Ensures limits s (unknownWord complaint word) fun _ t => ¬ t.Quiet limits := by
  simp only [unknownWord, ensures_bind, ensures_cursor, ensures_move, ensures_spanFrom]
  exact report_loud _ _

theorem tokensFile_tiles : OnCourse (.tiles apart) tokensFile := by
  intro limits s
  simp only [tokensFile, ensures_bind, ensures_skipBlank]
  refine (((string_tiles apart).orReport _).onCourse limits _).mono ?_
  intro file t hfile
  exact (Course.Keeps.moved (Tiled.blank _)).after hfile

/-- A parenthesis ends a list. -/
theorem closing_tiles (complaint : Complaint) (kind : Kind) (start : Cursor) {t : ParseState} {ns : List Node}
    (h : (Course.tiles apart).Keeps limits s t ns) :
    Ensures limits t (do
      if !(← eatCharAfterBlank ')') then
        reportHere complaint
      branchFrom kind start ns) fun n u => (Course.tiles apart).Keeps limits s u [n] := by
  simp only [ensures_bind]
  refine (eatCharAfterBlank_tiles apart (by decide) limits t).mono ?_
  intro closed u hu
  refine .complaint (.tiles apart) (reportHere_loud _) ?_
  intro v hv
  rw [ensures_branchFrom]
  exact (h.upTo (Course.Keeps.upTo hu hv)).node

theorem optionalTokens_tiles : OnCourse (.tiles apart) optionalTokens := by
  intro limits s
  simp only [optionalTokens, ensures_bind, ensures_cursor]
  refine (eatCharAfterBlank_tiles apart (by decide) limits s).mono ?_
  intro opened t ht
  split
  · rw [ensures_bind]
    refine ((tokensFile_tiles apart).commaList limits t).mono ?_
    intro files u hfiles
    rw [HasNodes.nodes_list] at hfiles
    exact closing_tiles apart _ _ _ (Course.Keeps.after ht hfiles)
  · exact (reportHere_loud _).bind fun _ _ loud => .loud loud

theorem resolverFlag_tiles : OnCourse (.tiles apart) resolverFlag := by
  intro limits s
  simp only [resolverFlag, ensures_bind, ensures_cursor]
  split
  · exact (reportHere_loud _).bind fun _ _ loud => .loud loud
  · next word hword =>
    split
    · exact (takeLeaf_keeps _ (Course.overWord _ hword)).bind fun _ _ kept => kept
    · split
      · simp only [ensures_bind, ensures_move]
        refine (optionalTokens_tiles apart limits _).mono ?_
        intro files t hfiles
        simp only [ensures_textNodeFrom, ensures_pure]
        exact ((Course.Keeps.moved (Course.overWord _ hword)).after hfiles).node
      · exact (unknownWord_loud _ word).bind fun _ _ loud => .loud loud

theorem nextResolverFlag_tiles : OnCourse (.tiles apart) nextResolverFlag := by
  intro limits s
  simp only [nextResolverFlag, ensures_bind]
  refine (seekListItem_demands apart _ limits s).mono ?_
  rintro (_ | _) t ht
  · exact .loud ht
  · refine (resolverFlag_tiles apart limits t).bind ?_
    intro flags u hflags
    exact Course.Keeps.after ht hflags

/-- Options with commas between them, as one node. -/
theorem optionList_tiles (kind : Kind) {item : Parse (Option (List Node))} (h : OnCourse (.tiles apart) item) :
    OnCourse (.tiles apart) (do
      skipInlineBlank
      let start ← cursor
      let flags ← commaList item
      branchFrom kind start flags.flatten) := by
  intro limits s
  simp only [ensures_bind, ensures_skipInlineBlank, ensures_cursor]
  refine (h.commaList limits _).mono ?_
  intro flags t hflags
  rw [HasNodes.nodes_lists] at hflags
  rw [ensures_branchFrom]
  exact (Course.Keeps.inline.after hflags).node

theorem resolverOptions_tiles : OnCourse (.tiles apart) resolverOptions :=
  optionList_tiles apart _ (nextResolverFlag_tiles apart)

/-! ## Resolver methods -/

theorem resolverArgument_tiles : OnCourse (.tiles apart) resolverArgument := by
  intro limits s
  simp only [resolverArgument, ensures_bind, ensures_cursor]
  refine (identifier_onCourse (.tiles apart) limits s).mono ?_
  rintro (_ | name) t hname
  · refine (string_tiles apart limits t).bind ?_
    rintro (_ | value) u hvalue
    · exact Course.Keeps.upTo hname hvalue
    · exact (Course.Keeps.after hname hvalue).node
  · simp only [ensures_bind]
    refine (eatCharAfterBlank_tiles apart (by decide) limits t).mono ?_
    intro equals u hu
    split
    · simp only [ensures_bind, ensures_skipBlank]
      have before := (Course.Keeps.upTo hname hu).upTo (.moved (Tiled.blank _))
      refine ((string_tiles apart).orReport _ limits _).mono ?_
      rintro (_ | value) v hvalue
      · exact .loud hvalue
      · exact (before.trans hvalue).node
    · exact (reportHere_loud _).bind fun _ _ loud => .loud loud

theorem nextArgument_tiles : OnCourse (.tiles apart) nextArgument := by
  intro limits s
  simp only [nextArgument, ensures_bind, ensures_skipBlank]
  refine (((resolverArgument_tiles apart).orReport _).onCourse limits _).mono ?_
  intro argument t hargument
  exact (Course.Keeps.moved (Tiled.blank _)).after hargument

theorem resolverArguments_tiles (here : s.cursor.peek = some '(') :
    Ensures limits s resolverArguments fun n t => (Course.tiles apart).Keeps limits s t [n] := by
  simp only [resolverArguments, ensures_bind, ensures_cursor, ensures_move]
  refine ((nextArgument_tiles apart).commaList limits _).mono ?_
  intro arguments t harguments
  rw [HasNodes.nodes_list] at harguments
  have opened : (Course.tiles apart).leads s.cursor s.cursor.advance := Course.plain _ here (by decide)
  exact closing_tiles apart _ _ _ ((Course.Keeps.moved opened).after harguments)

theorem resolverMethod_tiles : OnCourse (.tiles apart) resolverMethod := by
  intro limits s
  simp only [resolverMethod, ensures_bind, ensures_cursor]
  refine (identifier_onCourse (.tiles apart) limits s).mono ?_
  rintro (_ | name) t hname
  · exact hname
  · simp only [ensures_bind, ensures_peek]
    split
    · next paren =>
      refine (resolverArguments_tiles apart paren).bind ?_
      intro arguments u harguments
      exact (Course.Keeps.trans hname harguments).node
    · exact Course.Keeps.node hname

/-! ## Resolver clauses -/

theorem resolverScope_tiles : OnCourse (.tiles apart) resolverScope := by
  intro limits s
  simp only [resolverScope, ensures_bind, ensures_cursor]
  split
  · exact .refl s []
  · next word hword =>
    split
    · exact (takeLeaf_keeps _ (Course.overWord _ hword)).bind fun _ _ kept => kept
    · exact .refl s []

theorem methodBeforeOptions_tiles : OnCourse (.tiles apart) methodBeforeOptions := by
  intro limits s
  simp only [methodBeforeOptions, ensures_bind, ensures_cursor]
  split
  · exact .refl s []
  · exact resolverMethod_tiles apart limits s

theorem optionsBehindWith_tiles : OnCourse (.tiles apart) optionsBehindWith := by
  intro limits s
  simp only [optionsBehindWith, ensures_bind]
  refine (eatWordAfterBlank_tiles apart (by decide) limits s).mono ?_
  intro announced t ht
  split
  · refine (resolverOptions_tiles apart limits t).bind ?_
    intro options u hoptions
    exact Course.Keeps.after ht hoptions
  · exact ht

theorem usesClause_tiles (start : Cursor) : OnCourse (.tiles apart) (usesClause start) := by
  intro limits s
  simp only [usesClause, ensures_bind]
  refine ((resolverScope_tiles apart).afterBlank limits s).mono ?_
  intro scope t hscope
  refine ((methodBeforeOptions_tiles apart).afterBlank limits t).mono ?_
  intro method u hmethod
  rw [HasNodes.nodes_option] at hscope hmethod
  split
  · exact (reportHere_loud _).bind fun _ _ loud => .loud loud
  · refine (optionsBehindWith_tiles apart limits u).bind ?_
    intro options v hoptions
    rw [HasNodes.nodes_list] at hoptions
    exact ((hscope.trans hmethod).trans hoptions).node

theorem usesWithClause_tiles : OnCourse (.tiles apart) usesWithClause := by
  intro limits s
  simp only [usesWithClause, ensures_bind, ensures_cursor]
  refine (eatWord_onCourse (.tiles apart) (by decide) limits s).mono ?_
  intro announced t ht
  split
  · refine (usesClause_tiles apart s.cursor limits t).bind ?_
    intro clause u hclause
    exact Course.Keeps.after ht hclause
  · exact ht

/-! ## Statements -/

/-- Digits and dots stand for themselves. -/
theorem unmarked_version (cs : List Char) : Unmarked (cs.take (versionLength cs)) := by
  fun_induction versionLength cs with
  | case1 => simp [Unmarked]
  | case2 c cs h ih =>
    rw [List.take_succ_cons]
    intro ch mem
    cases mem with
    | head => exact SparesMarks.not_mem (p := fun c => c.isDigit || c == '.') (by decide) (by grind)
    | tail _ mem => exact ih ch mem
  | case3 => simp [Unmarked]

theorem versionLiteral_tiles : OnCourse (.tiles apart) versionLiteral := by
  intro limits s
  simp only [versionLiteral, ensures_bind, ensures_cursor]
  split
  · have digits := (Course.tiles apart).along (List.take_append_drop _ _).symm (unmarked_version s.cursor.rest)
    rw [List.length_take_of_le (versionLength_le_length _)] at digits
    exact (takeLeaf_keeps _ digits).bind fun _ _ kept => kept
  · exact .refl s []

theorem word_of_keyword {c : Cursor} {word : String} (h : c.atKeyword word = true) :
    c.checkLiteral word = true := by
  simp only [Cursor.atKeyword, Cursor.checkWord, Bool.and_eq_true] at h
  exact h.1.1

theorem versionStatement_tiles (here : s.cursor.atKeyword "version" = true) :
    Ensures limits s versionStatement fun n t => (Course.tiles apart).Keeps limits s t [n] := by
  simp only [versionStatement, ensures_bind, ensures_cursor, ensures_move]
  have word : (Course.tiles apart).leads s.cursor (s.cursor.advanceBy "version".length) :=
    Course.overLiteral _ (word_of_keyword here) (by decide)
  refine (((versionLiteral_tiles apart).afterBlank.orReport _).onCourse limits _).mono ?_
  intro literal t hliteral
  rw [HasNodes.nodes_option] at hliteral
  rw [ensures_branchFrom]
  exact ((Course.Keeps.moved word).after hliteral).node

theorem nextImportFlag_tiles : OnCourse (.tiles apart) nextImportFlag := by
  intro limits s
  simp only [nextImportFlag, ensures_bind]
  refine (seekListItem_demands apart _ limits s).mono ?_
  rintro (_ | _) t ht
  · exact .loud ht
  · simp only [ensures_bind, ensures_cursor]
    split
    · exact (reportHere_loud _).bind fun _ _ loud => .loud loud
    · next word hword =>
      split
      · refine (takeLeaf_keeps _ (Course.overWord (.tiles apart) hword)).bind ?_
        intro flag u hflag
        exact Course.Keeps.after ht hflag
      · exact (unknownWord_loud _ word).bind fun _ _ loud => .loud loud

theorem importOptions_tiles : OnCourse (.tiles apart) importOptions :=
  optionList_tiles apart _ (nextImportFlag_tiles apart)

theorem aliasName_tiles : OnCourse (.tiles apart) aliasName := by
  intro limits s
  simp only [aliasName, ensures_bind, ensures_cursor]
  split
  · exact .refl s []
  · exact identifier_onCourse _ limits s

theorem importTail_tiles : OnCourse (.tiles apart) importTail := by
  intro limits s
  simp only [importTail, ensures_bind]
  refine (eatWordAfterBlank_tiles apart (by decide) limits s).mono ?_
  intro named t ht
  split
  · rw [ensures_bind]
    refine ((aliasName_tiles apart).afterBlank.orReport _ limits t).mono ?_
    rintro (_ | name) u hname
    · exact .loud hname
    · rw [ensures_bind]
      refine (eatWordAfterBlank_tiles apart (by decide) limits u).mono ?_
      intro announced v hv
      have before := Course.Keeps.after ht (Course.Keeps.upTo hname hv)
      split
      · refine (importOptions_tiles apart limits v).bind ?_
        intro options w hoptions
        exact before.trans hoptions
      · exact before
  · exact (reportHere_loud _).bind fun _ _ loud => .loud loud

theorem importStatement_tiles (here : s.cursor.atKeyword "import" = true) :
    Ensures limits s importStatement fun n t => (Course.tiles apart).Keeps limits s t [n] := by
  simp only [importStatement, ensures_bind, ensures_cursor, ensures_move]
  have word : (Course.tiles apart).leads s.cursor (s.cursor.advanceBy "import".length) :=
    Course.overLiteral _ (word_of_keyword here) (by decide)
  refine ((string_tiles apart).afterBlank.orReport _ limits _).mono ?_
  rintro (_ | path) t hpath
  · exact .loud hpath
  · refine (importTail_tiles apart limits t).bind ?_
    intro tail u htail
    rw [HasNodes.nodes_list] at htail
    rw [ensures_branchFrom]
    exact ((Course.Keeps.moved word).after (Course.Keeps.trans hpath htail)).node

theorem resolverDefault_tiles (here : s.cursor.atKeyword "resolver" = true)
    (next : ((s.cursor.advanceBy "resolver".length).skipBlank).checkWord "default" = true) :
    Ensures limits s resolverDefault fun n t => (Course.tiles apart).Keeps limits s t [n] := by
  simp only [resolverDefault, ensures_bind, ensures_cursor, ensures_move]
  have literal : ((s.cursor.advanceBy "resolver".length).skipBlank).checkLiteral "default" = true := by
    simp only [Cursor.checkWord, Bool.and_eq_true] at next
    exact next.1
  have first : (Course.tiles apart).leads s.cursor (s.cursor.advanceBy "resolver".length) :=
    Course.overLiteral _ (word_of_keyword here) (by decide)
  -- Both words are looked for before the first of them is read, with any blanks between them.
  have words := (first.trans (.blank _)).trans (Course.overLiteral (.tiles apart) literal (by decide))
  refine (((usesWithClause_tiles apart).afterBlank.orReport _).onCourse limits _).mono ?_
  intro clause t hclause
  rw [HasNodes.nodes_option] at hclause
  rw [ensures_branchFrom]
  exact ((Course.Keeps.moved words).after hclause).node

/-! ## Rules -/

theorem singleEquals_tiles : OnCourse (.tiles apart) singleEquals := by
  intro limits s
  simp only [singleEquals, ensures_bind, ensures_cursor]
  split
  · next assigns =>
    have here : s.cursor.peek = some '=' := by
      unfold startsAssignment at assigns
      split at assigns
      · cases assigns
      · next rest => simp [Cursor.peek, rest]
      · cases assigns
    exact .moved (Course.plain _ here (by decide))
  · exact .refl s []

theorem ruleUses_tiles : OnCourse (.tiles apart) ruleUses := by
  intro limits s
  simp only [ruleUses, ensures_bind, ensures_cursor]
  split
  · exact usesWithClause_tiles apart limits s
  · exact .refl s []

/-- What follows the name of a rule is complete, unless something was complained about. -/
theorem ruleTail_tiles (name : String) : Ensures limits s (ruleTail name) fun r t =>
    (Course.tiles apart).Keeps limits s t r.1 ∧ (t.Quiet limits → r.2 = true) := by
  simp only [ruleTail, ensures_bind]
  refine ((singleEquals_tiles apart).afterBlank.orReport _ limits s).mono ?_
  rintro (_ | _) t ht
  · exact ⟨.loud ht, fun quiet => absurd quiet ht⟩
  · rw [ensures_bind]
    refine ((expression_tiles apart).afterBlank.orReport _ limits t).mono ?_
    rintro (_ | body) u hbody
    · exact ⟨.loud hbody, fun quiet => absurd quiet hbody⟩
    · refine ((ruleUses_tiles apart).afterBlank limits u).bind ?_
      intro clause v hclause
      rw [HasNodes.nodes_option] at hclause
      exact ⟨Course.Keeps.after ht (Course.Keeps.trans hbody hclause), fun _ => rfl⟩

/-- A rule that was read without complaint is clean. -/
theorem rule_tiles : Ensures limits s rule fun r t => r.elim ((Course.tiles apart).Keeps limits s t [])
    fun rule => (Course.tiles apart).Keeps limits s t [rule.node] ∧
      (s.Quiet limits → t.Quiet limits → rule.clean = true) := by
  simp only [rule, ensures_bind, ensures_cursor, ensures_errorCount]
  refine (identifier_onCourse (.tiles apart) limits s).mono ?_
  rintro (_ | name) t hname
  · exact hname
  · refine (ruleTail_tiles apart _).bind ?_
    rintro ⟨parts, complete⟩ u ⟨hparts, whole⟩
    simp only [ensures_bind, ensures_branchFrom, ensures_errorCount, ensures_pure]
    refine ⟨(Course.Keeps.trans hname hparts).node, fun before quiet => ?_⟩
    simpa [before.errors, quiet.errors] using whole quiet

/-! ## Documents -/

theorem versionSection_tiles : OnCourse (.tiles apart) versionSection := by
  intro limits s
  simp only [versionSection, ensures_bind, ensures_cursor]
  split
  · next keyword =>
    refine (versionStatement_tiles apart keyword).bind ?_
    intro node t hnode
    exact Course.Keeps.upTo hnode (.moved (.blank _))
  · exact .refl s []

/-- What is skipped after an error has an error in front of it. -/
theorem recovery_loud {t : ParseState} {c : Cursor} (h : s.errors.length < t.errors.length) :
    ¬ ({ t with cursor := c } : ParseState).Quiet limits := by
  intro quiet
  have none : t.errors = [] := quiet.errors
  simp [none] at h

theorem nextImport_tiles : OnCourse (.tiles apart) nextImport := by
  intro limits s
  simp only [nextImport, ensures_bind, ensures_cursor]
  split
  · next keyword =>
    simp only [ensures_bind, ensures_errorsFull]
    split
    · exact .refl s []
    · simp only [ensures_bind, ensures_errorCount]
      refine (importStatement_tiles apart keyword).mono ?_
      intro node t hnode
      split
      · next more => exact .loud (recovery_loud more)
      · exact Course.Keeps.upTo hnode (.moved (.blank _))
  · exact .refl s []

theorem resolverSection_tiles : OnCourse (.tiles apart) resolverSection := by
  intro limits s
  simp only [resolverSection, atResolverDefault, ensures_bind, ensures_cursor, ensures_pure]
  split
  · next words =>
    rw [Bool.and_eq_true] at words
    simp only [ensures_bind, ensures_errorCount]
    refine (resolverDefault_tiles apart words.1 words.2).mono ?_
    intro node t hnode
    split
    · next more => exact .loud (recovery_loud more)
    · exact Course.Keeps.upTo hnode (.moved (.blank _))
  · exact .refl s []

theorem nextRule_tiles : OnCourse (.tiles apart) nextRule := by
  intro limits s
  simp only [nextRule, ensures_bind, ensures_cursor, ensures_errorsFull]
  split
  · exact .refl s []
  · refine (rule_tiles apart).bind ?_
    rintro (_ | rule) t hrule
    · exact hrule
    · obtain ⟨hrule, clean⟩ := hrule
      dsimp only
      split
      · next unclean =>
        -- Text is skipped only behind a rule that is not clean, and such a rule has been complained about.
        intro allowed quiet
        have quiet : t.Quiet limits := ⟨quiet.room, quiet.errors, quiet.nested⟩
        have before := (hrule allowed quiet).1
        simp [clean before quiet] at unclean
      · exact hrule.upTo (.moved (.blank _))

theorem statements_tiles : OnCourse (.tiles apart) (statementsWith (many nextRule)) := by
  intro limits s
  simp only [statementsWith, ensures_bind, ensures_skipBlank, ensures_pure]
  refine (versionSection_tiles apart limits _).mono ?_
  intro version t hversion
  refine ((nextImport_tiles apart).many limits t).mono ?_
  intro imports u himports
  refine (resolverSection_tiles apart limits u).mono ?_
  intro resolver v hresolver
  refine ((nextRule_tiles apart).many limits v).mono ?_
  intro rules w hrules
  rw [HasNodes.nodes_list] at hversion himports hresolver hrules ⊢
  have inside := ((hversion.trans himports).trans hresolver).trans hrules
  exact (Course.Keeps.moved (Tiled.blank _)).after inside

theorem document_tiles : OnCourse (.tiles apart) document := by
  intro limits s
  rw [document_sections, ensures_bind, ensures_cursor]
  refine (statements_tiles apart limits s).bind ?_
  intro statements t inside
  rw [HasNodes.nodes_list] at inside
  rw [ensures_branchFrom]
  exact inside.node

end Parse

/-- **A document without complaints is read in pieces of the scan**, from its start to where reading ends. The
lines of list matches that hide brackets are set apart. -/
theorem readWithin_tiled {limits : Limits} {text : List Char} (room : 0 < limits.errors)
    (clean : (readWithin limits text).2.errors = [])
    (nested : (readWithin limits text).2.nestingReported = false) :
    Tiled (readWithin limits text).1.HidesBracketsOn (.ofChars text) (readWithin limits text).2.cursor := by
  have kept := Parse.document_tiles (readWithin limits text).1.HidesBracketsOn limits
    ⟨.ofChars text, [], false⟩
  refine (kept ?_ ⟨room, clean, nested⟩).2
  intro n hn hides
  rw [HasNodes.nodes_node, Node.nodesOf_singleton] at hn
  exact ⟨n, hn, hides, rfl⟩

end PatternRules

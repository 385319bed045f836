import PatternRules.Proofs.Reads.Document
import PatternRules.Proofs.Settles.Expression

/-!
What reading a document leaves behind: the contracts of the resolver clause, of the statements and of the
sections of a document, and what follows for the whole text.

* `readWithin_settled`: every error is about a place in the text;
* `readWithin_faithful`: every node of the tree is faithful to the text.
-/

namespace PatternRules

open ParseState (Settled Orderly Steady)

namespace Parse

/-! ## Resolver options -/

theorem seekListItem_tries (missing : Complaint) : Tries Orderly Settled (seekListItem missing) := by
  refine Tries.orReport (Tries.afterBlank ?_) missing
  intro text limits s
  rw [ensures_bind, ensures_cursor]
  split
  · exact ⟨rfl, .refl id⟩
  · exact .refl id

theorem unknownWord_carries (complaint : String → Complaint) (word : String) :
    Carries Settled Settled (unknownWord complaint word) := by
  intro text limits s
  simp only [unknownWord, ensures_bind, ensures_cursor, ensures_move, ensures_spanFrom, ensures_report]
  exact .complained (Cursor.reaches_skipWhile _ _) _

theorem tokensFile_carries : Carries Orderly Orderly tokensFile := by
  intro text limits s
  simp only [tokensFile, ensures_bind, ensures_skipBlank]
  refine ((string_tries.orReport _).carries text limits _).mono ?_
  intro file t hfile
  exact (Kept.blank.after hfile).settle

/-- A parenthesis that may be missing ends a list. -/
theorem closing_carries {complaint : Complaint} {kind : Kind} (hk : kind ≠ .number) (start : Cursor)
    {text : List Char} {limits : Limits} {P : List Char → ParseState → Prop} {s t : ParseState}
    {ns : List Node} (h : Kept text limits P Orderly s t ns) :
    Ensures limits t (do
      if !(← eatCharAfterBlank ')') then
        reportHere complaint
      branchFrom kind start ns) fun n u => Kept text limits P Orderly s u [n] := by
  simp only [ensures_bind]
  refine ((eatCharAfterBlank_tries ')').orderly.matches text limits t).mono ?_
  intro closed u hu
  refine .complaining text (reportHere_carries Orderly _) ?_
  intro v hv
  rw [ensures_branchFrom]
  exact (h.upTo (hu.upTo hv)).branch hk

theorem optionalTokens_carries : Carries Orderly Orderly optionalTokens := by
  intro text limits s
  rw [optionalTokens, ensures_bind, ensures_cursor]
  refine .choosing text (eatCharAfterBlank_tries '(') ?_ ?_
  · intro t ht
    refine (tokensFile_carries.commaList text limits t).bind ?_
    intro files u hfiles
    rw [HasNodes.nodes_list] at hfiles
    exact closing_carries (by decide) s.cursor (ht.settle.after hfiles)
  · intro t _ ht
    refine (reportHere_carries Orderly _ text limits t).bind ?_
    intro _ u hu
    rw [ensures_branchFrom]
    exact (ht.upTo hu).branch (by decide)

theorem resolverFlag_carries : Carries Settled Orderly resolverFlag := by
  intro text limits s
  simp only [resolverFlag, ensures_bind, ensures_cursor]
  split
  · refine (reportHere_carries Settled _ text limits s).bind ?_
    intro _ t ht
    exact ht.settle
  · next word hword =>
    split
    · refine (takeLeaf_carries text (by decide) (not_mem_take_of_word hword)).bind ?_
      intro flag t hflag
      exact hflag.settle
    · split
      · simp only [ensures_bind, ensures_move]
        refine (optionalTokens_carries text limits _).mono ?_
        intro files t hfiles
        simp only [ensures_textNodeFrom, ensures_pure]
        have inside := (Kept.moved (Cursor.reaches_advanceBy word.length s.cursor)).settle.after hfiles
        exact inside.ofText (by decide) fun noFlag => absurd rfl noFlag
      · refine (unknownWord_carries _ word text limits s).bind ?_
        intro _ t ht
        exact ht.settle

theorem nextResolverFlag_carries : Carries Orderly Orderly nextResolverFlag := by
  intro text limits s
  simp only [nextResolverFlag, ensures_bind]
  refine (seekListItem_tries _ text limits s).mono ?_
  rintro (_ | _) t ht
  · exact ht.2
  · refine (resolverFlag_carries text limits t).bind ?_
    intro flags u hflags
    exact Kept.after ht hflags

/-- Options with commas between them, as one node. -/
theorem optionList_carries {kind : Kind} {item : Parse (Option (List Node))} (hk : kind ≠ .number)
    (h : Carries Orderly Orderly item) :
    Carries Settled Orderly (do
      skipInlineBlank
      let start ← cursor
      let flags ← commaList item
      branchFrom kind start flags.flatten) := by
  intro text limits s
  simp only [ensures_bind, ensures_skipInlineBlank, ensures_cursor]
  refine (h.commaList text limits _).mono ?_
  intro flags t hflags
  rw [HasNodes.nodes_lists] at hflags
  rw [ensures_branchFrom]
  exact (Kept.inline.settle.after hflags).branch hk

theorem resolverOptions_carries : Carries Settled Orderly resolverOptions :=
  optionList_carries (by decide) nextResolverFlag_carries

/-! ## Resolver methods -/

theorem resolverArgument_carries : Carries Settled Orderly resolverArgument := by
  intro text limits s
  simp only [resolverArgument, ensures_bind, ensures_cursor]
  refine (identifier_tries text limits s).mono ?_
  rintro (_ | name) t hname
  · refine (string_tries text limits t).bind ?_
    rintro (_ | value) u hvalue
    · exact (hname.2.upTo hvalue.2).settle
    · exact (hname.2.after hvalue).settle.branch (by decide)
  · have hname : Kept text limits Settled Settled s t [name] := hname
    refine .choosing text (eatCharAfterBlank_tries '=') ?_ ?_
    · intro u hu
      simp only [ensures_bind, ensures_skipBlank]
      refine (string_tries.orReport _ text limits _).mono ?_
      have before := hname.settle.upTo (hu.upTo Kept.blank.fromSettled)
      rintro (_ | value) v hvalue
      · exact (before.upTo hvalue.2).settle.drop
      · exact (before.trans hvalue).settle.branch (by decide)
    · intro u _ hu
      refine (reportHere_carries Orderly _ text limits u).bind ?_
      intro _ v hv
      exact (hname.settle.upTo (hu.upTo hv)).branch (by decide)

theorem nextArgument_carries : Carries Orderly Orderly nextArgument := by
  intro text limits s
  simp only [nextArgument, ensures_bind, ensures_skipBlank]
  refine ((resolverArgument_carries.orReport _) text limits _).mono ?_
  intro argument t hargument
  exact Kept.blank.after hargument

theorem resolverArguments_carries : Carries Settled Orderly resolverArguments := by
  intro text limits s
  rw [resolverArguments, ensures_bind, ensures_cursor, ensures_bind, ensures_move]
  refine (nextArgument_carries.commaList text limits _).bind ?_
  intro arguments t harguments
  rw [HasNodes.nodes_list] at harguments
  exact closing_carries (by decide) s.cursor
    ((Kept.moved (Cursor.reaches_advance _)).settle.after harguments)

theorem resolverMethod_tries : Tries Settled Orderly resolverMethod := by
  intro text limits s
  simp only [resolverMethod, ensures_bind, ensures_cursor]
  refine (identifier_tries text limits s).mono ?_
  rintro (_ | name) t hname
  · exact hname
  · have hname : Kept text limits Settled Settled s t [name] := hname
    simp only [ensures_bind, ensures_peek]
    split
    · refine (resolverArguments_carries text limits t).bind ?_
      intro arguments u harguments
      exact (hname.trans harguments).branch (by decide)
    · exact hname.settle.branch (by decide)

/-! ## Resolver clauses -/

theorem resolverScope_tries : Tries Settled Settled resolverScope := by
  intro text limits s
  simp only [resolverScope, ensures_bind, ensures_cursor]
  split
  · exact ⟨rfl, .refl id⟩
  · next word hword =>
    split
    · exact takeLeaf_carries text (by decide) (not_mem_take_of_word hword)
    · exact ⟨rfl, .refl id⟩

theorem methodBeforeOptions_tries : Tries Settled Orderly methodBeforeOptions := by
  intro text limits s
  simp only [methodBeforeOptions, ensures_bind, ensures_cursor]
  split
  · exact ⟨rfl, .refl id⟩
  · exact resolverMethod_tries text limits s

theorem optionsBehindWith_carries : Carries Orderly Orderly optionsBehindWith := by
  intro text limits s
  refine .choosing text (eatWordAfterBlank_tries "with") ?_ ?_
  · intro t ht
    refine (resolverOptions_carries text limits t).bind ?_
    intro options u hoptions
    exact ht.after hoptions
  · intro t _ ht
    exact ht

theorem usesClause_carries (start : Cursor) : Carries Orderly Orderly (usesClause start) := by
  intro text limits s
  simp only [usesClause, ensures_bind]
  refine (resolverScope_tries.orderly.afterBlank.carries text limits s).mono ?_
  intro scope t hscope
  refine (methodBeforeOptions_tries.afterBlank.carries text limits t).mono ?_
  intro method u hmethod
  rw [HasNodes.nodes_option] at hscope hmethod
  have parts := hscope.trans hmethod
  split
  · refine (reportHere_carries Orderly _ text limits u).bind ?_
    intro _ v hv
    rw [ensures_branchFrom]
    exact (parts.drop.upTo hv).branch (by decide)
  · refine (optionsBehindWith_carries text limits u).bind ?_
    intro options v hoptions
    rw [HasNodes.nodes_list] at hoptions
    rw [ensures_branchFrom]
    exact (parts.trans hoptions).branch (by decide)

theorem usesWithClause_tries : Tries Settled Orderly usesWithClause := by
  intro text limits s
  rw [usesWithClause, ensures_bind, ensures_cursor]
  refine .choosing text (eatWord_tries "uses") ?_ ?_
  · intro t ht
    refine (usesClause_carries s.cursor text limits t).bind ?_
    intro clause u hclause
    exact ht.settle.after hclause
  · intro t stays ht
    exact ⟨stays, ht⟩

/-! ## Statements -/

theorem not_mem_take_versionLength (cs : List Char) : '\n' ∉ cs.take (versionLength cs) := by
  fun_induction versionLength cs with
  | case1 => simp
  | case2 c cs h ih =>
    rw [List.take_succ_cons, List.mem_cons, not_or]
    refine ⟨?_, ih⟩
    rintro rfl
    cases h
  | case3 => simp

theorem versionLiteral_tries : Tries Settled Settled versionLiteral := by
  intro text limits s
  simp only [versionLiteral, ensures_bind, ensures_cursor]
  split
  · exact takeLeaf_carries text (by decide) (not_mem_take_versionLength _)
  · exact ⟨rfl, .refl id⟩

theorem versionStatement_carries : Carries Settled Orderly versionStatement := by
  intro text limits s
  simp only [versionStatement, ensures_bind, ensures_cursor, ensures_move]
  refine ((versionLiteral_tries.orderly.afterBlank.orReport _).carries text limits _).mono ?_
  intro literal t hliteral
  rw [HasNodes.nodes_option] at hliteral
  rw [ensures_branchFrom]
  exact ((Kept.moved (Cursor.reaches_advanceBy _ _)).settle.after hliteral).branch (by decide)

theorem nextImportFlag_carries : Carries Orderly Orderly nextImportFlag := by
  intro text limits s
  simp only [nextImportFlag, ensures_bind]
  refine (seekListItem_tries _ text limits s).mono ?_
  rintro (_ | _) t ht
  · exact ht.2
  · have ht : Kept text limits Orderly Settled s t [] := ht
    simp only [ensures_bind, ensures_cursor]
    split
    · refine (reportHere_carries Settled _ text limits t).bind ?_
      intro _ u hu
      exact (ht.upTo hu).settle
    · next word hword =>
      split
      · refine (takeLeaf_carries text (by decide) (not_mem_take_of_word hword)).bind ?_
        intro flag u hflag
        exact (ht.after hflag).settle
      · refine (unknownWord_carries _ word text limits t).bind ?_
        intro _ u hu
        exact (ht.upTo hu).settle

theorem importOptions_carries : Carries Settled Orderly importOptions :=
  optionList_carries (by decide) nextImportFlag_carries

theorem aliasName_tries : Tries Settled Settled aliasName := by
  intro text limits s
  simp only [aliasName, ensures_bind, ensures_cursor]
  split
  · exact ⟨rfl, .refl id⟩
  · exact identifier_tries text limits s

theorem importTail_carries : Carries Orderly Orderly importTail := by
  intro text limits s
  refine .choosing text (eatWordAfterBlank_tries "as") ?_ ?_
  · intro t ht
    refine (aliasName_tries.orderly.afterBlank.orReport _ text limits t).bind ?_
    rintro (_ | name) u hname
    · exact ht.settle.upTo hname.2
    · have hname : Kept text limits Orderly Orderly s u [name] := ht.settle.after hname
      refine .choosing text (eatWordAfterBlank_tries "with") ?_ ?_
      · intro v hv
        refine (importOptions_carries text limits v).bind ?_
        intro options w hoptions
        exact hname.trans (hv.after hoptions)
      · intro v _ hv
        exact hname.upTo hv
  · intro t _ ht
    refine (reportHere_carries Orderly _ text limits t).bind ?_
    intro _ u hu
    exact ht.upTo hu

theorem importStatement_carries : Carries Settled Orderly importStatement := by
  intro text limits s
  simp only [importStatement, ensures_bind, ensures_cursor, ensures_move]
  have word : Kept text limits Settled Orderly s
      { s with cursor := s.cursor.advanceBy "import".length } [] :=
    (Kept.moved (Cursor.reaches_advanceBy _ _)).settle
  refine (string_tries.orderly.afterBlank.orReport _ text limits _).mono ?_
  rintro (_ | path) t hpath
  · rw [ensures_branchFrom]
    exact (word.after hpath.2).branch (by decide)
  · refine (importTail_carries text limits t).bind ?_
    intro tail u htail
    rw [HasNodes.nodes_list] at htail
    rw [ensures_branchFrom]
    exact (word.after (Kept.trans hpath htail)).branch (by decide)

theorem resolverDefault_carries : Carries Settled Orderly resolverDefault := by
  intro text limits s
  simp only [resolverDefault, ensures_bind, ensures_cursor, ensures_move]
  have words := (Cursor.reaches_advanceBy "resolver".length s.cursor).trans
    ((Cursor.reaches_skipBlank _).trans (Cursor.reaches_advanceBy "default".length _))
  refine ((usesWithClause_tries.afterBlank.orReport _).carries text limits _).mono ?_
  intro clause t hclause
  rw [HasNodes.nodes_option] at hclause
  rw [ensures_branchFrom]
  exact ((Kept.moved words).settle.after hclause).branch (by decide)

/-! ## Rules -/

theorem singleEquals_tries : Tries Settled Settled singleEquals := by
  intro text limits s
  simp only [singleEquals, ensures_bind, ensures_cursor]
  split
  · exact .moved (Cursor.reaches_advance _)
  · exact ⟨rfl, .refl id⟩

theorem ruleUses_tries : Tries Settled Orderly ruleUses := by
  intro text limits s
  simp only [ruleUses, ensures_bind, ensures_cursor]
  split
  · exact usesWithClause_tries text limits s
  · exact ⟨rfl, .refl id⟩

theorem ruleTail_carries (name : String) : Carries Orderly Orderly (ruleTail name) := by
  intro text limits s
  simp only [ruleTail, ensures_bind]
  refine (singleEquals_tries.orderly.afterBlank.orReport _ text limits s).mono ?_
  rintro (_ | _) t ht
  · exact ht.2
  · refine (expression_tries.afterBlank.orReport _ text limits t).bind ?_
    rintro (_ | body) u hbody
    · exact Kept.upTo ht hbody.2
    · refine (ruleUses_tries.afterBlank.carries text limits u).bind ?_
      intro clause v hclause
      rw [HasNodes.nodes_option] at hclause
      exact Kept.after ht (Kept.trans hbody hclause)

theorem rule_tries : Tries Settled Orderly rule := by
  intro text limits s
  simp only [rule, ensures_bind, ensures_cursor, ensures_errorCount]
  refine (identifier_tries text limits s).mono ?_
  rintro (_ | name) t hname
  · exact hname
  · have hname : Kept text limits Settled Settled s t [name] := hname
    refine (ruleTail_carries _ text limits t).bind ?_
    rintro ⟨parts, complete⟩ u hparts
    exact (hname.settle.trans hparts).branch (by decide)

end Parse

/-! ## Recovery -/

/-- Blanks end with their line, or go on behind it. -/
theorem blankRun_le_line (inComment : Bool) (cs : List Char) :
    blankRun inComment cs ≤ (cs.takeWhile (· != '\n')).length + 1 +
      blankRun false (cs.drop ((cs.takeWhile (· != '\n')).length + 1)) := by
  induction cs generalizing inComment with
  | nil => simp [blankRun]
  | cons c cs ih =>
    by_cases hc : c = '\n'
    · subst hc
      cases inComment <;> simp [blankRun, isBlank, Nat.add_comm]
    · have line : (c :: cs).takeWhile (· != '\n') = c :: cs.takeWhile (· != '\n') := by simp [hc]
      rw [line, List.length_cons, List.drop_succ_cons, blankRun]
      split
      · have := ih (c != '\n')
        omega
      · split
        · have := ih false
          omega
        · split
          · have := ih true
            omega
          · omega

namespace Cursor

theorem skipLine_eq (c : Cursor) :
    c.skipLine = c.advanceBy ((c.rest.takeWhile (· != '\n')).length + 1) := by
  rw [advanceBy_add]
  rfl

theorem skipBlank_reaches_skipLine (c : Cursor) : c.skipBlank.Reaches c.skipLine.skipBlank := by
  have bound := blankRun_le_line false c.rest
  rw [skipLine_eq, skipBlank, skipBlank, rest_advanceBy, ← advanceBy_add]
  obtain ⟨n, hn⟩ := Nat.exists_eq_add_of_le bound
  exact ⟨n, by rw [hn, advanceBy_add]⟩

theorem skipBlank_reaches_synchronize (c : Cursor) : c.skipBlank.Reaches c.synchronize := by
  refine (skipBlank_reaches_skipLine c).trans ?_
  unfold synchronize seekRule
  dsimp only
  split
  · exact .refl _
  · exact (reaches_skipLine _).trans (reaches_seekRule _ _)

end Cursor

/-- Leaving the line leads behind all that was complained about. -/
theorem Kept.recovered {text : List Char} {limits : Limits} {s : ParseState} {c : Cursor}
    (h : s.cursor.skipBlank.Reaches c) :
    Kept text limits Orderly Settled s { s with cursor := c } [] :=
  .placed fun orderly => orderly.behind.move h

namespace Parse

/-! ## Documents -/

theorem versionSection_carries : Carries Settled Settled versionSection := by
  intro text limits s
  simp only [versionSection, ensures_bind, ensures_cursor]
  split
  · refine (versionStatement_carries text limits s).bind ?_
    intro node t hnode
    exact Kept.upTo hnode .blank
  · exact .refl id

theorem nextImport_carries : Carries Settled Settled nextImport := by
  intro text limits s
  simp only [nextImport, ensures_bind, ensures_cursor]
  split
  · simp only [ensures_bind, ensures_errorsFull]
    split
    · exact .refl id
    · simp only [ensures_bind, ensures_errorCount]
      refine (importStatement_carries text limits s).mono ?_
      intro node t hnode
      split
      · exact hnode.upTo (.recovered (Cursor.skipBlank_reaches_skipLine _))
      · exact hnode.upTo .blank
  · exact .refl id

theorem resolverSection_carries : Carries Settled Settled resolverSection := by
  intro text limits s
  simp only [resolverSection, atResolverDefault, ensures_bind, ensures_cursor, ensures_pure]
  split
  · simp only [ensures_bind, ensures_errorCount]
    refine (resolverDefault_carries text limits s).mono ?_
    intro node t hnode
    split
    · have behind := (Cursor.skipBlank_reaches_synchronize t.cursor).trans (Cursor.reaches_skipBlank _)
      exact Kept.upTo hnode (.recovered behind)
    · exact Kept.upTo hnode .blank
  · exact .refl id

theorem nextRule_carries : Carries Settled Settled nextRule := by
  intro text limits s
  simp only [nextRule, ensures_bind, ensures_cursor, ensures_errorsFull]
  split
  · exact .refl id
  · refine (rule_tries text limits s).bind ?_
    rintro (_ | rule) t hrule
    · exact hrule.2
    · have hrule : Kept text limits Settled Orderly s t [rule.node] := hrule
      dsimp only
      split
      · have behind := (Cursor.skipBlank_reaches_synchronize t.cursor).trans (Cursor.reaches_skipBlank _)
        exact hrule.upTo (.recovered behind)
      · exact hrule.upTo .blank

/-- The statements of a document, the rules of which are read by `rules`. -/
def statementsWith (rules : Parse (List Node)) : Parse (List Node) := do
  skipBlank
  let version ← versionSection
  let imports ← many nextImport
  let resolver ← resolverSection
  return version ++ imports ++ resolver ++ (← rules)

theorem statementsWith_carries {rules : Parse (List Node)} (h : Carries Settled Settled rules) :
    Carries Settled Settled (statementsWith rules) := by
  intro text limits s
  simp only [statementsWith, ensures_bind, ensures_skipBlank, ensures_pure]
  refine (versionSection_carries text limits _).mono ?_
  intro version t hversion
  refine (nextImport_carries.many text limits t).mono ?_
  intro imports u himports
  refine (resolverSection_carries text limits u).mono ?_
  intro resolver v hresolver
  refine (h text limits v).mono ?_
  intro rules w hrules
  rw [HasNodes.nodes_list] at hversion himports hresolver hrules ⊢
  have inside := ((hversion.trans himports).trans hresolver).trans hrules
  exact (Kept.moved (Cursor.reaches_skipBlank _)).after inside

theorem document_sections : document = (do
    let start ← cursor
    branchFrom .root start (← statementsWith (many nextRule))) := by
  simp only [document, statementsWith, bind_assoc, pure_bind]

theorem document_carries : Carries Settled Settled document := by
  intro text limits s
  rw [document_sections, ensures_bind, ensures_cursor]
  refine (statementsWith_carries nextRule_carries.many text limits s).bind ?_
  intro statements t inside
  rw [HasNodes.nodes_list] at inside
  rw [ensures_branchFrom]
  exact inside.branch (by decide)

end Parse

/-- **Errors are about places in the text.** -/
theorem readWithin_settled (limits : Limits) (text : List Char) :
    (readWithin limits text).2.Settled text :=
  (Parse.document_carries text limits ⟨.ofChars text, [], false⟩).state (ParseState.settled_start text)

/-- **Nodes are faithful to the text.** -/
theorem readWithin_faithful (limits : Limits) (text : List Char) :
    ∀ n ∈ (readWithin limits text).1.nodes,
      n.Faithful text limits (readWithin limits text).2.errors := by
  intro n hn
  refine (Parse.document_carries text limits ⟨.ofChars text, [], false⟩).nodes
    (ParseState.settled_start text) n ?_
  show n ∈ Node.nodesOf [(readWithin limits text).1]
  rw [Node.nodesOf, Node.nodesOf, List.append_nil]
  exact hn

end PatternRules

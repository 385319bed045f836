import PatternRules.Proofs.Reads.Expression

/-!
What statements and documents read: `uses` clauses with their options and methods, the version, imports,
the default resolver and rules.

* `readWithin_readFrom`: the tree of a document was read from the front of the text to where reading
  stopped;
* `tree_conforms`: every node of it obeys the grammar of trees.
-/

namespace PatternRules

namespace Parse

/-! ## Resolver options -/

theorem seekListItem_moves (missing : Complaint) : Moves (seekListItem missing) := by
  refine Moves.orReport (Moves.afterBlank ?_) missing
  intro limits s
  exact .refl _

theorem unknownWord_moves (complaint : String → Complaint) (word : String) :
    Moves (unknownWord complaint word) := by
  intro limits s
  simp only [unknownWord, ensures_bind, ensures_cursor, ensures_move, ensures_spanFrom]
  refine (report_moves _ _ limits _).mono ?_
  intro _ t ht
  exact (Cursor.reaches_skipWhile _ _).trans ht

theorem tokensFile_reads : Reads (Each (· == .string)) tokensFile := by
  intro limits s
  simp only [tokensFile, ensures_bind, ensures_skipBlank]
  refine (string_reads.orReport _ limits _).mono ?_
  intro file t hfile
  exact .after (Cursor.reaches_skipBlank _) hfile

theorem optionalTokens_reads : Reads (Each (· == .optionalTokens)) optionalTokens := by
  intro limits s
  simp only [optionalTokens, ensures_bind, ensures_cursor]
  refine (eatCharAfterBlank_moves '(' limits s).mono ?_
  intro opened t ht
  split
  · refine (tokensFile_reads.commaList limits t).bind ?_
    intro files u hfiles
    rw [HasNodes.nodes_list] at hfiles
    refine (eatCharAfterBlank_moves ')' limits u).bind ?_
    intro closed v hv
    refine .reporting (reportHere_keeps _) ?_
    intro w hw
    rw [ensures_branchFrom, hw]
    exact .node (.branch (.after ht (.upTo hfiles.read hv)) (fun _ => rfl) hfiles.kinds) rfl
  · refine (reportHere_moves _ limits t).bind ?_
    intro _ u hu
    rw [ensures_branchFrom]
    exact .node (.branch (.nil (ht.trans hu)) (fun _ => rfl) rfl) rfl

theorem resolverFlag_reads : Reads (Each (· == .resolverFlag)) resolverFlag := by
  intro limits s
  simp only [resolverFlag, ensures_bind, ensures_cursor]
  split
  · refine (reportHere_moves _ limits s).bind ?_
    intro _ t ht
    exact .none ht rfl
  · next word _ =>
    split
    · exact takeLeaf_reads rfl rfl word.length limits s
    · split
      · simp only [ensures_bind, ensures_move]
        refine (optionalTokens_reads limits _).mono ?_
        intro files t hfiles
        simp only [ensures_textNodeFrom, ensures_pure]
        have inside := Node.AllReadFrom.after (Cursor.reaches_advanceBy _ _) hfiles.read
        refine .node (.ofText inside rfl ?_) rfl
        simp [Kind.admits, beq_iff_eq.1 hfiles.kind]
      · refine (unknownWord_moves _ word limits s).bind ?_
        intro _ t ht
        exact .none ht rfl

theorem nextResolverFlag_reads : Reads (Each (· == .resolverFlag)) nextResolverFlag := by
  intro limits s
  simp only [nextResolverFlag, ensures_bind]
  refine (seekListItem_moves _ limits s).mono ?_
  rintro (_ | _) t ht
  · exact .none ht rfl
  · refine (resolverFlag_reads limits t).bind ?_
    intro flags u hflags
    exact .after ht hflags

/-- Options with commas between them, as one node. -/
theorem optionList_reads {flag kind : Kind} {item : Parse (Option (List Node))}
    (h : Reads (Each (· == flag)) item) (bare : ∀ text, kind.valueOf text = none)
    (fits : ∀ ks, Each (· == flag) ks → kind.admits ks = true) :
    Reads (Each (· == kind)) (do
      skipInlineBlank
      let start ← cursor
      let flags ← commaList item
      branchFrom kind start flags.flatten) := by
  intro limits s
  simp only [ensures_bind, ensures_skipInlineBlank, ensures_cursor]
  refine (h.commaList limits _).mono ?_
  intro flags t hflags
  rw [HasNodes.nodes_lists] at hflags
  rw [ensures_branchFrom]
  exact .after (Cursor.reaches_skipInlineBlank _)
    (.node (.branch hflags.read bare (fits _ hflags.kinds)) (beq_self_eq_true kind))

theorem resolverOptions_reads : Reads (Each (· == .resolverOptions)) resolverOptions :=
  optionList_reads nextResolverFlag_reads (fun _ => rfl) fun _ h => h

/-! ## Resolver methods -/

theorem resolverArgument_reads : Reads (Each (· == .resolverArgument)) resolverArgument := by
  intro limits s
  simp only [resolverArgument, ensures_bind, ensures_cursor]
  refine (identifier_reads limits s).mono ?_
  rintro (_ | name) t hname
  · refine (string_reads limits t).bind ?_
    rintro (_ | value) u hvalue
    · exact .none (hname.read.reaches.trans hvalue.read.reaches) rfl
    · simp only [ensures_bind, ensures_branchFrom, ensures_pure]
      have inside := Node.AllReadFrom.after hname.read.reaches hvalue.read
      refine .node (.branch inside (fun _ => rfl) ?_) rfl
      simp [Kind.admits, beq_iff_eq.1 hvalue.kind]
  · have isName := beq_iff_eq.1 hname.kind
    refine (eatCharAfterBlank_moves '=' limits t).bind ?_
    intro equals u hu
    split
    · simp only [ensures_bind, ensures_skipBlank]
      have before := hu.trans (Cursor.reaches_skipBlank u.cursor)
      refine (string_reads.orReport _ limits _).mono ?_
      rintro (_ | value) v hvalue
      · exact .none (hname.read.reaches.trans (before.trans hvalue.read.reaches)) rfl
      · simp only [ensures_bind, ensures_branchFrom, ensures_pure]
        have inside := hname.read.append (.after before hvalue.read)
        refine .node (.branch inside (fun _ => rfl) ?_) rfl
        simp [Kind.admits, isName, beq_iff_eq.1 hvalue.kind]
    · refine (reportHere_moves _ limits u).bind ?_
      intro _ v hv
      simp only [ensures_bind, ensures_branchFrom, ensures_pure]
      refine .node (.branch (.upTo hname.read (hu.trans hv)) (fun _ => rfl) ?_) rfl
      simp [Kind.admits, isName]

theorem nextArgument_reads : Reads (Each (· == .resolverArgument)) nextArgument := by
  intro limits s
  simp only [nextArgument, ensures_bind, ensures_skipBlank]
  refine (resolverArgument_reads.orReport _ limits _).mono ?_
  intro argument t hargument
  exact .after (Cursor.reaches_skipBlank _) hargument

theorem resolverArguments_reads : Reads (Each (· == .resolverArguments)) resolverArguments := by
  intro limits s
  simp only [resolverArguments, ensures_bind, ensures_cursor, ensures_move]
  refine (nextArgument_reads.commaList limits _).mono ?_
  intro arguments t harguments
  rw [HasNodes.nodes_list] at harguments
  refine (eatCharAfterBlank_moves ')' limits t).mono ?_
  intro closed u hu
  refine .reporting (reportHere_keeps _) ?_
  intro v hv
  rw [ensures_branchFrom, hv]
  have inside := Node.AllReadFrom.after (Cursor.reaches_advance _) (.upTo harguments.read hu)
  exact .node (.branch inside (fun _ => rfl) harguments.kinds) rfl

theorem resolverMethod_reads : Reads (Each (· == .resolverMethod)) resolverMethod := by
  intro limits s
  simp only [resolverMethod, ensures_bind, ensures_cursor]
  refine (identifier_reads limits s).mono ?_
  rintro (_ | name) t hname
  · exact .none hname.read.reaches rfl
  · have isName := beq_iff_eq.1 hname.kind
    simp only [ensures_bind, ensures_peek]
    split
    · refine (resolverArguments_reads limits t).bind ?_
      intro arguments u harguments
      simp only [ensures_bind, ensures_branchFrom, ensures_pure]
      have inside := hname.read.append harguments.read
      refine .node (.branch inside (fun _ => rfl) ?_) rfl
      simp [Kind.admits, isName, beq_iff_eq.1 harguments.kind]
    · simp only [ensures_bind, ensures_branchFrom, ensures_pure]
      refine .node (.branch hname.read (fun _ => rfl) ?_) rfl
      simp [Kind.admits, isName]

/-! ## The `uses` clause -/

theorem resolverScope_reads : Reads (Each (· == .resolverScope)) resolverScope := by
  intro limits s
  simp only [resolverScope, ensures_bind, ensures_cursor]
  split
  · exact .none (.refl _) rfl
  · next word _ =>
    split
    · exact takeLeaf_reads rfl rfl word.length limits s
    · exact .none (.refl _) rfl

theorem methodBeforeOptions_reads : Reads (Each (· == .resolverMethod)) methodBeforeOptions := by
  intro limits s
  simp only [methodBeforeOptions, ensures_bind, ensures_cursor]
  split
  · exact .none (.refl _) rfl
  · exact resolverMethod_reads limits s

theorem optionsBehindWith_reads :
    Reads (fun ks => ks = [] ∨ ks = [.resolverOptions]) optionsBehindWith := by
  intro limits s
  simp only [optionsBehindWith, ensures_bind]
  refine (eatWordAfterBlank_moves "with" limits s).mono ?_
  intro announced t ht
  split
  · refine (resolverOptions_reads limits t).bind ?_
    intro options u hoptions
    refine ⟨.after ht hoptions.read, .inr ?_⟩
    exact congrArg (fun k => [k]) (beq_iff_eq.1 hoptions.kind)
  · exact .none ht (.inl rfl)

/-- The clause whose word stands at `start`. -/
theorem usesClause_reads {start : Cursor} {limits : Limits} {s : ParseState}
    (before : start.Reaches s.cursor) :
    Ensures limits s (usesClause start) fun n t =>
      Found (Each (· == .usesClause)) [n] start t.cursor := by
  simp only [usesClause, ensures_bind]
  refine (resolverScope_reads.afterBlank rfl limits s).mono ?_
  intro scope t hscope
  refine (methodBeforeOptions_reads.afterBlank rfl limits t).mono ?_
  intro method u hmethod
  have parts := (Node.AllReadFrom.after before hscope.read).append hmethod.read
  split
  · refine (reportHere_moves _ limits u).bind ?_
    intro _ v hv
    rw [ensures_branchFrom]
    exact .node (.branch (.nil (parts.reaches.trans hv)) (fun _ => rfl) rfl) rfl
  · next scopeOrMethod =>
    refine (optionsBehindWith_reads limits u).bind ?_
    intro options v hoptions
    rw [HasNodes.nodes_list] at hoptions
    rw [ensures_branchFrom]
    have all := parts.append hoptions.read
    have fits := hoptions.kinds
    cases scope with
    | none =>
      cases method with
      | none => exact absurd rfl scopeOrMethod
      | some method =>
        refine .node (.branch all (fun _ => rfl) ?_) rfl
        rcases fits with fits | fits <;> simp [fits, Kind.admits, beq_iff_eq.1 hmethod.kind]
    | some scope =>
      cases method with
      | none =>
        refine .node (.branch all (fun _ => rfl) ?_) rfl
        rcases fits with fits | fits <;> simp [fits, Kind.admits, beq_iff_eq.1 hscope.kind]
      | some method =>
        refine .node (.branch all (fun _ => rfl) ?_) rfl
        rcases fits with fits | fits <;>
          simp [fits, Kind.admits, beq_iff_eq.1 hscope.kind, beq_iff_eq.1 hmethod.kind]

theorem usesWithClause_reads : Reads (Each (· == .usesClause)) usesWithClause := by
  intro limits s
  simp only [usesWithClause, ensures_bind, ensures_cursor]
  refine (eatWord_moves "uses" limits s).mono ?_
  intro uses t ht
  split
  · exact (usesClause_reads ht).bind fun _ _ found => found
  · exact .none ht rfl

/-! ## Statements -/

theorem versionLiteral_reads : Reads (Each (· == .versionLiteral)) versionLiteral := by
  intro limits s
  simp only [versionLiteral, ensures_bind, ensures_cursor]
  split
  · exact takeLeaf_reads rfl rfl _ limits s
  · exact .none (.refl _) rfl

theorem versionStatement_reads : Reads (Each (· == .versionStatement)) versionStatement := by
  intro limits s
  simp only [versionStatement, ensures_bind, ensures_cursor, ensures_move]
  refine ((versionLiteral_reads.afterBlank rfl).orReport _ limits _).mono ?_
  intro literal t hliteral
  rw [HasNodes.nodes_option] at hliteral
  rw [ensures_branchFrom]
  have inside := Node.AllReadFrom.after (Cursor.reaches_advanceBy _ _) hliteral.read
  exact .node (.branch inside (fun _ => rfl) (hliteral.fits [] rfl rfl)) rfl

theorem nextImportFlag_reads : Reads (Each (· == .importFlag)) nextImportFlag := by
  intro limits s
  simp only [nextImportFlag, ensures_bind]
  refine (seekListItem_moves _ limits s).mono ?_
  rintro (_ | _) t ht
  · exact .none ht rfl
  · simp only [ensures_bind, ensures_cursor]
    split
    · refine (reportHere_moves _ limits t).bind ?_
      intro _ u hu
      exact .none (ht.trans hu) rfl
    · next word _ =>
      split
      · refine (takeLeaf_reads (k := .importFlag) rfl rfl word.length limits t).bind ?_
        intro flag u hflag
        exact .after ht hflag
      · refine (unknownWord_moves _ word limits t).bind ?_
        intro _ u hu
        exact .none (ht.trans hu) rfl

theorem importOptions_reads : Reads (Each (· == .importOptions)) importOptions :=
  optionList_reads nextImportFlag_reads (fun _ => rfl) fun _ h => h

theorem aliasName_reads : Reads (Each (· == .identifier)) aliasName := by
  intro limits s
  simp only [aliasName, ensures_bind, ensures_cursor]
  split
  · exact .none (.refl _) rfl
  · exact identifier_reads limits s

theorem importTail_reads :
    Reads (fun ks => Kind.importStatement.admits (.string :: ks) = true) importTail := by
  intro limits s
  simp only [importTail, ensures_bind]
  refine (eatWordAfterBlank_moves "as" limits s).mono ?_
  intro announced t ht
  split
  · refine ((aliasName_reads.afterBlank rfl).orReport _ limits t).bind ?_
    rintro (_ | name) u hname
    · exact .none (ht.trans hname.read.reaches) rfl
    · have isName := beq_iff_eq.1 hname.kind
      refine (eatWordAfterBlank_moves "with" limits u).bind ?_
      intro more v hv
      split
      · refine (importOptions_reads limits v).bind ?_
        intro options w hoptions
        rw [ensures_pure, HasNodes.nodes_list]
        refine ⟨.after ht (hname.read.append (.after hv hoptions.read)), ?_⟩
        simp [Kind.admits, isName, beq_iff_eq.1 hoptions.kind]
      · rw [ensures_pure, HasNodes.nodes_list]
        refine ⟨.after ht (.upTo hname.read hv), ?_⟩
        simp [Kind.admits, isName]
  · refine (reportHere_moves _ limits t).bind ?_
    intro _ u hu
    exact .none (ht.trans hu) rfl

theorem importStatement_reads : Reads (Each (· == .importStatement)) importStatement := by
  intro limits s
  simp only [importStatement, ensures_bind, ensures_cursor, ensures_move]
  have word := Cursor.reaches_advanceBy "import".length s.cursor
  refine ((string_reads.afterBlank rfl).orReport _ limits _).mono ?_
  rintro (_ | path) t hpath
  · rw [ensures_branchFrom]
    exact .node (.branch (.nil (word.trans hpath.read.reaches)) (fun _ => rfl) rfl) rfl
  · refine (importTail_reads limits t).bind ?_
    intro tail u htail
    rw [HasNodes.nodes_list] at htail
    rw [ensures_branchFrom]
    have inside := Node.AllReadFrom.after word (hpath.read.append htail.read)
    refine .node (.branch inside (fun _ => rfl) ?_) rfl
    rw [List.map_cons, beq_iff_eq.1 hpath.kind]
    exact htail.kinds

theorem resolverDefault_reads : Reads (Each (· == .resolverDefault)) resolverDefault := by
  intro limits s
  simp only [resolverDefault, ensures_bind, ensures_cursor, ensures_move]
  have words := (Cursor.reaches_advanceBy "resolver".length s.cursor).trans
    ((Cursor.reaches_skipBlank _).trans (Cursor.reaches_advanceBy "default".length _))
  refine ((usesWithClause_reads.afterBlank rfl).orReport _ limits _).mono ?_
  intro clause t hclause
  rw [HasNodes.nodes_option] at hclause
  rw [ensures_branchFrom]
  exact .node (.branch (.after words hclause.read) (fun _ => rfl) (hclause.fits [] rfl rfl)) rfl

/-! ## Rules -/

theorem singleEquals_moves : Moves singleEquals := by
  intro limits s
  simp only [singleEquals, ensures_bind, ensures_cursor]
  split
  · exact Cursor.reaches_advance _
  · exact .refl _

theorem ruleUses_reads : Reads (Each (· == .usesClause)) ruleUses := by
  intro limits s
  simp only [ruleUses, ensures_bind, ensures_cursor]
  split
  · exact usesWithClause_reads limits s
  · exact .none (.refl _) rfl

instance : HasNodes (List Node × Bool) := ⟨Prod.fst⟩

instance : HasNodes Rule := ⟨fun rule => [rule.node]⟩

theorem ruleTail_reads (name : String) :
    Reads (fun ks => Kind.ruleDefinition.admits (.identifier :: ks) = true) (ruleTail name) := by
  intro limits s
  simp only [ruleTail, ensures_bind]
  refine (singleEquals_moves.afterBlank.orReport _ limits s).mono ?_
  rintro (_ | _) t ht
  · exact .none ht rfl
  · refine ((expression_reads.afterBlank rfl).orReport _ limits t).bind ?_
    rintro (_ | body) u hbody
    · exact .none (ht.trans hbody.read.reaches) rfl
    · refine (ruleUses_reads.afterBlank rfl limits u).bind ?_
      intro clause v hclause
      rw [HasNodes.nodes_option] at hclause
      rw [ensures_pure]
      refine ⟨.after ht (hbody.read.append hclause.read), ?_⟩
      exact hclause.fits [.identifier, body.kind] (by simp [Kind.admits, hbody.kind])
        (by simp [Kind.admits, hbody.kind])

theorem rule_reads : Reads (Each (· == .ruleDefinition)) rule := by
  intro limits s
  simp only [rule, ensures_bind, ensures_cursor, ensures_errorCount]
  refine (identifier_reads limits s).mono ?_
  rintro (_ | name) t hname
  · exact .none hname.read.reaches rfl
  · refine (ruleTail_reads _ limits t).bind ?_
    rintro ⟨parts, complete⟩ u hparts
    simp only [ensures_bind, ensures_branchFrom, ensures_errorCount, ensures_pure]
    refine .node (.branch (hname.read.append hparts.read) (fun _ => rfl) ?_) rfl
    rw [List.map_cons, beq_iff_eq.1 hname.kind]
    exact hparts.kinds

/-! ## Documents -/

theorem versionSection_reads :
    Reads (fun ks => ks = [] ∨ ks = [.versionStatement]) versionSection := by
  intro limits s
  simp only [versionSection, ensures_bind, ensures_cursor]
  split
  · refine (versionStatement_reads limits s).bind ?_
    intro node t hnode
    simp only [ensures_bind, ensures_skipBlank, ensures_pure]
    refine ⟨.upTo hnode.read (Cursor.reaches_skipBlank _), .inr ?_⟩
    exact congrArg (fun k => [k]) (beq_iff_eq.1 hnode.kind)
  · exact .none (.refl _) (.inl rfl)

theorem nextImport_reads : Reads (Each (· == .importStatement)) nextImport := by
  intro limits s
  simp only [nextImport, ensures_bind, ensures_cursor]
  split
  · simp only [ensures_bind, ensures_errorsFull]
    split
    · exact .none (.refl _) rfl
    · simp only [ensures_bind, ensures_errorCount]
      refine (importStatement_reads limits s).mono ?_
      intro node t hnode
      split
      · simp only [ensures_bind, ensures_move, ensures_skipBlank, ensures_pure]
        exact .upTo hnode ((Cursor.reaches_skipLine _).trans (Cursor.reaches_skipBlank _))
      · simp only [ensures_bind, ensures_skipBlank, ensures_pure]
        exact .upTo hnode (Cursor.reaches_skipBlank _)
  · exact .none (.refl _) rfl

theorem resolverSection_reads :
    Reads (fun ks => ks = [] ∨ ks = [.resolverDefault]) resolverSection := by
  intro limits s
  simp only [resolverSection, atResolverDefault, ensures_bind, ensures_cursor, ensures_pure]
  split
  · simp only [ensures_bind, ensures_errorCount]
    refine (resolverDefault_reads limits s).mono ?_
    intro node t hnode
    have isDefault := congrArg (fun k => [k]) (beq_iff_eq.1 hnode.kind)
    split
    · simp only [ensures_bind, ensures_move, ensures_skipBlank, ensures_pure]
      have behind := (Cursor.reaches_synchronize t.cursor).trans (Cursor.reaches_skipBlank _)
      exact ⟨.upTo hnode.read behind, .inr isDefault⟩
    · simp only [ensures_bind, ensures_skipBlank, ensures_pure]
      exact ⟨.upTo hnode.read (Cursor.reaches_skipBlank _), .inr isDefault⟩
  · exact .none (.refl _) (.inl rfl)

theorem nextRule_reads : Reads (Each (· == .ruleDefinition)) nextRule := by
  intro limits s
  simp only [nextRule, ensures_bind, ensures_cursor, ensures_errorsFull]
  split
  · exact .none (.refl _) rfl
  · refine (rule_reads limits s).bind ?_
    rintro (_ | rule) t hrule
    · exact hrule
    · dsimp only
      split
      · simp only [ensures_bind, ensures_move, ensures_skipBlank, ensures_pure]
        exact .upTo hrule ((Cursor.reaches_synchronize _).trans (Cursor.reaches_skipBlank _))
      · simp only [ensures_bind, ensures_skipBlank, ensures_pure]
        exact .upTo hrule (Cursor.reaches_skipBlank _)

end Parse

namespace Kind

theorem dropOne_append {k : Kind} {front ks : List Kind} (h : front = [] ∨ front = [k])
    (others : k ∉ ks) : dropOne k (front ++ ks) = ks := by
  rcases h with rfl | rfl
  · cases ks with
    | nil => rfl
    | cons k' ks =>
      have ne : k' ≠ k := fun same => others (same ▸ List.mem_cons_self)
      simp [dropOne, ne]
  · simp [dropOne]

/-- The parts of a document in their order. -/
theorem root_admits {versions imports resolvers rules : List Kind}
    (hversions : versions = [] ∨ versions = [versionStatement])
    (himports : Each (· == importStatement) imports)
    (hresolvers : resolvers = [] ∨ resolvers = [resolverDefault])
    (hrules : Each (· == ruleDefinition) rules) :
    root.admits (versions ++ imports ++ resolvers ++ rules) = true := by
  have areImports : ∀ k ∈ imports, k = importStatement := by simpa [Each] using himports
  have areRules : ∀ k ∈ rules, k = ruleDefinition := by simpa [Each] using hrules
  have noVersion : versionStatement ∉ imports ++ (resolvers ++ rules) := by grind
  have noResolver : resolverDefault ∉ rules := by grind
  have stop : (resolvers ++ rules).dropWhile (· == importStatement) = resolvers ++ rules := by
    rcases hresolvers with rfl | rfl
    · cases rules with
      | nil => rfl
      | cons k rules => simp [areRules k List.mem_cons_self]
    · rfl
  show (dropOne resolverDefault ((dropOne versionStatement _).dropWhile (· == importStatement))).all
    (· == ruleDefinition) = true
  rw [List.append_assoc, List.append_assoc, dropOne_append hversions noVersion,
    List.dropWhile_append_of_pos (by simpa using areImports), stop,
    dropOne_append hresolvers noResolver]
  exact hrules

end Kind

namespace Parse

theorem document_reads (limits : Limits) (s : ParseState) :
    Ensures limits s document fun n t => n.ReadFrom s.cursor t.cursor ∧ n.kind = .root := by
  simp only [document, ensures_bind, ensures_cursor, ensures_skipBlank]
  refine (versionSection_reads limits _).mono ?_
  intro version t hversion
  refine (nextImport_reads.many limits t).mono ?_
  intro imports u himports
  refine (resolverSection_reads limits u).mono ?_
  intro resolver v hresolver
  refine (nextRule_reads.many limits v).mono ?_
  intro rules w hrules
  rw [HasNodes.nodes_list] at hversion himports hresolver hrules
  have inside := ((hversion.read.append himports.read).append hresolver.read).append
    hrules.read
  rw [ensures_branchFrom]
  refine ⟨.branch (.after (Cursor.reaches_skipBlank _) inside) (fun _ => rfl) ?_, rfl⟩
  rw [List.map_append, List.map_append, List.map_append]
  exact Kind.root_admits hversion.kinds himports.kinds hresolver.kinds hrules.kinds

end Parse

/-- **The tree of a document was read from its text.** -/
theorem readWithin_readFrom (limits : Limits) (text : List Char) :
    (readWithin limits text).1.ReadFrom (.ofChars text) (readWithin limits text).2.cursor ∧
      (readWithin limits text).1.kind = .root :=
  Parse.document_reads limits ⟨.ofChars text, [], false⟩

theorem tree_readDocument (text : String) :
    (readDocument text).tree = (readWithin .standard text.toList).1 := by
  unfold readDocument
  generalize readWithin .standard text.toList = outcome
  rfl

theorem errors_readDocument (text : String) :
    (readDocument text).errors = (readWithin .standard text.toList).2.errors := by
  unfold readDocument
  generalize readWithin .standard text.toList = outcome
  rfl

theorem readDocument_readFrom (text : String) :
    ∃ stop, (readDocument text).tree.ReadFrom (.ofChars text.toList) stop := by
  rw [tree_readDocument]
  obtain ⟨read, -⟩ := readWithin_readFrom .standard text.toList
  exact Exists.intro _ read

theorem root_readDocument (text : String) : (readDocument text).tree.kind = .root := by
  rw [tree_readDocument]
  exact (readWithin_readFrom .standard text.toList).2

/-- Every node of the tree was read from the text. -/
theorem readFrom_of_mem_nodes {text : String} {n : Node} (hn : n ∈ (readDocument text).tree.nodes) :
    ∃ a b, (Cursor.ofChars text.toList).Reaches a ∧ n.ReadFrom a b := by
  obtain ⟨stop, read⟩ := readDocument_readFrom text
  obtain ⟨a, b, reached, readHere, -⟩ := read.of_mem_nodes _ n hn
  exact ⟨a, b, reached, readHere⟩

theorem conforms_of_mem_nodes {text : String} {n : Node} (hn : n ∈ (readDocument text).tree.nodes) :
    n.Conforms := by
  obtain ⟨a, b, -, read⟩ := readFrom_of_mem_nodes hn
  exact read.conforms

/-- **Every tree obeys the grammar of trees**: whatever the text, each node has children of the kinds,
in the number and in the order that its kind admits. -/
theorem tree_conforms (text : String) :
    (readDocument text).tree.kind = .root ∧ ∀ n ∈ (readDocument text).tree.nodes, n.Conforms :=
  ⟨root_readDocument text, fun _ => conforms_of_mem_nodes⟩

end PatternRules

import PatternRules.Proofs.Contract.Expression

/-!
Every clause and every statement keeps every contract. Whether a statement was read without complaint is
asked of the state only where statements are put together, in the sections of a document, so the contracts
end here.
-/

namespace PatternRules.Parse

variable {K : Contract}

/-! ## Options -/

theorem seekListItem_contract (missing : Complaint) (plain : missing.isPlain = true) :
    K.keeps .settled .settled (seekListItem missing) := by
  refine orReport_contract (afterBlank_contract ?_ ?_ (.refl _) (.refl .settled)) missing plain
  · refine .looking cursor_silent fun c => ?_
    split
    · exact .none
    · exact (Succeeds.pure ()).traceless
  · exact K.bind (K.look _) fun c => K.pure _ _

theorem unknownWord_contract (complaint : String → Complaint) (word : String)
    (plain : (complaint word).isPlain = true) :
    K.keeps .settled .settled (unknownWord complaint word) := by
  refine K.start fun start => K.bind (K.moveOn start fun c => Cursor.reaches_skipWhile c _) fun _ => ?_
  exact K.spanFrom fun span place => K.report _ plain place

/-- A list in parentheses. -/
theorem closing_contract (kind : Kind) (start : Cursor) (complaint : Complaint)
    (plain : complaint.isPlain = true) (children : List Node) :
    K.keeps .settled .settled (do
      if !(← eatCharAfterBlank ')') then
        reportHere complaint
      branchFrom kind start children) :=
  eatCharAfterBlank_contract ')' (branchFrom_contract _ kind start children)
    (K.bind (reportHere_contract _ plain) fun _ => branchFrom_contract _ kind start children)

theorem tokensFile_contract : K.keeps .settled .settled tokensFile :=
  K.bind skipBlank_contract fun _ => orReport_contract string_contract _ rfl

theorem optionalTokens_contract : K.keeps .settled .settled optionalTokens := by
  refine K.bind (K.look _) fun start => eatCharAfterBlank_contract '(' ?_ ?_
  · exact K.bind (commaList_contract tokensFile_contract) fun files => closing_contract _ start _ rfl files
  · exact K.bind (reportHere_contract _ rfl) fun _ => branchFrom_contract _ _ start []

theorem resolverFlag_contract : K.keeps .settled .settled resolverFlag := by
  refine K.bind (K.look _) fun start => ?_
  cases start.peekWord? with
  | none => exact K.bind (reportHere_contract _ rfl) fun _ => K.pure _ []
  | some word =>
    dsimp only
    split
    · exact K.bind (takeLeaf_contract _ _) fun leaf => K.pure _ [leaf]
    · split
      · refine K.bind (advanceBy_contract _) fun _ => K.bind optionalTokens_contract fun files => ?_
        exact K.bind (textNodeFrom_contract _ _ start _) fun node => K.pure _ [node]
      · exact K.bind (unknownWord_contract _ word rfl) fun _ => K.pure _ []

theorem nextResolverFlag_contract : K.keeps .settled .settled nextResolverFlag := by
  refine K.bind (seekListItem_contract _ rfl) ?_
  rintro (_ | _)
  · exact K.pure _ none
  · exact some_contract resolverFlag_contract

/-- Options behind `with`. -/
theorem optionList_contract (kind : Kind) {next : Parse (Option (List Node))}
    (h : K.keeps .settled .settled next) : K.keeps .settled .settled (do
      skipInlineBlank
      let start ← cursor
      let flags ← commaList next
      branchFrom kind start flags.flatten) := by
  refine K.bind skipInlineBlank_contract fun _ => K.bind (K.look _) fun start => ?_
  exact K.bind (commaList_contract h) fun flags => branchFrom_contract _ kind start _

theorem resolverOptions_contract : K.keeps .settled .settled resolverOptions :=
  optionList_contract _ nextResolverFlag_contract

/-! ## Methods -/

theorem resolverArgument_contract : K.keeps .settled .settled resolverArgument := by
  have argument (start : Cursor) (parts : List Node) : K.keeps .settled .settled
      (do return some (← branchFrom .resolverArgument start parts)) :=
    some_contract (branchFrom_contract _ _ start parts)
  refine K.bind (K.look _) fun start => K.bind identifier_contract ?_
  rintro (_ | name)
  · refine K.bind string_contract ?_
    rintro (_ | value)
    · exact K.pure _ none
    · exact argument start [value]
  · refine eatCharAfterBlank_contract '=' ?_ ?_
    · refine K.bind skipBlank_contract fun _ => K.bind (orReport_contract string_contract _ rfl) ?_
      rintro (_ | value)
      · exact K.pure _ none
      · exact argument start [name, value]
    · exact K.bind (reportHere_contract _ rfl) fun _ => argument start [name]

theorem nextArgument_contract : K.keeps .settled .settled nextArgument :=
  K.bind skipBlank_contract fun _ => orReport_contract resolverArgument_contract _ rfl

theorem resolverArguments_contract : K.keeps .settled .settled resolverArguments := by
  refine K.bind (K.look _) fun start => K.bind advance_contract fun _ => ?_
  refine K.bind (commaList_contract nextArgument_contract) fun arguments => ?_
  exact closing_contract _ start _ rfl arguments

theorem resolverMethod_contract : K.keeps .settled .settled resolverMethod := by
  refine K.bind (K.look _) fun start => K.bind identifier_contract ?_
  rintro (_ | name)
  · exact K.pure _ none
  · refine K.bind (peek_contract _) fun c => ?_
    split
    · refine K.bind resolverArguments_contract fun arguments => ?_
      exact some_contract (branchFrom_contract _ _ start _)
    · exact some_contract (branchFrom_contract _ _ start _)

/-! ## Clauses -/

theorem resolverScope_contract : K.keeps .settled .settled resolverScope := by
  refine K.bind (K.look _) fun c => ?_
  split
  · exact K.pure _ none
  · split
    · exact some_contract (takeLeaf_contract _ _)
    · exact K.pure _ none

theorem methodBeforeOptions_contract : K.keeps .settled .settled methodBeforeOptions := by
  refine K.bind (K.look _) fun c => ?_
  split
  · exact K.pure _ none
  · exact resolverMethod_contract

theorem optionsBehindWith_contract : K.keeps .settled .settled optionsBehindWith :=
  eatWordAfterBlank_contract "with" (K.bind resolverOptions_contract fun options => K.pure _ [options])
    (K.pure _ [])

theorem usesClause_contract (start : Cursor) : K.keeps .settled .settled (usesClause start) := by
  have scope := afterBlank_contract (K := K) resolverScope_traceless resolverScope_contract (.refl _)
    (.refl _)
  have method := afterBlank_contract (K := K) methodBeforeOptions_traceless methodBeforeOptions_contract
    (.refl _) (.refl _)
  refine K.bind scope fun scope => K.bind method fun method => ?_
  split
  · exact K.bind (reportHere_contract _ rfl) fun _ => branchFrom_contract _ _ start []
  · exact K.bind optionsBehindWith_contract fun options => branchFrom_contract _ _ start _

theorem usesWithClause_contract : K.keeps .settled .settled usesWithClause := by
  refine K.bind (K.look _) fun start => K.bind (eatWord_contract "uses") fun found => ?_
  split
  · exact some_contract (usesClause_contract start)
  · exact K.pure _ none

/-! ## Statements -/

theorem versionLiteral_contract : K.keeps .settled .settled versionLiteral := by
  refine K.bind (K.look _) fun c => ?_
  split
  · exact some_contract (takeLeaf_contract _ _)
  · exact K.pure _ none

/-- What has to follow the words that a statement starts with. -/
theorem partAfterBlank_contract {p : Parse (Option Node)} (traceless : Traceless p)
    (h : K.keeps .settled .settled p) (complaint : Complaint) (plain : complaint.isPlain = true) :
    K.keeps .settled .settled (orReport complaint (afterBlank p)) :=
  orReport_contract (afterBlank_contract traceless h (.refl _) (.refl _)) complaint plain

theorem versionStatement_contract : K.keeps .settled .settled versionStatement := by
  refine K.bind (K.look _) fun start => K.bind (advanceBy_contract _) fun _ => ?_
  refine K.bind (partAfterBlank_contract versionLiteral_traceless versionLiteral_contract _ rfl) fun literal => ?_
  exact branchFrom_contract _ _ start _

theorem nextImportFlag_contract : K.keeps .settled .settled nextImportFlag := by
  refine K.bind (seekListItem_contract _ rfl) ?_
  rintro (_ | _)
  · exact K.pure _ none
  · refine K.bind (K.look _) fun c => ?_
    cases c.peekWord? with
    | none => exact K.bind (reportHere_contract _ rfl) fun _ => K.pure _ none
    | some word =>
      dsimp only
      split
      · exact K.bind (takeLeaf_contract _ _) fun leaf => K.pure _ (some [leaf])
      · exact K.bind (unknownWord_contract _ word rfl) fun _ => K.pure _ (some [])

theorem importOptions_contract : K.keeps .settled .settled importOptions :=
  optionList_contract _ nextImportFlag_contract

theorem aliasName_contract : K.keeps .settled .settled aliasName := by
  refine K.bind (K.look _) fun c => ?_
  split
  · exact K.pure _ none
  · exact identifier_contract

theorem importTail_contract : K.keeps .settled .settled importTail := by
  refine eatWordAfterBlank_contract "as" ?_ ?_
  · refine K.bind (partAfterBlank_contract aliasName_traceless aliasName_contract _ rfl) ?_
    rintro (_ | name)
    · exact K.pure _ []
    · exact eatWordAfterBlank_contract "with"
        (K.bind importOptions_contract fun options => K.pure _ [name, options]) (K.pure _ [name])
  · exact K.bind (reportHere_contract _ rfl) fun _ => K.pure _ []

theorem importStatement_contract : K.keeps .settled .settled importStatement := by
  refine K.bind (K.look _) fun start => K.bind (advanceBy_contract _) fun _ => ?_
  refine K.bind (partAfterBlank_contract string_traceless string_contract _ rfl) ?_
  rintro (_ | path)
  · exact branchFrom_contract _ _ start []
  · exact K.bind importTail_contract fun tail => branchFrom_contract _ _ start _

theorem resolverDefault_contract : K.keeps .settled .settled resolverDefault := by
  refine K.bind (K.look _) fun start => K.bind (move_contract fun c => ?_) fun _ => ?_
  · exact (Cursor.reaches_advanceBy _ c).trans
      ((Cursor.reaches_skipBlank _).trans (Cursor.reaches_advanceBy _ _))
  · have clause := partAfterBlank_contract (K := K) usesWithClause_traceless usesWithClause_contract
    refine K.bind (clause _ rfl) fun clause => ?_
    exact branchFrom_contract _ _ start _

/-! ## Rules -/

theorem singleEquals_contract : K.keeps .settled .settled singleEquals := by
  refine K.bind (K.look _) fun c => ?_
  split
  · exact K.bind advance_contract fun _ => K.pure _ (some ())
  · exact K.pure _ none

theorem ruleUses_contract : K.keeps .settled .settled ruleUses := by
  refine K.bind (K.look _) fun c => ?_
  split
  · exact usesWithClause_contract
  · exact K.pure _ none

/-- An expression that has to be found. It is at the outermost level, so nothing is said where none is. -/
theorem expressionAfterBlank_contract {β : Type} {z : Stage} (complaint : Complaint)
    (plain : complaint.isPlain = true) {f : Option Node → Parse β} (nothing : K.keeps .settled z (f none))
    (found : ∀ body, K.keeps .loose z (f (some body))) :
    K.keeps .settled z (orReport complaint (afterBlank expression) >>= f) := by
  refine K.depth (f := fun levels => orReport complaint (afterBlank (expressionWithin levels)) >>= f) ?_
  intro levels
  have body := alternation_contract (K := K) (expressionWithin_contract levels)
  exact orReportAfterBlank_contract (alternation_traceless _) body complaint plain nothing found

/-- What follows the `=` of a rule. -/
def ruleBody (name : String) : Parse (List Node × Bool) := do
  match ← orReport (.ruleBodyMissing name) (afterBlank expression) with
  | none => return ([], false)
  | some body =>
    let clause ← afterBlank ruleUses
    return (body :: clause.toList, true)

theorem ruleTail_eq (name : String) : ruleTail name =
    orReport (.equalsMissing name) (afterBlank singleEquals) >>= fun
      | none => pure ([], false)
      | some _ => ruleBody name :=
  rfl

theorem ruleBody_contract (name : String) : K.keeps .settled .loose (ruleBody name) := by
  have incomplete : K.keeps .settled .loose (pure (([] : List Node), false)) :=
    K.weaken (K.pure _ _) (.loose _)
  refine expressionAfterBlank_contract _ rfl incomplete fun body => ?_
  have clause := afterBlank_contract (K := K) ruleUses_traceless ruleUses_contract (.refl .loose) (.loose _)
  exact K.bind clause fun clause => K.pure _ _

theorem ruleTail_contract (name : String) : K.keeps .settled .loose (ruleTail name) := by
  have incomplete : K.keeps .settled .loose (pure (([] : List Node), false)) :=
    K.weaken (K.pure _ _) (.loose _)
  rw [ruleTail_eq]
  exact orReportAfterBlank_contract singleEquals_traceless singleEquals_contract _ rfl incomplete
    fun _ => ruleBody_contract name

end PatternRules.Parse

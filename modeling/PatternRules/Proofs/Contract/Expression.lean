import PatternRules.Proofs.Contract

/-!
Every part of an expression keeps every contract. From groups upward complaints may end up behind the blanks
in front of which the cursor was put back, so what is read next either reads those blanks, or does not start
with one.
-/

namespace PatternRules.Parse

variable {K : Contract}

/-! ## Atoms -/

theorem escape_contract : K.keeps .settled .settled escape := by
  refine K.start fun start => K.bind (K.moveOn start Cursor.reaches_advance) fun _ => ?_
  refine K.bind (peek_contract _) ?_
  have incomplete : K.keeps (.since start) .settled
      (do report .escapeIncomplete (← spanFrom start); textNodeFrom .escape start []) :=
    K.spanFrom fun span place => K.bind (K.report _ rfl place) fun _ => textNodeFrom_contract _ _ start []
  rintro (_ | c)
  · exact incomplete
  · dsimp only
    split
    · exact incomplete
    · refine K.mono (.settled start) ?_
      exact K.bind advance_contract fun _ => textNodeFrom_contract _ _ start []

theorem classChar_contract : K.keeps .settled .settled classChar := by
  refine K.bind (peek_contract _) ?_
  rintro (_ | c)
  · exact K.bind (K.look _) fun start => K.spanFrom fun _ _ => K.pure _ _
  · dsimp only
    split
    · exact escape_contract
    · exact takeLeaf_contract .char 1

theorem classItem_contract : K.keeps .settled .settled classItem := by
  refine K.bind (K.look _) fun start => K.bind classChar_contract fun low => ?_
  refine K.bind (K.bind (K.look _) fun c => K.pure _ _) fun hyphen => ?_
  split
  · refine K.bind advance_contract fun _ => K.bind classChar_contract fun high => ?_
    exact textNodeFrom_contract _ _ start _
  · exact K.pure _ low

theorem nextClassItem_contract : K.keeps .settled .settled nextClassItem := by
  have unclosed : K.keeps .settled .settled
      (do reportHere .classUnclosed; return (none : Option Node)) :=
    K.bind (reportHere_contract _ rfl) fun _ => K.pure _ none
  refine K.bind (peek_contract _) ?_
  rintro (_ | c)
  · exact unclosed
  · dsimp only
    split
    · exact unclosed
    · split
      · exact K.bind advance_contract fun _ => K.pure _ none
      · exact some_contract classItem_contract

theorem charClass_contract : K.keeps .settled .settled charClass := by
  refine K.bind (K.look _) fun start => K.bind advance_contract fun _ => ?_
  exact K.bind (many_contract nextClassItem_contract) fun items => textNodeFrom_contract _ _ start items

theorem atom_contract : K.keeps .settled .settled atom := by
  refine K.bind (peek_contract _) ?_
  rintro (_ | c)
  · exact K.pure _ none
  · dsimp only
    split
    · exact some_contract escape_contract
    · split
      · exact some_contract (takeLeaf_contract .anchor 1)
      · split
        · exact some_contract (takeLeaf_contract .dot 1)
        · split
          · exact some_contract charClass_contract
          · split
            · exact string_contract
            · exact identifier_contract

/-! ## List matches -/

theorem filterArgument_contract : K.keeps .settled .settled filterArgument := by
  refine K.bind skipInlineBlank_contract fun _ => ?_
  refine K.bind (orReport_contract string_contract _ rfl) fun argument => ?_
  refine K.bind skipInlineBlank_contract fun _ => K.bind (eatChar_contract ')') fun closed => ?_
  exact complaining_contract (reportHere_contract _ rfl) (K.pure _ _)

theorem filter_contract : K.keeps .settled .settled filter := by
  refine K.bind (K.look _) fun start => K.bind (orReport_contract identifier_contract _ rfl) ?_
  rintro (_ | name)
  · exact K.pure _ none
  · refine K.bind (eatChar_contract '(') fun opened => ?_
    split
    · exact K.bind filterArgument_contract fun argument => some_contract (branchFrom_contract _ _ start _)
    · exact K.bind (reportHere_contract _ rfl) fun _ => some_contract (branchFrom_contract _ _ start _)

theorem skipListMatch_contract : K.keeps .settled .settled skipListMatch :=
  move_contract fun c => Cursor.reaches_advanceBy _ c

theorem listFilter_contract : K.keeps .settled .settled listFilter := by
  refine K.bind (eatChar_contract ':') fun announced => ?_
  split
  · refine K.bind skipInlineBlank_contract fun _ => K.bind filter_contract fun filter => ?_
    exact K.bind skipInlineBlank_contract fun _ => K.pure _ _
  · exact K.pure _ []

theorem listMatch_contract : K.keeps .settled .settled listMatch := by
  refine K.bind (K.look _) fun start => K.bind (advanceBy_contract 2) fun _ => ?_
  refine K.bind skipInlineBlank_contract fun _ => K.bind (orReport_contract identifier_contract _ rfl) ?_
  rintro (_ | name)
  · exact K.bind skipListMatch_contract fun _ => branchFrom_contract _ _ start []
  · refine K.bind skipInlineBlank_contract fun _ => K.bind listFilter_contract fun filter => ?_
    refine K.bind (eatLiteral_contract "]]") fun closed => ?_
    split
    · refine K.bind (reportHere_contract _ rfl) fun _ => K.bind skipListMatch_contract fun _ => ?_
      exact branchFrom_contract _ _ start _
    · exact branchFrom_contract _ _ start _

/-! ## Groups and captures -/

section

variable {inner : Parse (Option Node)}

/-- What follows the expression in a pair of parentheses. -/
theorem behindBody_contract {missing : Complaint} (plain : missing.isPlain = true) (body : Option Node) :
    K.keeps .loose .loose (do
      if body.isNone then
        reportUnlessNested missing
      if !(← eatCharAfterBlank ')') then
        reportUnlessNested .parenthesisUnclosed
      return body.toList) := by
  refine complaining_contract (K.reportUnlessNested _ plain) ?_
  exact eatCharAfterBlank_contract ')' (K.weaken (K.pure _ _) (.loose _))
    (K.bind (K.reportUnlessNested _ rfl) fun _ => K.pure _ _)

theorem enclosed_contract (missing : Complaint) (plain : missing.isPlain = true)
    (h : K.keeps .loose .loose (afterBlank inner)) : K.keeps .loose .loose (enclosed missing inner) :=
  K.bind h fun body => behindBody_contract plain body

theorem group_contract (h : K.keeps .loose .loose (afterBlank inner)) :
    K.keeps .settled .loose (group inner) := by
  refine K.bind (K.look _) fun start => K.bind advance_contract fun _ => K.mono (.loose _) ?_
  exact K.bind (enclosed_contract _ rfl h) fun body => branchFrom_contract _ _ start body

theorem captureParts_contract (h : K.keeps .loose .loose (afterBlank inner)) :
    K.keeps .settled .loose (captureParts inner) := by
  refine K.bind (orReport_contract identifier_contract _ rfl) ?_
  rintro (_ | name)
  · exact K.weaken (K.pure _ []) (.loose _)
  · refine K.bind (eatChar_contract '>') fun closed => ?_
    split
    · exact K.mono (.loose _) (K.bind (enclosed_contract _ rfl h) fun body => K.pure _ (name :: body))
    · exact K.bind (reportHere_contract _ rfl) fun _ => K.weaken (K.pure _ [name]) (.loose _)

theorem namedCapture_contract (h : K.keeps .loose .loose (afterBlank inner)) :
    K.keeps .settled .loose (namedCapture inner) := by
  refine K.bind (K.look _) fun start => K.bind (advanceBy_contract 4) fun _ => ?_
  exact K.bind (captureParts_contract h) fun parts => branchFrom_contract _ _ start parts

end

/-! ## Quantifiers -/

theorem quantifierBounds_contract (start : Cursor) (least : Node) :
    K.keeps .settled .settled (quantifierBounds start least) := by
  have closing (kind : Kind) (most : List Node) : K.keeps .settled .settled (do
      skipInlineBlank
      if !(← eatChar '}') then
        reportHere .quantifierUnclosed
      branchFrom kind start (least :: most)) := by
    refine K.bind skipInlineBlank_contract fun _ => K.bind (eatChar_contract '}') fun closed => ?_
    exact complaining_contract (reportHere_contract _ rfl) (branchFrom_contract _ kind start _)
  refine K.bind skipInlineBlank_contract fun _ => K.bind (eatChar_contract ',') fun comma => ?_
  split
  · refine K.bind skipInlineBlank_contract fun _ => K.bind number_contract fun most => ?_
    exact closing .range most.toList
  · exact closing .exactRange []

/-- A quantifier does not start with a blank. -/
theorem quantifier_contract : K.keeps .loose .loose quantifier := by
  refine K.bind (K.look _) fun start => K.eatChar (by decide) ?_ ?_
  · exact K.weaken (some_contract (branchFrom_contract _ _ start [])) (.loose _)
  · refine K.eatChar (by decide) ?_ (K.pure _ none)
    refine K.weaken ?_ (.loose .settled)
    refine K.bind skipInlineBlank_contract fun _ => K.bind number_contract ?_
    rintro (_ | least)
    · refine K.bind (reportHere_contract _ rfl) fun _ => K.bind (move_contract ?_) fun _ => K.pure _ none
      exact fun c => Cursor.reaches_advanceBy _ c
    · exact some_contract (quantifierBounds_contract start least)

/-! ## Expressions -/

section

variable {inner : Parse (Option Node)}

theorem primary_contract (h : K.keeps .loose .loose (afterBlank inner)) :
    K.keeps .settled .loose (primary inner) := by
  refine K.bind (K.look _) fun c => ?_
  split
  · exact some_contract (namedCapture_contract h)
  · split
    · exact some_contract (group_contract h)
    · refine K.weaken ?_ (.loose .settled)
      split
      · exact some_contract listMatch_contract
      · exact atom_contract

/-- What follows a primary. -/
theorem quantifying_contract (start : Cursor) (subject : Option Node) : K.keeps .loose .loose (do
    match subject with
    | none => return none
    | some subject =>
      match ← quantifier with
      | none => return some subject
      | some quantifier => return some (← branchFrom .quantified start [subject, quantifier])) := by
  cases subject with
  | none => exact K.pure _ none
  | some subject =>
    refine K.bind quantifier_contract ?_
    rintro (_ | quantifier)
    · exact K.pure _ (some subject)
    · exact some_contract (branchFrom_contract _ _ start _)

theorem quantified_contract (h : K.keeps .loose .loose (afterBlank inner)) :
    K.keeps .settled .loose (quantified inner) :=
  K.bind (K.look _) fun start => K.bind (primary_contract h) fun subject => quantifying_contract start subject

theorem item_contract (h : K.keeps .loose .loose (afterBlank inner)) :
    K.keeps .settled .loose (item inner) := by
  refine K.bind (K.bind (K.look _) fun c => K.pure _ _) fun stops => ?_
  split
  · exact K.weaken (K.pure _ none) (.loose _)
  · exact quantified_contract h

theorem joined_contract (x : Stage) (kind : Kind) (start : Cursor) (first : Node) (further : List Node) :
    K.keeps x x (joined kind start first further) := by
  unfold joined
  split
  · exact K.pure x (some first)
  · exact some_contract (branchFrom_contract _ _ start _)

theorem nextItem_contract (h : K.keeps .loose .loose (afterBlank inner)) :
    K.keeps .loose .loose (afterBlank (item inner)) :=
  afterBlank_contract (item_traceless inner) (item_contract h) (.refl _) (.refl _)

/-- One part, and as many further ones as are found. -/
theorem joining_contract {step : Parse (Option Node)} (h : K.keeps .loose .loose step) (kind : Kind)
    (start : Cursor) (first : Option Node) : K.keeps .loose .loose (do
      match first with
      | none => return none
      | some first =>
        let further ← many step
        joined kind start first further) := by
  cases first with
  | none => exact K.pure _ none
  | some first => exact K.bind (many_contract h) fun further => joined_contract _ _ start first further

theorem concatenation_contract (h : K.keeps .loose .loose (afterBlank inner)) :
    K.keeps .settled .loose (concatenation inner) :=
  K.bind (K.look _) fun start => K.bind (item_contract h) fun first =>
    joining_contract (nextItem_contract h) .concatenation start first

theorem nextBranch_contract (h : K.keeps .loose .loose (afterBlank inner)) :
    K.keeps .loose .loose (nextBranch inner) := by
  refine eatCharAfterBlank_contract '|' ?_ (K.pure _ none)
  have branch := orReportAfterBlank_contract (concatenation_traceless inner) (concatenation_contract h)
    .branchMissing rfl (K.weaken (K.pure _ none) (.loose _)) fun branch => K.pure _ (some branch)
  rwa [bind_pure] at branch

theorem alternation_contract (h : K.keeps .loose .loose (afterBlank inner)) :
    K.keeps .settled .loose (alternation inner) :=
  K.bind (K.look _) fun start => K.bind (concatenation_contract h) fun first =>
    joining_contract (nextBranch_contract h) .alternation start first

end

/-- By induction on the levels that are left; where none is left, nesting goes too deep. -/
theorem expressionWithin_contract (levels : Nat) :
    K.keeps .loose .loose (afterBlank (expressionWithin levels)) := by
  induction levels with
  | zero => exact K.tooDeep
  | succ levels ih =>
    exact afterBlank_contract (alternation_traceless _) (alternation_contract ih) (.refl _) (.refl _)

end PatternRules.Parse

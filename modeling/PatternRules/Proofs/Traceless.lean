import PatternRules.Proofs.Ensures

/-!
Looking for something in vain. Where a `Traceless` reading finds nothing, it leaves the state as it was: the
cursor has not moved and nothing was complained about. That is so of an alternation whatever its groups
contain, since a group is always found, be it as broken as it may. It is not so of an expression for which no
level is left: it finds nothing and is complained about.
-/

namespace PatternRules.Parse

variable {α β : Type}

/-- `p` finds something. -/
def Succeeds (p : Parse (Option α)) : Prop :=
  ∀ limits s, Ensures limits s p fun r _ => r.isSome = true

/-- Where `p` finds nothing, it changes nothing. -/
def Traceless (p : Parse (Option α)) : Prop :=
  ∀ limits s, Ensures limits s p fun r t => r = none → t = s

/-- `p` only looks. -/
def Silent (p : Parse α) : Prop := ∀ limits s, Ensures limits s p fun _ t => t = s

namespace Succeeds

theorem pure (a : α) : Succeeds (Pure.pure (some a)) := fun _ _ => rfl

theorem bind {p : Parse α} {f : α → Parse (Option β)} (h : ∀ a, Succeeds (f a)) : Succeeds (p >>= f) :=
  fun limits _ => h _ limits _

/-- A result of which something is made. -/
theorem map {p : Parse α} {f : α → β} : Succeeds (do return some (f (← p))) :=
  .bind fun a => .pure (f a)

theorem traceless {p : Parse (Option α)} (h : Succeeds p) : Traceless p := by
  intro limits s
  refine (h limits s).mono ?_
  rintro _ t found rfl
  cases found

end Succeeds

namespace Traceless

theorem none : Traceless (Pure.pure (Option.none : Option α)) := fun _ _ _ => rfl

theorem looking {p : Parse α} {f : α → Parse (Option β)} (silent : Silent p)
    (h : ∀ a, Traceless (f a)) : Traceless (p >>= f) := by
  intro limits s
  refine (silent limits s).bind ?_
  rintro a _ rfl
  exact h a limits _

theorem bind {p : Parse (Option α)} {f : Option α → Parse (Option β)} (h : Traceless p)
    (nothing : Traceless (f Option.none)) (found : ∀ a, Succeeds (f (some a))) : Traceless (p >>= f) := by
  intro limits s
  refine (h limits s).bind ?_
  rintro (_ | a) t same
  · rw [same rfl]
    exact nothing limits s
  · refine (found a limits t).mono ?_
    rintro _ u isSome rfl
    cases isSome

/-- A match, and what is done where it fails and where it succeeds. -/
theorem accepting {match? : Cursor → Option Cursor} {f : Bool → Parse (Option α)}
    (fails : Traceless (f false)) (succeeds : Succeeds (f true)) : Traceless (accept match? >>= f) := by
  intro limits s
  simp only [accept, ensures_bind, ensures_cursor]
  split
  · next c matched =>
    rw [ensures_bind, moveTo, ensures_modify, ensures_pure]
    refine (succeeds limits _).mono ?_
    rintro _ t isSome rfl
    cases isSome
  · exact fails limits s

end Traceless

theorem cursor_silent : Silent cursor := fun _ _ => rfl

theorem peek_silent : Silent peek := fun _ _ => rfl

theorem atBoundary_silent : Silent atBoundary := fun _ _ => rfl

theorem errorCount_silent : Silent errorCount := fun _ _ => rfl

theorem errorsFull_silent : Silent errorsFull := fun _ _ => rfl

/-! ## Small parts -/

theorem found_traceless (match? : Cursor → Option Cursor) : Traceless (found (accept match?)) :=
  .accepting .none (.pure ())

theorem identifier_traceless : Traceless identifier := by
  refine .looking cursor_silent fun c => ?_
  split
  · exact Succeeds.map.traceless
  · exact .none

theorem string_traceless : Traceless string := by
  refine .looking cursor_silent fun start => ?_
  split
  · refine Succeeds.traceless (.bind fun _ => ?_)
    split
    · exact .bind fun _ => .bind fun _ => .map
    · exact .map
  · exact .none

/-! ## Expressions -/

theorem atom_traceless : Traceless atom := by
  refine .looking peek_silent ?_
  rintro (_ | c)
  · exact .none
  · dsimp only
    split
    · exact Succeeds.map.traceless
    · split
      · exact Succeeds.map.traceless
      · split
        · exact Succeeds.map.traceless
        · split
          · exact Succeeds.map.traceless
          · split
            · exact string_traceless
            · exact identifier_traceless

section

variable (inner : Parse (Option Node))

theorem primary_traceless : Traceless (primary inner) := by
  refine .looking cursor_silent fun c => ?_
  split
  · exact Succeeds.map.traceless
  · split
    · exact Succeeds.map.traceless
    · split
      · exact Succeeds.map.traceless
      · exact atom_traceless

theorem quantified_traceless : Traceless (quantified inner) := by
  refine .looking cursor_silent fun start => ?_
  refine (primary_traceless inner).bind .none fun subject => .bind ?_
  rintro (_ | quantifier)
  · exact .pure subject
  · exact .map

theorem item_traceless : Traceless (item inner) := by
  refine .looking atBoundary_silent fun stops => ?_
  split
  · exact .none
  · exact quantified_traceless inner

theorem joined_succeeds (kind : Kind) (start : Cursor) (first : Node) (further : List Node) :
    Succeeds (joined kind start first further) := by
  unfold joined
  split
  · exact .pure first
  · exact .map

theorem concatenation_traceless : Traceless (concatenation inner) := by
  refine .looking cursor_silent fun start => ?_
  refine (item_traceless inner).bind .none fun first => .bind fun further => ?_
  exact joined_succeeds _ start first further

theorem alternation_traceless : Traceless (alternation inner) := by
  refine .looking cursor_silent fun start => ?_
  refine (concatenation_traceless inner).bind .none fun first => .bind fun further => ?_
  exact joined_succeeds _ start first further

end

/-! ## Clauses and statements -/

theorem resolverScope_traceless : Traceless resolverScope := by
  refine .looking cursor_silent fun c => ?_
  split
  · exact .none
  · split
    · exact Succeeds.map.traceless
    · exact .none

theorem resolverMethod_traceless : Traceless resolverMethod := by
  refine .looking cursor_silent fun start => ?_
  refine identifier_traceless.bind .none fun name => .bind fun c => ?_
  split
  · exact .bind fun arguments => .map
  · exact .map

theorem methodBeforeOptions_traceless : Traceless methodBeforeOptions := by
  refine .looking cursor_silent fun c => ?_
  split
  · exact .none
  · exact resolverMethod_traceless

theorem usesWithClause_traceless : Traceless usesWithClause :=
  .looking cursor_silent fun _ => .accepting .none .map

theorem ruleUses_traceless : Traceless ruleUses := by
  refine .looking cursor_silent fun c => ?_
  split
  · exact usesWithClause_traceless
  · exact .none

theorem versionLiteral_traceless : Traceless versionLiteral := by
  refine .looking cursor_silent fun c => ?_
  split
  · exact Succeeds.map.traceless
  · exact .none

theorem aliasName_traceless : Traceless aliasName := by
  refine .looking cursor_silent fun c => ?_
  split
  · exact .none
  · exact identifier_traceless

theorem singleEquals_traceless : Traceless singleEquals := by
  refine .looking cursor_silent fun c => ?_
  split
  · exact Succeeds.traceless (.bind fun _ => .pure ())
  · exact .none

theorem rule_traceless : Traceless rule := by
  refine .looking cursor_silent fun start => .looking errorCount_silent fun before => ?_
  refine identifier_traceless.bind .none fun name => .bind fun tail => ?_
  exact .bind fun node => .bind fun behind => .pure _

theorem nextRule_traceless : Traceless nextRule := by
  refine .looking cursor_silent fun c => .looking errorsFull_silent fun full => ?_
  split
  · exact .none
  · refine rule_traceless.bind .none fun rule => ?_
    dsimp only
    split
    · exact .bind fun _ => .bind fun _ => .pure rule.node
    · exact .bind fun _ => .pure rule.node

end PatternRules.Parse

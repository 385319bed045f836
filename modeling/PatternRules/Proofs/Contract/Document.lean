import PatternRules.Proofs.Contract.Statement

/-!
Documents keep every contract that does not tell stages apart and may be kept whatever the number of errors
is. Behind a broken statement reading goes on further down, which such a contract does not mind.
-/

namespace PatternRules

open Parse

/-- A contract that is the same at all stages, and that is kept by readings that ask how many errors there
are. -/
structure Contract.Stageless (K : Contract) : Prop where
  same : ∀ {α : Type} {x y : Stage} {p : Parse α}, K.keeps x y p → K.keeps .settled .settled p
  counting : ∀ {α : Type} {f : Nat → Parse α}, (∀ n, K.keeps .settled .settled (f n)) →
    K.keeps .settled .settled (errorCount >>= f)
  asking : ∀ {α : Type} {f : Bool → Parse α}, (∀ full, K.keeps .settled .settled (f full)) →
    K.keeps .settled .settled (errorsFull >>= f)

namespace Parse

variable {K : Contract}

/-- Behind a statement reading goes on elsewhere, perhaps. -/
theorem leaving_contract {α : Type} {c : Prop} [Decidable c] {f : Cursor → Cursor}
    (forward : ∀ c : Cursor, c.Reaches (f c)) (a : α) : K.keeps .settled .settled (do
      if c then
        move f
      skipBlank
      return a) := by
  have last : K.keeps .settled .settled (do skipBlank; return a) := K.bind skipBlank_contract fun _ => K.pure _ a
  split
  · exact K.bind (move_contract forward) fun _ => last
  · exact last

theorem versionSection_contract : K.keeps .settled .settled versionSection := by
  refine K.bind (K.look _) fun c => ?_
  split
  · exact K.bind versionStatement_contract fun node => K.bind skipBlank_contract fun _ => K.pure _ [node]
  · exact K.pure _ []

section

variable (stageless : K.Stageless)
include stageless

theorem rule_contract : K.keeps .settled .settled rule := by
  refine K.bind (K.look _) fun start => stageless.counting fun before => K.bind identifier_contract ?_
  rintro (_ | name)
  · exact K.pure _ none
  · refine K.bind (stageless.same (ruleTail_contract _)) fun parts => ?_
    exact K.bind (branchFrom_contract _ _ start _) fun node => stageless.counting fun after => K.pure _ _

theorem nextRule_contract : K.keeps .settled .settled nextRule := by
  refine K.bind (K.look _) fun c => stageless.asking fun full => ?_
  split
  · exact K.pure _ none
  · refine K.bind (rule_contract stageless) ?_
    rintro (_ | rule)
    · exact K.pure _ none
    · exact leaving_contract Cursor.reaches_synchronize (some rule.node)

theorem nextImport_contract : K.keeps .settled .settled nextImport := by
  refine K.bind (K.look _) fun c => ?_
  split
  · refine stageless.asking fun full => ?_
    split
    · exact K.pure _ none
    · refine stageless.counting fun before => K.bind importStatement_contract fun node => ?_
      exact stageless.counting fun after => leaving_contract Cursor.reaches_skipLine (some node)
  · exact K.pure _ none

theorem resolverSection_contract : K.keeps .settled .settled resolverSection := by
  refine K.bind (K.bind (K.look _) fun c => K.pure _ _) fun here => ?_
  split
  · refine stageless.counting fun before => K.bind resolverDefault_contract fun node => ?_
    exact stageless.counting fun after => leaving_contract Cursor.reaches_synchronize [node]
  · exact K.pure _ []

/-- **Every part of a document keeps the contract.** -/
theorem document_contract : K.keeps .settled .settled document := by
  have imports := many_contract (nextImport_contract stageless)
  have rules := many_contract (nextRule_contract stageless)
  refine K.bind (K.look _) fun start => K.bind skipBlank_contract fun _ => ?_
  refine K.bind versionSection_contract fun version => K.bind imports fun imports => ?_
  refine K.bind (resolverSection_contract stageless) fun resolver => K.bind rules fun rules => ?_
  exact branchFrom_contract _ _ start _

end

end Parse

end PatternRules

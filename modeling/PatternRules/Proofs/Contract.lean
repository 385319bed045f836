import PatternRules.Proofs.Accepts
import PatternRules.Proofs.Reach
import PatternRules.Proofs.Traceless

/-!
Contracts of readings. A `Contract` is something that is so of the basic steps and that is kept when readings
are put together; whatever is, every part of the grammar keeps it. It may speak of where complaints stand, in
three stages before and behind a reading:

* `Stage.settled`: none stands behind the cursor;
* `Stage.since start`: none stands behind `start`, from where on something has been read;
* `Stage.loose`: none stands behind the blanks at the cursor, and one stands behind the cursor itself only
  where nesting went too deep, after which nothing is said about the nesting any more.

What is not found behind blanks is complained about in front of them. That is in order because looking for
it in vain leaves no trace (`orReportAfterBlank_contract`).
-/

namespace PatternRules

/-- How far complaints go. -/
inductive Stage where
  | since (start : Cursor)
  | settled
  | loose

/-- From the stricter stage to the looser one. -/
inductive Stage.Le : Stage → Stage → Prop
  | refl (x : Stage) : Le x x
  | settled (start : Cursor) : Le (since start) settled
  | loose (x : Stage) : Le x loose

namespace Complaint

/-- Whether a complaint may be made anywhere. That nesting goes too deep and that a string has no end is only
said where it is so. -/
def isPlain : Complaint → Bool
  | nestingTooDeep _ | stringUnterminated => false
  | _ => true

/-- The letters with which a complaint begins. -/
def opening : Complaint → List Char
  | importFlagUnknown _ | resolverFlagUnknown _ => ['U', 'n', 'k', 'n']
  | escapeIncomplete => ['I', 'n', 'c', 'o']
  | stringUnterminated => ['U', 'n', 't', 'e']
  | numberTooLarge _ => ['N', 'u', 'm', 'b']
  | nestingTooDeep _ => ['E', 'x', 'p', 'r']
  | _ => ['E', 'x', 'p', 'e']

theorem take_message (complaint : Complaint) : complaint.message.toList.take 4 = complaint.opening := by
  -- A word that is quoted stands behind the first letters.
  have quoting {front : List Char} (long : 4 ≤ front.length) (word behind : String) :
      (String.ofList front ++ word ++ behind).toList.take 4 = front.take 4 := by
    rw [String.append_assoc, String.toList_append, String.toList_ofList, List.take_append_of_le_length long]
  cases complaint with
  | importFlagUnknown word => exact quoting (by decide) word "'"
  | equalsMissing rule => exact quoting (by decide) rule "'"
  | ruleBodyMissing rule => exact quoting (by decide) rule "'"
  | resolverFlagUnknown word => exact quoting (by decide) word "'"
  | numberTooLarge digits => exact quoting (by decide) digits "' is too large"
  | nestingTooDeep limit => exact quoting (by decide) (toString limit) ")"
  | _ => exact congrArg (List.take 4) String.toList_ofList

theorem message_ne {complaint other : Complaint} (h : complaint.opening ≠ other.opening) :
    complaint.message ≠ other.message := by
  intro same
  refine h ?_
  rw [← take_message, ← take_message, same]

/-- What may be said anywhere is put in other words than what may not. -/
theorem message_ne_of_isPlain {complaint other : Complaint} (plain : complaint.isPlain = true)
    (special : other.isPlain = false) : complaint.message ≠ other.message := by
  have openings : complaint.opening ≠ ['E', 'x', 'p', 'r'] ∧ complaint.opening ≠ ['U', 'n', 't', 'e'] := by
    cases complaint with
    | nestingTooDeep limit => cases plain
    | stringUnterminated => cases plain
    | _ => exact ⟨by simp [opening], by simp [opening]⟩
  refine message_ne ?_
  cases other with
  | nestingTooDeep limit => exact openings.1
  | stringUnterminated => exact openings.2
  | _ => cases special

end Complaint

open Parse

/-- A statement about readings that lead from one stage to another. -/
structure Contract where
  keeps : {α : Type} → Stage → Stage → Parse α → Prop
  mono : ∀ {α : Type} {x x' y : Stage} {p : Parse α}, x.Le x' → keeps x' y p → keeps x y p
  pure : ∀ {α : Type} (x : Stage) (a : α), keeps x x (pure a)
  bind : ∀ {α β : Type} {x y z : Stage} {p : Parse α} {f : α → Parse β},
    keeps x y p → (∀ a, keeps y z (f a)) → keeps x z (p >>= f)
  look : ∀ x, keeps x x cursor
  start : ∀ {α : Type} {y : Stage} {f : Cursor → Parse α},
    (∀ c, keeps (.since c) y (f c)) → keeps .settled y (cursor >>= f)
  moveOn : ∀ {f : Cursor → Cursor} (start : Cursor), (∀ c : Cursor, c.Reaches (f c)) →
    keeps (.since start) (.since start) (move f)
  spanFrom : ∀ {α : Type} {x y : Stage} {start : Cursor} {f : Span → Parse α},
    (∀ span, span.start = start.position → keeps x y (f span)) → keeps x y (spanFrom start >>= f)
  report : ∀ {start : Cursor} (complaint : Complaint) {span : Span}, complaint.isPlain = true →
    span.start = start.position → keeps (.since start) .settled (report complaint span)
  reportUnlessNested : ∀ complaint, complaint.isPlain = true →
    keeps .loose .loose (reportUnlessNested complaint)
  string : keeps .settled .settled string
  tooDeep : keeps .loose .loose (afterBlank (expressionWithin 0))
  accept : ∀ {match? : Cursor → Option Cursor}, (∀ c d, match? c = some d → c.Reaches d) →
    keeps .settled .settled (accept match?)
  eatChar : ∀ {α : Type} {z : Stage} {c : Char} {f : Bool → Parse α}, opensBlank c = false →
    keeps .settled z (f true) → keeps .loose z (f false) → keeps .loose z (eatChar c >>= f)
  afterBlank : ∀ {α β : Type} {x y z : Stage} {p : Parse (Option α)} {f : Option α → Parse β},
    Traceless p → keeps .settled y p → keeps x z (f none) → (∀ a, keeps y z (f (some a))) →
    keeps x z (afterBlank p >>= f)
  depth : ∀ {α : Type} {x y : Stage} {f : Nat → Parse α}, (∀ n, keeps x y (f (n + 1))) →
    keeps x y (do f (← read).depth)

/-- A statement about readings that says nothing about places. -/
structure Placeless where
  keeps : {α : Type} → Parse α → Prop
  pure : ∀ {α : Type} (a : α), keeps (pure a)
  bind : ∀ {α β : Type} {p : Parse α} {f : α → Parse β}, keeps p → (∀ a, keeps (f a)) → keeps (p >>= f)
  looking : ∀ {α : Type} {f : Cursor → Parse α}, (∀ c, keeps (f c)) → keeps (cursor >>= f)
  move : ∀ f, keeps (move f)

namespace Placeless

variable (K : Placeless)

theorem accept (match? : Cursor → Option Cursor) : K.keeps (accept match?) := by
  refine K.looking fun c => ?_
  split
  · next d _ => exact K.bind (K.move fun _ => d) fun _ => K.pure true
  · exact K.pure false

theorem afterBlank {α : Type} {p : Parse (Option α)} (h : K.keeps p) : K.keeps (afterBlank p) := by
  refine K.looking fun start => K.bind (K.move _) fun _ => K.bind h ?_
  rintro (_ | a)
  · exact K.bind (K.move fun _ => start) fun _ => K.pure none
  · exact K.pure (some a)

theorem spanFrom (start : Cursor) : K.keeps (spanFrom start) := K.looking fun _ => K.pure _

theorem textNodeFrom (kind : Kind) (start : Cursor) (children : List Node) :
    K.keeps (textNodeFrom kind start children) :=
  K.bind (K.looking fun _ => K.pure _) fun _ => K.bind (K.spanFrom start) fun _ => K.pure _

theorem string (unterminated : ∀ span, K.keeps (report .stringUnterminated span)) : K.keeps string := by
  refine K.looking fun start => ?_
  split
  · have leaf : K.keeps (do return some (← Parse.textNodeFrom .string start [])) :=
      K.bind (K.textNodeFrom .string start []) fun node => K.pure (some node)
    refine K.bind (K.move _) fun _ => ?_
    split
    · exact K.bind (K.spanFrom start) fun span => K.bind (unterminated span) fun _ => leaf
    · exact leaf
  · exact K.pure none

end Placeless

theorem Contract.weaken (K : Contract) {α : Type} {x y z : Stage} {p : Parse α} (h : K.keeps x y p)
    (le : y.Le z) : K.keeps x z p := by
  have := K.bind h fun a => K.mono le (K.pure z a)
  rwa [bind_pure] at this

namespace Parse

variable {K : Contract} {α β : Type} {x y z : Stage}

/-! ## Steps -/

theorem peek_contract (x : Stage) : K.keeps x x peek := K.bind (K.look x) fun _ => K.pure x _

theorem move_contract {f : Cursor → Cursor} (h : ∀ c : Cursor, c.Reaches (f c)) :
    K.keeps .settled .settled (move f) := by
  have := K.start fun start => K.weaken (K.moveOn start h) (.settled start)
  exact this

theorem skipBlank_contract : K.keeps .settled .settled skipBlank := move_contract Cursor.reaches_skipBlank

theorem skipInlineBlank_contract : K.keeps .settled .settled skipInlineBlank :=
  move_contract Cursor.reaches_skipInlineBlank

theorem advance_contract : K.keeps .settled .settled (move Cursor.advance) :=
  move_contract Cursor.reaches_advance

theorem advanceBy_contract (n : Nat) : K.keeps .settled .settled (move (·.advanceBy n)) :=
  move_contract (Cursor.reaches_advanceBy n)

theorem textFrom_contract (x : Stage) (start : Cursor) : K.keeps x x (textFrom start) :=
  K.bind (K.look x) fun _ => K.pure x _

theorem branchFrom_contract (x : Stage) (kind : Kind) (start : Cursor) (children : List Node) :
    K.keeps x x (branchFrom kind start children) :=
  K.spanFrom fun _ _ => K.pure x _

theorem textNodeFrom_contract (x : Stage) (kind : Kind) (start : Cursor) (children : List Node) :
    K.keeps x x (textNodeFrom kind start children) :=
  K.bind (textFrom_contract x start) fun _ => K.spanFrom fun _ _ => K.pure x _

theorem takeLeaf_contract (kind : Kind) (n : Nat) : K.keeps .settled .settled (takeLeaf kind n) :=
  K.bind (K.look _) fun start => K.bind (advanceBy_contract n) fun _ => textNodeFrom_contract _ kind start []

/-- A result of which something is made. -/
theorem some_contract {p : Parse α} (h : K.keeps x y p) : K.keeps x y (do return some (← p)) :=
  K.bind h fun a => K.pure y (some a)

theorem eatChar_contract (c : Char) : K.keeps .settled .settled (eatChar c) :=
  K.accept fun _ _ => Cursor.reaches_of_consume?

theorem eatLiteral_contract (literal : String) : K.keeps .settled .settled (eatLiteral literal) :=
  K.accept fun _ _ => Cursor.reaches_of_consumeLiteral?

theorem eatWord_contract (word : String) : K.keeps .settled .settled (eatWord word) :=
  K.accept fun _ _ => Cursor.reaches_of_consumeWord?

/-! ## Complaints -/

theorem reportHere_contract (complaint : Complaint) (plain : complaint.isPlain = true) :
    K.keeps .settled .settled (reportHere complaint) :=
  K.start fun _ => K.report complaint plain rfl

/-- What may have to be complained about. -/
theorem complaining_contract {c : Prop} [Decidable c] {complain : Parse Unit} {rest : Unit → Parse α}
    (h : K.keeps x x complain) (next : K.keeps x y (rest ())) :
    K.keeps x y (if c then complain >>= rest else rest ()) := by
  split
  · exact K.bind h fun _ => next
  · exact next

theorem orReport_contract {p : Parse (Option α)} (h : K.keeps x .settled p) (complaint : Complaint)
    (plain : complaint.isPlain = true) : K.keeps x .settled (orReport complaint p) :=
  K.bind h fun r => complaining_contract (reportHere_contract complaint plain) (K.pure _ r)

/-! ## Behind blanks -/

theorem afterBlank_contract {p : Parse (Option α)} (traceless : Traceless p) (h : K.keeps .settled y p)
    (before : x.Le z) (behind : y.Le z) : K.keeps x z (afterBlank p) := by
  have := K.afterBlank traceless h (K.mono before (K.pure z none))
    fun a => K.mono behind (K.pure z (some a))
  rwa [bind_pure] at this

/-- What has to be found behind blanks: that it is not is said in front of them. -/
theorem orReportAfterBlank_contract {p : Parse (Option α)} (traceless : Traceless p)
    (h : K.keeps .settled y p) (complaint : Complaint) (plain : complaint.isPlain = true)
    {f : Option α → Parse β} (nothing : K.keeps .settled z (f none)) (found : ∀ a, K.keeps y z (f (some a))) :
    K.keeps .settled z (orReport complaint (afterBlank p) >>= f) := by
  have complained : K.keeps .settled z (do reportHere complaint; f none) :=
    K.bind (reportHere_contract complaint plain) fun _ => nothing
  rw [orReport, bind_assoc]
  exact K.afterBlank traceless h complained found

theorem eatCharAfterBlank_contract (c : Char) {f : Bool → Parse α} (yes : K.keeps .settled z (f true))
    (no : K.keeps x z (f false)) : K.keeps x z (eatCharAfterBlank c >>= f) := by
  rw [eatCharAfterBlank, bind_assoc]
  refine K.afterBlank (found_traceless _) ?_ no fun _ => yes
  exact K.bind (eatChar_contract c) fun _ => K.pure _ _

theorem eatWordAfterBlank_contract (word : String) {f : Bool → Parse α} (yes : K.keeps .settled z (f true))
    (no : K.keeps x z (f false)) : K.keeps x z (eatWordAfterBlank word >>= f) := by
  rw [eatWordAfterBlank, bind_assoc]
  refine K.afterBlank (found_traceless _) ?_ no fun _ => yes
  exact K.bind (eatWord_contract word) fun _ => K.pure _ _

/-! ## Repetition -/

theorem manyFuel_contract {step : Parse (Option α)} (h : K.keeps x x step) (fuel : Nat) :
    K.keeps x x (manyFuel step fuel) := by
  induction fuel with
  | zero => exact K.pure x []
  | succ fuel ih =>
    refine K.bind h ?_
    rintro (_ | item)
    · exact K.pure x []
    · exact K.bind ih fun items => K.pure x (item :: items)

theorem many_contract {step : Parse (Option α)} (h : K.keeps x x step) : K.keeps x x (many step) :=
  K.bind (K.look x) fun _ => manyFuel_contract h _

theorem commaList_contract {item : Parse (Option α)} (h : K.keeps .settled .settled item) :
    K.keeps .settled .settled (commaList item) := by
  refine K.bind h ?_
  rintro (_ | first)
  · exact K.pure _ []
  · refine K.bind (many_contract ?_) fun further => K.pure _ (first :: further)
    exact eatCharAfterBlank_contract ',' h (K.pure _ none)

/-! ## Leaves -/

theorem identifier_contract : K.keeps .settled .settled identifier := by
  refine K.bind (K.look _) fun c => ?_
  split
  · exact some_contract (takeLeaf_contract _ _)
  · exact K.pure _ none

theorem string_contract : K.keeps .settled .settled string := K.string

theorem number_contract : K.keeps .settled .settled number := by
  refine K.start fun start => ?_
  dsimp only
  split
  · exact K.mono (.settled start) (K.pure _ none)
  · refine K.bind (K.moveOn start (Cursor.reaches_advanceBy _)) fun _ => K.spanFrom fun span place => ?_
    split
    · exact K.mono (.settled start) (K.pure _ _)
    · exact K.bind (K.report _ rfl place) fun _ => K.pure _ _

end Parse

end PatternRules

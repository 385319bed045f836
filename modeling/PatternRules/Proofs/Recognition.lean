import PatternRules.Proofs.Coordinates
import PatternRules.Proofs.Impartial
import PatternRules.Proofs.InOrder
import PatternRules.Proofs.SameLine
import PatternRules.Proofs.Twin.Document

/-!
Where a rule begins, to a reader and to one who looks ahead. Reading a rule goes on from its name to the `=`
over any blanks, newlines and comments among them (`missesEquals_iff`). Looking ahead for a rule, as
expressions do to find their end and as recovery does to find where to go on, stays on the line of the name.

* `startsAssignment_dropWhile_iff`: what the two make of the same blanks;
* `ComesTo.start_le`: nothing is complained about in front of where a reading starts, so that what is
  complained about behind the name is the `=`;
* `item_nothing_iff`: where an expression goes on in front of a word;
* `Cursor.synchronize_reaches`, `Cursor.synchronize_stops`: what recovery does not pass, and where it ends.
-/

namespace PatternRules

/-! ## Blanks behind a word -/

/-- A comment ends with its line or with the text. -/
theorem comment_ends (cs : List Char) :
    '\n' ∈ cs.take (blankRun true cs) ∨ cs.drop (blankRun true cs) = [] := by
  induction cs with
  | nil => exact .inr rfl
  | cons c cs ih =>
    by_cases newline : c = '\n'
    · exact .inl (by simp [blankRun, newline])
    · have goesOn : (c != '\n') = true := bne_iff_ne.2 newline
      rw [blankRun, if_pos rfl, goesOn, List.take_succ_cons, List.drop_succ_cons]
      exact ih.imp_left (List.mem_cons_of_mem _)

/-- **A `=` behind blanks is seen from the line** if and only if the blanks stay on it. -/
theorem startsAssignment_dropWhile_iff {cs : List Char}
    (sign : startsAssignment (cs.drop (blankRun false cs)) = true) :
    startsAssignment (cs.dropWhile isInlineBlank) = true ↔
      (cs.take (blankRun false cs)).all inLine = true := by
  induction cs with
  | nil => cases sign
  | cons c cs ih =>
    by_cases blank : isBlank c = true
    · have run : blankRun false (c :: cs) = blankRun false cs + 1 := by simp [blankRun, blank]
      rw [run, List.drop_succ_cons] at sign
      rw [run, List.take_succ_cons, List.all_cons]
      by_cases inline : isInlineBlank c = true
      · have inside : inLine c = true := inLine_of (outside rfl rfl) inline
        rw [List.dropWhile_cons_of_pos inline, inside, Bool.true_and]
        exact ih sign
      · -- A line end is left where it is, and it is no sign.
        have lineEnd : inLine c = false := by
          rw [Bool.not_eq_true] at inline
          simp only [isBlank, inline, Bool.false_or, Bool.or_eq_true, beq_iff_eq] at blank
          rcases blank with rfl | rfl
          · rfl
          · rfl
        rw [List.dropWhile_cons_of_neg inline, startsAssignment_of_ne (ne_of_kind blank rfl), lineEnd,
          Bool.false_and]
    · have notInline : ¬ isInlineBlank c = true := fun inline => blank (by rw [isBlank, inline]; rfl)
      rw [List.dropWhile_cons_of_neg notInline]
      by_cases comment : c = '#'
      · subst comment
        have run : blankRun false ('#' :: cs) = blankRun true cs + 1 := rfl
        rw [run, List.drop_succ_cons] at sign
        have newline : '\n' ∈ cs.take (blankRun true cs) := by
          refine (comment_ends cs).resolve_right fun nothing => ?_
          rw [nothing] at sign
          cases sign
        rw [startsAssignment_of_ne (by decide), run, List.take_succ_cons, List.all_cons]
        constructor
        · intro none
          cases none
        · intro all
          rw [Bool.and_eq_true, List.all_eq_true] at all
          cases all.2 _ newline
      · have run : blankRun false (c :: cs) = 0 := by simp [blankRun, blank, comment]
        rw [run] at sign ⊢
        exact ⟨fun _ => rfl, fun _ => sign⟩

namespace Cursor

variable {c d e : Cursor}

/-- Whether the blanks behind the word that comes next stay on its line. -/
def blanksOnLine (c : Cursor) : Bool :=
  let behind := (c.skipWhile isWordChar).rest
  (behind.take (blankRun false behind)).all inLine

theorem atRuleStart_iff (start : c.peek.any isIdentStart = true)
    (sign : startsAssignment (c.skipWhile isWordChar).skipBlank.rest = true) :
    c.atRuleStart = true ↔ c.blanksOnLine = true := by
  rw [skipBlank, rest_advanceBy, rest_skipWhile] at sign
  have first : c.rest.head?.any isIdentStart = true := start
  rw [atRuleStart, startsRule, first, Bool.true_and, blanksOnLine, rest_skipWhile]
  exact startsAssignment_dropWhile_iff sign

end Cursor

/-! ## What a rule complains about -/

namespace Parse

variable {α : Type} {limits : Limits} {s : ParseState}

/-- **Nothing is complained about in front of where a reading starts.** An error that was recorded there
stays the first one of all in their order. -/
theorem ComesTo.start_le {depth : Nat} {c : Cursor} {nested : Bool} {p : Parse α} {y : Stage} {o : Outcome α}
    (comes : ComesTo depth c nested p o) (ordered : Contract.inOrder.keeps .settled y p)
    (deep : 0 < depth) : ∀ e ∈ o.complaints, c.position ≤ e.span.start := by
  have first : Stage.settled.Holds ⟨c, [⟨"", c.nextSpan⟩], nested⟩ :=
    (SyntaxError.InOrder.nil c).snoc (e := ⟨"", c.nextSpan⟩) rfl
  have behind := ordered ⟨depth, o.complaints.length + 1⟩ _ deep first
  obtain ⟨-, ends⟩ := comes (o.complaints.length + 1) [⟨"", c.nextSpan⟩]
  have sorted := behind.loose
  rw [ends] at sorted
  have pairwise : (⟨"", c.nextSpan⟩ :: o.complaints).Pairwise
      fun e e' : SyntaxError => e.span.start ≤ e'.span.start := by
    have all : (o.state (o.complaints.length + 1) [⟨"", c.nextSpan⟩]).errors =
        ⟨"", c.nextSpan⟩ :: o.complaints := by
      simp [Outcome.state]
    rw [← all]
    rcases sorted with settled | ⟨-, settled⟩
    · exact settled.sorted
    · exact settled.sorted
  exact (List.pairwise_cons.1 pairwise).1

theorem recorded_start_le {p : Parse α} {y : Stage} (h : ∀ K : Contract, K.keeps .settled y p)
    (deep : 0 < limits.depth) : Ensures limits s p fun _ t =>
      ∀ e ∈ t.errors.drop s.errors.length, s.cursor.position ≤ e.span.start := by
  obtain ⟨o, comes⟩ := h .impartial limits.depth deep s.cursor s.nestingReported
  refine (comes limits.errors s.errors).mono ?_
  rintro _ _ ⟨-, rfl⟩ e new
  rw [Outcome.state, List.drop_left] at new
  exact comes.start_le (h .inOrder) deep e (List.mem_of_mem_take new)

/-- What is complained about behind the `=` of a rule stands behind it. -/
theorem rule_complaints_behind (deep : 0 < limits.depth) (start : s.cursor.peek.any isIdentStart = true)
    (sign : startsAssignment (s.cursor.skipWhile isWordChar).skipBlank.rest = true) :
    Ensures limits s rule fun _ t => ∀ e ∈ t.errors.drop s.errors.length,
      (s.cursor.skipWhile isWordChar).skipBlank.advance.position ≤ e.span.start := by
  simp only [rule, ensures_bind, ensures_cursor, ensures_errorCount]
  refine (identifier_of_start start).mono ?_
  rintro _ _ ⟨name, rfl, -, -, -, rfl⟩
  simp only [ruleTail_eq, orReport, afterBlank, singleEquals, ensures_bind, ensures_cursor, ensures_skipBlank,
    sign, if_true, ensures_move]
  exact recorded_start_le (s := { s with cursor := (s.cursor.skipWhile isWordChar).skipBlank.advance })
    (fun K => ruleBody_contract _) deep

/-- Reading a rule complains that no `=` follows its name. -/
def MissesEquals (limits : Limits) (s : ParseState) : Prop :=
  Ensures limits s rule fun _ t =>
    ⟨(Complaint.equalsMissing (String.ofList (s.cursor.run isWordChar))).message,
      (s.cursor.skipWhile isWordChar).nextSpan⟩ ∈ t.errors.drop s.errors.length

instance (limits : Limits) (s : ParseState) : Decidable (MissesEquals limits s) :=
  inferInstanceAs (Decidable (_ ∈ List.drop _ _))

/-- **A rule misses its `=`** unless a single one stands behind its name and any blanks. -/
theorem missesEquals_iff (deep : 0 < limits.depth) (room : s.errors.length < limits.errors)
    (start : s.cursor.peek.any isIdentStart = true) : MissesEquals limits s ↔
      startsAssignment (s.cursor.skipWhile isWordChar).skipBlank.rest = false := by
  constructor
  · intro misses
    rw [← Bool.not_eq_true]
    intro sign
    have behind := rule_complaints_behind deep start sign _ misses
    have left : (s.cursor.skipWhile isWordChar).skipBlank.rest ≠ [] := by
      intro nothing
      rw [nothing] at sign
      cases sign
    have before : (s.cursor.skipWhile isWordChar).position <
        (s.cursor.skipWhile isWordChar).skipBlank.advance.position := by
      rcases Position.le_or_lt (s.cursor.skipWhile isWordChar).skipBlank.advance.position
        (s.cursor.skipWhile isWordChar).position with le | lt
      · have ahead := (Cursor.reaches_skipBlank (s.cursor.skipWhile isWordChar)).position_le
        exact absurd (Cursor.position_lt_advance left) (Position.not_lt_of_le (Position.le_trans le ahead))
      · exact lt
    exact Position.not_lt_of_le behind before
  · intro missing
    have complains : Complains limits s rule _ := rule_complains start missing
    refine complains.mono ?_
    intro _ t further
    have recorded := further.front
    rw [ParseState.recording, if_neg (Nat.not_le.2 room)] at recorded
    obtain ⟨more, all⟩ := recorded
    rw [← all, List.append_assoc, List.drop_left]
    exact List.mem_append_left _ List.mem_cons_self

/-! ## Where expressions end -/

/-- A word is an operand. -/
theorem primary_of_start {inner : Parse (Option Node)} (start : s.cursor.peek.any isIdentStart = true) :
    Ensures limits s (primary inner) fun r _ => r.isSome = true := by
  obtain ⟨c, next, first⟩ := (Option.any_eq_true _ _).1 start
  have other (d : Char) (h : isIdentStart d = false) : c ≠ d := ne_of_kind first h
  have notNext (d : Char) (h : isIdentStart d = false) : s.cursor.rest[0]? ≠ some d := by
    rw [← List.head?_eq_getElem?]
    show s.cursor.peek ≠ some d
    rw [next]
    exact fun same => other d h (Option.some.inj same)
  have capture : s.cursor.checkLiteral "(?P<" = false :=
    Cursor.checkLiteral_eq_false 0 '(' rfl (notNext '(' rfl)
  have list : s.cursor.checkLiteral "[[" = false := Cursor.checkLiteral_eq_false 0 '[' rfl (notNext '[' rfl)
  simp only [primary, atom, ensures_bind, ensures_cursor, ensures_peek, capture, list, next,
    Option.some.injEq, other '(' rfl, other '\\' rfl, other '^' rfl, other '$' rfl, other '.' rfl,
    other '[' rfl, other '"' rfl, Bool.false_eq_true, or_self, if_false]
  refine (identifier_of_start start).mono ?_
  rintro _ _ ⟨name, rfl, -⟩
  rfl

/-- **In front of a word an expression ends** where a rule is seen or the word is `uses`, and nowhere else. -/
theorem item_nothing_iff {inner : Parse (Option Node)} (start : s.cursor.peek.any isIdentStart = true) :
    Ensures limits s (item inner) fun r _ =>
      r = none ↔ s.cursor.atRuleStart = true ∨ s.cursor.checkWord "uses" = true := by
  have boundary : (s.cursor.atKeyword "uses" || s.cursor.atRuleStart) = true ↔
      s.cursor.atRuleStart = true ∨ s.cursor.checkWord "uses" = true := by
    rw [Cursor.atKeyword]
    cases s.cursor.atRuleStart <;> simp
  simp only [item, atBoundary, ensures_bind, ensures_cursor, ensures_pure]
  split
  · next ends => exact iff_of_true rfl (boundary.1 ends)
  · next goesOn =>
    simp only [quantified, ensures_bind, ensures_cursor]
    refine (primary_of_start start).mono ?_
    intro r t found
    obtain ⟨subject, rfl⟩ := Option.isSome_iff_exists.1 found
    rw [ensures_bind]
    have any : Ensures limits t quantifier fun _ _ => True := trivial
    refine any.mono ?_
    rintro (_ | quantifier) u -
    · exact iff_of_false (fun none => by cases none) (goesOn ∘ boundary.2)
    · exact iff_of_false (fun none => by cases none) (goesOn ∘ boundary.2)

end Parse

/-! ## What recovery finds -/

namespace Cursor

variable {c d e : Cursor}

/-- A newline further on divides what is left. -/
theorem exists_front_of_newline {n : Nat} (newline : (c.advanceBy n).peek = some '\n') :
    ∃ front, front.length = n ∧ c.rest = front ++ '\n' :: (c.advanceBy n).advance.rest := by
  rw [peek, rest_advanceBy] at newline
  cases left : c.rest.drop n with
  | nil =>
    rw [left] at newline
    cases newline
  | cons ch behind =>
    rw [left] at newline
    obtain rfl : ch = '\n' := Option.some.inj newline
    have inside : n ≤ c.rest.length := by
      have := congrArg List.length left
      rw [List.length_drop, List.length_cons] at this
      omega
    refine ⟨c.rest.take n, List.length_take_of_le inside, ?_⟩
    rw [rest_advance, rest_advanceBy, left, List.tail_cons, ← left, List.take_append_drop]

/-- Behind blanks a newline is still ahead, or what stands behind it has been come to. -/
theorem reaches_or_behind_skipBlank (ahead : c.Reaches e) (newline : e.peek = some '\n') :
    c.skipBlank.Reaches e ∨ c.skipBlank = e.advance.skipBlank := by
  obtain ⟨n, rfl⟩ := ahead
  obtain ⟨front, length, rest⟩ := exists_front_of_newline newline
  have run : blankRun false c.rest = _ := congrArg (blankRun false) rest
  rw [Frame.blankRun_append_newline, length] at run
  split at run
  · next inside =>
    left
    obtain ⟨more, hmore⟩ := Nat.exists_eq_add_of_le (Nat.le_of_lt inside)
    rw [skipBlank, run, hmore, advanceBy_add]
    exact reaches_advanceBy more _
  · right
    rw [skipBlank, run, advanceBy_add, advanceBy_add]
    rfl

/-- Behind the line a newline is still ahead, or it is the end of that line. -/
theorem reaches_or_behind_skipLine (ahead : c.Reaches e) (newline : e.peek = some '\n') :
    c.skipLine.Reaches e ∨ c.skipLine = e.advance := by
  obtain ⟨n, rfl⟩ := ahead
  obtain ⟨front, length, rest⟩ := exists_front_of_newline newline
  have line : (c.rest.takeWhile (· != '\n')).length ≤ n := by
    rw [rest, List.takeWhile_append]
    split
    · simp [length]
    · rw [← length]
      exact (List.takeWhile_prefix _).length_le
  rw [skipLine_eq]
  rcases Nat.lt_or_eq_of_le line with less | same
  · left
    obtain ⟨more, hmore⟩ := Nat.exists_eq_add_of_le less
    rw [hmore, advanceBy_add _ more]
    exact reaches_advanceBy more _
  · right
    rw [same, advanceBy_add]
    rfl

/-- A search that has not come over the newline in front of a rule does not pass that rule. By induction on
the fuel. -/
theorem seekRule_reaches (newline : e.peek = some '\n') (rule : e.advance.skipBlank.atRuleStart = true)
    {n : Nat} (ahead : c.Reaches e ∨ c = e.advance) : (c.seekRule n).Reaches e.advance.skipBlank := by
  induction n generalizing c with
  | zero =>
    rcases ahead with before | behind
    · exact before.trans ((reaches_advance e).trans (reaches_skipBlank _))
    · rw [behind]
      exact reaches_skipBlank _
  | succ n ih =>
    unfold seekRule
    dsimp only
    have blanks : c.skipBlank.Reaches e ∨ c.skipBlank = e.advance.skipBlank := by
      rcases ahead with before | behind
      · exact reaches_or_behind_skipBlank before newline
      · exact .inr (congrArg skipBlank behind)
    rcases blanks with before | there
    · split
      · exact before.trans ((reaches_advance e).trans (reaches_skipBlank _))
      · exact ih (reaches_or_behind_skipLine before newline)
    · rw [there, if_pos (by rw [rule, Bool.or_true])]
      exact .refl _

/-- **Recovery does not pass a rule**: it ends in front of it at the latest. -/
theorem synchronize_reaches (ahead : c.Reaches e) (newline : e.peek = some '\n')
    (rule : e.advance.skipBlank.atRuleStart = true) : c.synchronize.Reaches e.advance.skipBlank :=
  seekRule_reaches newline rule (reaches_or_behind_skipLine ahead newline)

/-- A search with enough fuel ends in front of a rule, or at the end of the text. -/
theorem seekRule_stops {n : Nat} (enough : c.rest.length < n) :
    (c.seekRule n).atEnd = true ∨ (c.seekRule n).atRuleStart = true := by
  induction n generalizing c with
  | zero => omega
  | succ n ih =>
    unfold seekRule
    dsimp only
    split
    · next stops => exact Bool.or_eq_true_iff.1 stops
    · next goesOn =>
      have shorter := length_round_lt goesOn
      exact ih (by omega)

theorem synchronize_stops (c : Cursor) : c.synchronize.atEnd = true ∨ c.synchronize.atRuleStart = true :=
  seekRule_stops (Nat.lt_succ_self _)

end Cursor

namespace Parse

/-- **An accepted rule is seen ahead** if and only if the blanks between its name and its `=` stay on the line.
Otherwise an expression in front of it goes on with the name, unless the name is `uses`, and no recovery ends
at it; a rule that is seen is not passed by recovery from anywhere in front of its line. -/
theorem accepted_rule_seen_iff {limits : Limits} {s : ParseState} (deep : 0 < limits.depth)
    (room : s.errors.length < limits.errors) (start : s.cursor.peek.any isIdentStart = true)
    (accepted : ¬ MissesEquals limits s) :
    (s.cursor.atRuleStart = true ↔ s.cursor.blanksOnLine = true) ∧
    (∀ inner t, t.cursor.skipBlank = s.cursor →
      Ensures limits t (afterBlank (item inner)) fun r _ =>
        r = none ↔ s.cursor.blanksOnLine = true ∨ s.cursor.checkWord "uses" = true) ∧
    (∀ d : Cursor, d.synchronize = s.cursor → s.cursor.blanksOnLine = true) ∧
    (s.cursor.blanksOnLine = true → ∀ d e : Cursor, d.Reaches e → e.peek = some '\n' →
      e.advance.skipBlank = s.cursor → d.synchronize.Reaches s.cursor) := by
  have sign : startsAssignment (s.cursor.skipWhile isWordChar).skipBlank.rest = true := by
    rwa [missesEquals_iff deep room start, Bool.not_eq_false] at accepted
  have seen : s.cursor.atRuleStart = true ↔ s.cursor.blanksOnLine = true := Cursor.atRuleStart_iff start sign
  refine ⟨seen, ?_, ?_, ?_⟩
  · intro inner t here
    have ends := @item_nothing_iff limits { t with cursor := t.cursor.skipBlank } inner
    simp only [here] at ends
    simp only [afterBlank, ensures_bind, ensures_cursor, ensures_skipBlank, here]
    refine (ends start).mono ?_
    rw [← seen]
    rintro (_ | node) u nothing
    · exact nothing
    · exact iff_of_false (fun none => by cases none) fun stops => by cases nothing.2 stops
  · intro d ends
    have stops := Cursor.synchronize_stops d
    rw [ends] at stops
    refine seen.1 (stops.resolve_left fun atEnd => ?_)
    rw [Cursor.peek, List.isEmpty_iff.1 atEnd] at start
    cases start
  · intro onLine d e ahead newline here
    rw [← here] at seen onLine ⊢
    exact Cursor.synchronize_reaches ahead newline (seen.2 onLine)

/-- A rule with its `=` on the next line. -/
theorem accepted_rule_seen_iff_nextLine :
    ¬ MissesEquals .standard ⟨.ofString "b\n= c", [], false⟩ ∧
      (Cursor.ofString "b\n= c").atRuleStart = false ∧
      ∀ d : Cursor, d.synchronize ≠ .ofString "b\n= c" := by
  have accepted : ¬ MissesEquals .standard ⟨.ofString "b\n= c", [], false⟩ := by decide +kernel
  have leaves : (Cursor.ofString "b\n= c").blanksOnLine = false := by decide +kernel
  obtain ⟨seen, -, found, -⟩ := accepted_rule_seen_iff (by decide) (by decide) (by decide +kernel) accepted
  refine ⟨accepted, ?_, fun d ends => ?_⟩
  · rw [← Bool.not_eq_true]
    intro sees
    rw [leaves] at seen
    cases seen.1 sees
  · have onLine := found d ends
    rw [leaves] at onLine
    cases onLine

end Parse

-- The second rule becomes a part of the first one, and its body is not read at all.
example : (readDocument "a = x\nb\n= c").errors = [] ∧ (readDocument "a = x\nb\n= c").tree.children.length = 1 := by
  decide +kernel

end PatternRules

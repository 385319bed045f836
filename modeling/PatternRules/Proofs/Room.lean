import PatternRules.Proofs.Truncation

/-!
The errors of a text, however many are recorded (`SyntaxError.Concerns`).

* `exists_room`: there is a limit that they do not come to. What a statement complains about is fixed by where it
  is read, and a text has only so many places; so there is a bound on what one statement adds, and on what a
  document adds in as many rounds as it has characters (`document_adds`).
* `errors_subset_of_room`: such a limit leaves none of them out, since a lower limit only cuts off
  (`readWithin_truncates`).
-/

namespace PatternRules

/-! ## How many errors there are -/

theorem Cursor.eq_advanceBy_within {text : List Char} {c : Cursor} (h : (Cursor.ofChars text).Reaches c) :
    ∃ n ≤ text.length, c = (Cursor.ofChars text).advanceBy n := by
  obtain ⟨n, rfl⟩ := h
  rcases Nat.le_total n text.length with within | beyond
  · exact ⟨n, within, rfl⟩
  · obtain ⟨k, rfl⟩ := Nat.exists_eq_add_of_le beyond
    refine ⟨text.length, Nat.le_refl _, ?_⟩
    have atEnd : ((Cursor.ofChars text).advanceBy text.length).rest = [] := by
      rw [rest_advanceBy]
      exact List.drop_length
    rw [advanceBy_add, advanceBy_of_rest_nil atEnd]

namespace Parse

variable {α β : Type} {text : List Char} {depth : Nat}

/-- From wherever in the text it starts, `p` adds at most so many errors. -/
def AddsAtMost (text : List Char) (depth most : Nat) (p : Parse α) : Prop :=
  ∀ cap s, (Cursor.ofChars text).Reaches s.cursor →
    Ensures ⟨depth, cap⟩ s p fun _ t => t.errors.length ≤ s.errors.length + most

/-- Up to some place in the text, what is complained about is bounded. By induction on the place. -/
theorem Impartial.bounded {p : Parse α} (h : Impartial p) (deep : 0 < depth) (text : List Char) (places : Nat) :
    ∃ most, ∀ n < places, ∀ nested, ∃ o, ComesTo depth ((Cursor.ofChars text).advanceBy n) nested p o ∧
      o.complaints.length ≤ most := by
  induction places with
  | zero => exact ⟨0, fun n below => absurd below (Nat.not_lt_zero n)⟩
  | succ places ih =>
    obtain ⟨most, below⟩ := ih
    obtain ⟨o, comes⟩ := h depth deep ((Cursor.ofChars text).advanceBy places) false
    obtain ⟨o', comes'⟩ := h depth deep ((Cursor.ofChars text).advanceBy places) true
    refine ⟨most + o.complaints.length + o'.complaints.length, fun n within nested => ?_⟩
    rcases Nat.lt_succ_iff_lt_or_eq.1 within with lower | rfl
    · obtain ⟨o'', comes'', bound⟩ := below n lower nested
      exact ⟨o'', comes'', by omega⟩
    · cases nested with
      | false => exact ⟨o, comes, by omega⟩
      | true => exact ⟨o', comes', by omega⟩

theorem Impartial.addsAtMost {p : Parse α} (h : Impartial p) (deep : 0 < depth) (text : List Char) :
    ∃ most, AddsAtMost text depth most p := by
  obtain ⟨most, bounded⟩ := h.bounded deep text (text.length + 1)
  refine ⟨most, fun cap s reached => ?_⟩
  obtain ⟨n, within, here⟩ := Cursor.eq_advanceBy_within reached
  obtain ⟨o, comes, bound⟩ := bounded n (Nat.lt_succ_of_le within) s.nestingReported
  rw [← here] at comes
  refine (comes cap s.errors).mono ?_
  rintro _ _ ⟨-, rfl⟩
  rw [Outcome.state, List.length_append, List.length_take]
  omega

namespace AddsAtMost

theorem bind {most more : Nat} {p : Parse α} {f : α → Parse β} (h : AddsAtMost text depth most p)
    (moves : Moves p) (next : ∀ a, AddsAtMost text depth more (f a)) :
    AddsAtMost text depth (most + more) (p >>= f) := by
  intro cap s reached
  refine ((h cap s reached).and (moves _ s)).bind ?_
  rintro a t ⟨added, behind⟩
  refine (next a cap t (reached.trans behind)).mono fun _ u further => ?_
  omega

/-- A repetition adds no more than its rounds. -/
theorem manyFuel {most : Nat} {step : Parse (Option α)} (h : AddsAtMost text depth most step)
    (moves : Moves step) (n : Nat) : AddsAtMost text depth (n * most) (manyFuel step n) := by
  induction n with
  | zero => exact fun cap s _ => Nat.le_add_right _ _
  | succ n ih =>
    intro cap s reached
    rw [ensures_manyFuel_succ]
    refine ((h cap s reached).and (moves _ s)).mono ?_
    rintro r t ⟨added, behind⟩
    rw [Nat.succ_mul]
    refine ⟨fun _ => by omega, fun item _ => (ih cap t (reached.trans behind)).mono fun _ u further => ?_⟩
    omega

theorem many {most : Nat} {step : Parse (Option α)} (h : AddsAtMost text depth most step)
    (moves : Moves step) : AddsAtMost text depth ((text.length + 1) * most) (many step) := by
  intro cap s reached
  rw [Parse.many, ensures_bind, ensures_cursor]
  refine (h.manyFuel moves _ cap s reached).mono fun _ t added => ?_
  have shorter : s.cursor.rest.length ≤ text.length := by
    obtain ⟨n, -, here⟩ := Cursor.eq_advanceBy_within reached
    rw [here, Cursor.rest_advanceBy, List.length_drop]
    exact Nat.sub_le _ _
  have := Nat.mul_le_mul_right most (Nat.succ_le_succ shorter)
  exact Nat.le_trans added (Nat.add_le_add_left this _)

end AddsAtMost

/-! ### The sections of a document -/

theorem versionSection_adds (deep : 0 < depth) (text : List Char) :
    ∃ most, AddsAtMost text depth most versionSection := by
  obtain ⟨most, adds⟩ := Impartial.addsAtMost (versionStatement_contract (K := .impartial)) deep text
  refine ⟨most, fun cap s reached => ?_⟩
  simp only [versionSection, ensures_bind, ensures_cursor]
  split
  · exact (adds cap s reached).mono fun _ _ added => added
  · exact Nat.le_add_right _ _

theorem nextImport_adds (deep : 0 < depth) (text : List Char) :
    ∃ most, AddsAtMost text depth most nextImport := by
  obtain ⟨most, adds⟩ := Impartial.addsAtMost (importStatement_contract (K := .impartial)) deep text
  refine ⟨most, fun cap s reached => ?_⟩
  simp only [nextImport, ensures_bind, ensures_cursor]
  split
  · simp only [ensures_bind, ensures_errorsFull]
    split
    · exact Nat.le_add_right _ _
    · simp only [ensures_bind, ensures_errorCount]
      refine (adds cap s reached).mono fun _ _ added => ?_
      split
      · exact added
      · exact added
  · exact Nat.le_add_right _ _

theorem resolverSection_adds (deep : 0 < depth) (text : List Char) :
    ∃ most, AddsAtMost text depth most resolverSection := by
  obtain ⟨most, adds⟩ := Impartial.addsAtMost (resolverDefault_contract (K := .impartial)) deep text
  refine ⟨most, fun cap s reached => ?_⟩
  simp only [resolverSection, atResolverDefault, ensures_bind, ensures_cursor, ensures_pure]
  split
  · simp only [ensures_bind, ensures_errorCount]
    refine (adds cap s reached).mono fun _ _ added => ?_
    split
    · exact added
    · exact added
  · exact Nat.le_add_right _ _

theorem nextRule_adds (deep : 0 < depth) (text : List Char) :
    ∃ most, AddsAtMost text depth most nextRule := by
  obtain ⟨most, adds⟩ := Impartial.addsAtMost (.looking ruleNode_impartial) deep text
  have rule_adds : AddsAtMost text depth most rule := by
    intro cap s reached
    simp only [rule_eq, ensures_bind, ensures_cursor, ensures_errorCount]
    have node := adds cap s reached
    rw [ensures_bind, ensures_cursor] at node
    refine node.mono ?_
    rintro (_ | _) _ added
    · exact added
    · exact added
  refine ⟨most, fun cap s reached => ?_⟩
  simp only [nextRule, ensures_bind, ensures_cursor, ensures_errorsFull]
  split
  · exact Nat.le_add_right _ _
  · refine (rule_adds cap s reached).bind ?_
    rintro (_ | rule) t added
    · exact added
    · dsimp only
      split
      · exact added
      · exact added

theorem document_adds (deep : 0 < depth) (text : List Char) :
    ∃ most, AddsAtMost text depth most document := by
  obtain ⟨v, version⟩ := versionSection_adds deep text
  obtain ⟨i, imports⟩ := nextImport_adds deep text
  obtain ⟨r, resolver⟩ := resolverSection_adds deep text
  obtain ⟨k, rules⟩ := nextRule_adds deep text
  have node (start : Cursor) (children : List Node) :
      AddsAtMost text depth 0 (branchFrom .root start children) := fun cap s _ =>
    (ensures_branchFrom .root start children _).2 (Nat.le_refl s.errors.length)
  refine ⟨v + ((text.length + 1) * i + (r + ((text.length + 1) * k + 0))), fun cap s reached => ?_⟩
  rw [document, ensures_bind, ensures_cursor, ensures_bind, ensures_skipBlank]
  refine version.bind versionSection_reads.moves (fun v => ?_) cap _
    (reached.trans (Cursor.reaches_skipBlank s.cursor))
  refine (imports.many nextImport_reads.moves).bind nextImport_reads.many.moves fun i => ?_
  refine resolver.bind resolverSection_reads.moves fun r => ?_
  exact (rules.many nextRule_reads.moves).bind nextRule_reads.many.moves fun k => node s.cursor _

end Parse

/-- The error is one of those of the text, however many are recorded. -/
def SyntaxError.Concerns (text : List Char) (e : SyntaxError) : Prop :=
  ∃ cap, e ∈ (readWithin ⟨Limits.standard.depth, cap⟩ text).2.errors

/-- **There is room for all errors.** Every text has a limit that its errors do not come to. -/
theorem exists_room {depth : Nat} (deep : 0 < depth) (text : List Char) :
    ∃ cap, (readWithin ⟨depth, cap⟩ text).2.errors.length < cap := by
  obtain ⟨most, adds⟩ := Parse.document_adds deep text
  have added : (readWithin ⟨depth, most + 1⟩ text).2.errors.length ≤ 0 + most :=
    adds (most + 1) ⟨.ofChars text, [], false⟩ (.refl _)
  exact ⟨most + 1, by omega⟩

/-- A limit that the errors of a text do not come to leaves none of them out. -/
theorem errors_subset_of_room {depth cap : Nat} (deep : 0 < depth) {text : List Char}
    (room : (readWithin ⟨depth, cap⟩ text).2.errors.length < cap) (cap' : Nat) :
    (readWithin ⟨depth, cap'⟩ text).2.errors ⊆ (readWithin ⟨depth, cap⟩ text).2.errors := by
  rcases Nat.le_total cap cap' with le | le
  · obtain ⟨-, first⟩ := readWithin_truncates deep le text
    rw [first, List.length_take] at room
    rw [first, List.take_of_length_le (by omega)]
    exact List.Subset.refl _
  · obtain ⟨-, first⟩ := readWithin_truncates deep le text
    rw [first]
    exact List.take_subset _ _

end PatternRules

import PatternRules.Proofs.Traceless
import PatternRules.Proofs.Twin.Statement

/-!
Documents in step. Behind a statement, and behind what is skipped after a complaint, the readings are in
step or at the seam (`Placed`). At the seam the reading of the text by itself is done, and the other one
goes on with the rule behind (`statements_both`), unless it has taken that rule for options.
-/

namespace PatternRules

/-! ## Recovery -/

theorem Seam.skipBlank {F : Frame} {s t : ParseState} (h : Seam F s t) :
    Seam F { s with cursor := s.cursor.skipBlank } { t with cursor := t.cursor.skipBlank } := by
  have left : s.cursor.skipBlank = s.cursor := by
    rw [Cursor.skipBlank, h.atEnd]
    rfl
  have right : t.cursor.skipBlank = t.cursor := by
    rw [Cursor.skipBlank, Frame.blankRun_of_startsRule h.rule]
    rfl
  rw [left, right]
  exact h

namespace Placed

variable {F : Frame} {s t : ParseState}

theorem cases (h : Placed F s t) : Aligned F s t ∨ Seam F s t := h.imp_left And.left

theorem skipBlank (h : Aligned F s t ∨ Seam F s t) :
    Placed F { s with cursor := s.cursor.skipBlank } { t with cursor := t.cursor.skipBlank } := by
  rcases h with aligned | seam
  · exact aligned.skipBlank
  · exact .inr seam.skipBlank

theorem length_le (h : Placed F s t) : s.cursor.rest.length ≤ t.cursor.rest.length := by
  rcases h with ⟨aligned, -⟩ | seam
  · rw [aligned.cursor, Frame.rest_lift, List.length_append]
    omega
  · rw [seam.atEnd]
    exact Nat.zero_le _

end Placed

namespace Aligned

variable {F : Frame} {s t : ParseState}

/-- Behind its line the first reading may have come to the end of the text, and then the second one has
come to the rule. -/
theorem skipLine (h : Aligned F s t) :
    Aligned F { s with cursor := s.cursor.skipLine } { t with cursor := t.cursor.skipLine } ∨
      Seam F { s with cursor := s.cursor.skipLine } { t with cursor := t.cursor.skipLine } := by
  have line := h.skipWhile (p := (· != '\n')) rfl
  by_cases atEnd : (s.cursor.skipWhile (· != '\n')).rest = []
  · have stays : s.cursor.skipLine = s.cursor.skipWhile (· != '\n') := Cursor.advance_of_rest_nil atEnd
    have cursor : t.cursor.skipLine = (F.lift s.cursor.skipLine).advance := by
      rw [stays, Cursor.skipLine]
      exact congrArg Cursor.advance line.cursor
    have rest : (F.lift s.cursor.skipLine).rest = F.behind := by
      rw [stays, Frame.rest_lift, atEnd, List.nil_append]
    have reached := h.reached.trans (Cursor.reaches_skipLine s.cursor)
    rcases F.nextRule with nothing | ⟨next, behind, rule⟩
    · rw [Cursor.advance_of_rest_nil (rest.trans nothing)] at cursor
      exact .inl ⟨reached, cursor, h.count, h.errors, h.nesting⟩
    · have there : t.cursor.skipLine.rest = next := by
        rw [cursor, Cursor.rest_advance, rest, behind]
        rfl
      refine .inr ⟨reached, by rw [stays]; exact atEnd, cursor, ?_, ?_, h.count, h.nesting⟩
      · rw [there]
        exact behind
      · rw [there]
        exact rule
  · exact .inl (line.advance atEnd)

end Aligned

theorem Cursor.length_skipLine_lt {c : Cursor} (h : c.rest ≠ []) :
    c.skipLine.rest.length < c.rest.length := by
  rw [skipLine_eq, rest_advanceBy, List.length_drop]
  have := List.length_pos_iff.2 h
  omega

/-- A search that goes on is not at the end. -/
theorem Cursor.rest_ne_nil_of_goesOn {c : Cursor} (goesOn : ¬ (c.atEnd || c.atRuleStart) = true) :
    c.rest ≠ [] := by
  intro nothing
  rw [atEnd, nothing] at goesOn
  exact goesOn rfl

/-- Each round of a search that goes on leaves something behind. -/
theorem Cursor.length_round_lt {c : Cursor}
    (goesOn : ¬ (c.skipBlank.atEnd || c.skipBlank.atRuleStart) = true) :
    c.skipBlank.skipLine.rest.length < c.rest.length :=
  Nat.lt_of_lt_of_le (length_skipLine_lt (rest_ne_nil_of_goesOn goesOn))
    (length_le_of_reaches (reaches_skipBlank c))

namespace Placed

variable {F : Frame} {s t : ParseState}

/-- The next rule that both readings find is the same one, unless the first one finds none and comes to the
end of the text. The induction is on the fuel of the first reading, which lasts. -/
theorem seekRule {n m : Nat} (h : Aligned F s t ∨ Seam F s t) (enough : s.cursor.rest.length < n)
    (more : n ≤ m) :
    Placed F { s with cursor := s.cursor.seekRule n } { t with cursor := t.cursor.seekRule m } := by
  induction n generalizing s t m with
  | zero => omega
  | succ n ih =>
    obtain ⟨m, rfl⟩ : ∃ k, m = k + 1 := ⟨m - 1, by omega⟩
    unfold Cursor.seekRule
    dsimp only
    rcases Placed.skipBlank h with ⟨aligned, inside⟩ | seam
    · have atEnd : t.cursor.skipBlank.atEnd = s.cursor.skipBlank.atEnd := aligned.atEnd inside
      have cursor : t.cursor.skipBlank = F.lift s.cursor.skipBlank := aligned.cursor
      have start : t.cursor.skipBlank.atRuleStart = s.cursor.skipBlank.atRuleStart := by
        rw [cursor, Frame.atRuleStart_lift]
      rw [atEnd, start]
      split
      · exact .inl ⟨aligned, inside⟩
      · next goesOn =>
        have shorter := Cursor.length_round_lt goesOn
        exact ih aligned.skipLine (by show s.cursor.skipBlank.skipLine.rest.length < n; omega) (by omega)
    · have left : s.cursor.skipBlank.atEnd = true := by
        rw [Cursor.atEnd, List.isEmpty_iff]
        exact seam.atEnd
      have right : t.cursor.skipBlank.atRuleStart = true := seam.rule
      rw [left, right, Bool.or_true, if_pos rfl, if_pos (by rw [Bool.true_or])]
      exact .inr seam

/-- Behind all that is skipped after a complaint. -/
theorem synchronize (h : Aligned F s t) :
    Placed F { s with cursor := s.cursor.synchronize } { t with cursor := t.cursor.synchronize } := by
  refine seekRule h.skipLine (Nat.lt_succ_self _) (Nat.succ_le_succ ?_)
  rcases h.skipLine with aligned | seam
  · have cursor : t.cursor.skipLine = F.lift s.cursor.skipLine := aligned.cursor
    rw [cursor, Frame.rest_lift, List.length_append]
    exact Nat.le_add_right _ _
  · have atEnd : s.cursor.skipLine.rest = [] := seam.atEnd
    rw [atEnd]
    exact Nat.zero_le _

end Placed

namespace Parse

variable {α β : Type} [Shifts α] [Shifts β] {F : Frame} {E : Parting} {limits : Limits}
  {s t : ParseState}

/-! ## Sections -/

/-- The first reading is done, and the rule behind is called `with`. -/
structure DoneBeforeWith (F : Frame) (s : ParseState) : Prop where
  word : F.word = "with".toList
  atEnd : s.cursor.rest = []

/-- Like `FollowsOrTakes`, except that the readings end behind blanks and may have come to the seam. -/
def LandsOrTakes (F : Frame) (limits : Limits) (s t : ParseState) (awaits : α → Bool)
    (p q : Parse α) : Prop :=
  Both limits s t p q fun a s' b t' => Matched (Placed F) F.lines a s' b t' ∨
    leftOpen F limits s' t' ∨ awaits a = true ∧ DoneBeforeWith F s'

/-- What is skipped behind a statement leaves nothing of a text that has come to its end. -/
theorem DoneBeforeWith.of_reaches {c : Cursor} (before : BeforeWith F s)
    (h : s.cursor.skipBlank.Reaches c) : DoneBeforeWith F { s with cursor := c } := by
  refine ⟨before.word, List.length_eq_zero_iff.1 (Nat.le_zero.1 ?_)⟩
  rw [← List.length_nil (α := Char), ← before.atEnd]
  exact Cursor.length_le_of_reaches h

/-- A statement and what is skipped behind it. -/
theorem FollowsOrTakes.landing {awaits : α → Bool} {awaits' : β → Bool} {p q : Parse α}
    {f g : α → Parse β} (h : FollowsOrTakes F limits s t awaits p q)
    (next : ∀ a s' t', Aligned F s' t' →
      LandsOrTakes F limits s' t' awaits' (f a) (g (shift F.lines a)))
    (taken : ∀ a s', awaits a = true → BeforeWith F s' →
      Ensures limits s' (f a) fun b s'' => awaits' b = true ∧ DoneBeforeWith F s'')
    (grows : ∀ a, Grows (f a)) (grows' : ∀ b, Grows (g b)) :
    LandsOrTakes F limits s t awaits' (p >>= f) (q >>= g) := by
  refine Both.bind h ?_
  rintro a s' b t' (⟨rfl, aligned⟩ | parted | ⟨opens, before⟩)
  · exact next a s' t' aligned
  · exact .inr (.inl (Lasting.keeps parted (grows a limits s') (grows' b limits t')))
  · exact .inr (.inr (taken a s' opens before))

theorem length_le_of_atKeyword {c : Cursor} {word : String} (h : c.atKeyword word = true) :
    word.length ≤ c.rest.length := by
  rw [Cursor.atKeyword, Cursor.checkWord, Bool.and_eq_true, Bool.and_eq_true] at h
  exact length_le_of_checkLiteral h.1.1

theorem versionSection_lands (placed : Placed F s t) :
    Both limits s t versionSection versionSection (Matched (Placed F) F.lines) := by
  rcases placed with ⟨aligned, inside⟩ | seam
  · rw [versionSection, both_cursor, aligned.cursor, Frame.atKeyword_lift (by decide)]
    split
    · next here =>
      refine Both.bind (versionStatement_follows aligned (length_le_of_atKeyword here)).matched ?_
      rintro node s₁ _ t₁ ⟨rfl, aligned₁⟩
      exact ⟨rfl, Placed.skipBlank (.inl aligned₁)⟩
    · exact ⟨rfl, .inl ⟨aligned, inside⟩⟩
  · rw [versionSection, both_cursor, seam.atKeyword_left (by decide) (by decide), seam.atKeyword_right]
    exact ⟨rfl, .inr seam⟩

/-- Behind a statement the readings skip the same, and come to blanks. -/
theorem leaving_lands {m : Cursor → Cursor} {c : Prop} [Decidable c] {awaits : α → Bool}
    (aligned : Aligned F s t)
    (skips : Aligned F { s with cursor := m s.cursor } { t with cursor := m t.cursor } ∨
      Seam F { s with cursor := m s.cursor } { t with cursor := m t.cursor }) (a : α) :
    LandsOrTakes F limits s t awaits
      (do
        if c then
          move m
        skipBlank
        return a)
      (do
        if c then
          move m
        skipBlank
        return shift F.lines a) := by
  split
  · exact .inl ⟨rfl, Placed.skipBlank skips⟩
  · exact .inl ⟨rfl, Placed.skipBlank (.inl aligned)⟩

theorem leaving_done {α : Type} {m : Cursor → Cursor} {c : Prop} [Decidable c] {a : α}
    {post : α → ParseState → Prop} (before : BeforeWith F s)
    (skips : s.cursor.skipBlank.Reaches (m s.cursor).skipBlank)
    (h : ∀ s', DoneBeforeWith F s' → post a s') :
    Ensures limits s
      (do
        if c then
          move m
        skipBlank
        return a) post := by
  split
  · exact h _ (DoneBeforeWith.of_reaches (s := s) before skips)
  · exact h _ ⟨before.word, before.atEnd⟩

theorem leaving_grows {α : Type} (m : Cursor → Cursor) (c : Prop) [Decidable c] (a : α) :
    Grows (do
      if c then
        move m
      skipBlank
      return a) := by
  intro limits s
  split
  · exact .refl
  · exact .refl

theorem nextImport_lands (placed : Placed F s t) :
    LandsOrTakes F limits s t (Option.any statementAwaits) nextImport nextImport := by
  rcases placed with ⟨aligned, inside⟩ | seam
  · rw [LandsOrTakes, nextImport, both_cursor, aligned.cursor, Frame.atKeyword_lift (by decide)]
    split
    · next here =>
      rw [both_errorsFull, aligned.count]
      split
      · exact .inl ⟨rfl, .inl ⟨aligned, inside⟩⟩
      · rw [both_errorCount, aligned.count]
        refine FollowsOrTakes.landing (importStatement_orTakes aligned (length_le_of_atKeyword here))
          ?_ ?_ ?_ ?_
        · intro node s₁ t₁ aligned₁
          rw [LandsOrTakes, both_errorCount, aligned₁.count]
          exact leaving_lands aligned₁ aligned₁.skipLine (some node)
        · intro node s₁ awaits before
          rw [ensures_bind, ensures_errorCount]
          exact leaving_done before (Cursor.skipBlank_reaches_skipLine _) fun _ done => ⟨awaits, done⟩
        · exact fun node limits s => leaving_grows Cursor.skipLine _ (some node) limits s
        · exact fun node limits s => leaving_grows Cursor.skipLine _ (some node) limits s
    · exact .inl ⟨rfl, .inl ⟨aligned, inside⟩⟩
  · rw [LandsOrTakes, nextImport, both_cursor, seam.atKeyword_left (by decide) (by decide),
      seam.atKeyword_right]
    exact .inl ⟨rfl, .inr seam⟩

theorem importStatement_advances : Advances importStatement := by
  have node (start : Cursor) (ns : List Node) : Moves (branchFrom .importStatement start ns) :=
    fun _ _ => .refl _
  refine advances_of_moves (fun _ => Cursor.reaches_advanceBy 5 _) fun start => ?_
  refine ((string_reads.afterBlank rfl).orReport _).moves.bind ?_
  rintro (_ | path)
  · exact node _ _
  · exact importTail_reads.moves.bind fun _ => node _ _

theorem nextImport_consumes : Consumes nextImport := by
  intro limits s
  simp only [nextImport, ensures_bind, ensures_cursor]
  split
  · next here =>
    have left : s.cursor.rest ≠ [] := List.length_pos_iff.1 (Nat.lt_of_lt_of_le (by decide)
      (length_le_of_atKeyword here))
    simp only [ensures_bind, ensures_errorsFull]
    split
    · exact fun h => by cases h
    · simp only [ensures_bind, ensures_errorCount]
      refine (importStatement_advances limits s).mono ?_
      intro node t reaches
      have skipped (m : Cursor → Cursor) (moves : ∀ c : Cursor, c.Reaches (m c)) :
          (m t.cursor).skipBlank.rest.length < s.cursor.rest.length :=
        Cursor.length_lt_of_advance_reaches left
          (reaches.trans ((moves _).trans (Cursor.reaches_skipBlank _)))
      split
      · exact fun _ => skipped _ Cursor.reaches_skipLine
      · exact fun _ => skipped id .refl
  · exact fun h => by cases h

/-! ## The default resolver -/

/-- Where the words `resolver default` would be divided between the text and the rule behind it. -/
structure DefaultBehind (F : Frame) (s : ParseState) : Prop where
  word : F.word = "default".toList
  first : s.cursor.atKeyword "resolver" = true
  atEnd : (s.cursor.advanceBy "resolver".length).skipBlank.rest = []

theorem resolverSection_lands (placed : Placed F s t) (whole : ¬ DefaultBehind F s) :
    LandsOrTakes F limits s t (·.getLast?.any statementAwaits) resolverSection resolverSection := by
  simp only [LandsOrTakes, resolverSection, atResolverDefault, bind_assoc, pure_bind]
  rcases placed with ⟨aligned, inside⟩ | seam
  · rw [both_cursor, aligned.cursor, Frame.atKeyword_lift (by decide)]
    by_cases first : s.cursor.atKeyword "resolver" = true
    · have second : ((F.lift s.cursor).advanceBy "resolver".length).skipBlank.checkWord "default" =
          (s.cursor.advanceBy "resolver".length).skipBlank.checkWord "default" := by
        have words := aligned.advanceBy (length_le_of_atKeyword first)
        rw [aligned.cursor] at words
        rcases words.skipBlank with ⟨inStep, -⟩ | seam
        · have cursor : ((F.lift s.cursor).advanceBy "resolver".length).skipBlank =
              F.lift (s.cursor.advanceBy "resolver".length).skipBlank := inStep.cursor
          rw [cursor, Frame.checkWord_lift (by decide)]
        · have other : F.word ≠ "default".toList := fun word => whole ⟨word, first, seam.atEnd⟩
          exact (seam.checkWord_right (by decide) other).trans
            (seam.checkWord_left (by decide) (by decide)).symm
      rw [second]
      split
      · next here =>
        have literal {c : Cursor} {word : String} (h : c.checkWord word = true) :
            c.checkLiteral word = true := by
          rw [Cursor.checkWord, Bool.and_eq_true] at h
          exact h.1
        rw [Cursor.atKeyword, Bool.and_eq_true, Bool.and_eq_true] at here
        rw [both_errorCount, aligned.count]
        refine FollowsOrTakes.landing
          (resolverDefault_orTakes aligned (literal here.1.1) (literal here.2)) ?_ ?_ ?_ ?_
        · intro node s₁ t₁ aligned₁
          rw [LandsOrTakes, both_errorCount, aligned₁.count]
          exact leaving_lands aligned₁ (Placed.synchronize aligned₁).cases [node]
        · intro node s₁ awaits before
          have skips := (Cursor.skipBlank_reaches_synchronize s₁.cursor).trans (Cursor.reaches_skipBlank _)
          rw [ensures_bind, ensures_errorCount]
          exact leaving_done before skips fun _ done => ⟨awaits, done⟩
        · exact fun node limits s => leaving_grows Cursor.synchronize _ [node] limits s
        · exact fun node limits s => leaving_grows Cursor.synchronize _ [node] limits s
      · exact .inl ⟨rfl, .inl ⟨aligned, inside⟩⟩
    · rw [Bool.eq_false_iff.2 first]
      exact .inl ⟨rfl, .inl ⟨aligned, inside⟩⟩
  · rw [both_cursor, seam.atKeyword_left (by decide) (by decide), seam.atKeyword_right]
    exact .inl ⟨rfl, .inr seam⟩

/-! ## Rules -/

theorem identifier_of_start (h : s.cursor.peek.any isIdentStart = true) :
    Ensures limits s identifier fun r s' => ∃ n, r = some n ∧ n.kind = .identifier ∧
      n.span.start = s.cursor.position ∧ n.text? = some (String.ofList (s.cursor.run isWordChar)) ∧
      s' = { s with cursor := s.cursor.skipWhile isWordChar } := by
  simp only [identifier, takeLeaf, ensures_bind, ensures_cursor, h, if_true, ensures_move,
    ensures_textNodeFrom, ensures_pure]
  refine ⟨_, rfl, rfl, rfl, ?_, rfl⟩
  have name : (s.cursor.advanceBy (s.cursor.run isWordChar).length).textSince s.cursor =
      s.cursor.run isWordChar := by
    rw [textSince_advanceBy]
    exact (List.prefix_iff_eq_take.1 (List.takeWhile_prefix _)).symm
  rw [name]
  rfl

theorem rule_consumes {limits : Limits} {s : ParseState} : Ensures limits s rule fun r t =>
    r.isSome = true → t.cursor.rest.length < s.cursor.rest.length := by
  rw [rule, ensures_bind, ensures_cursor, ensures_bind, ensures_errorCount]
  refine Consumes.bind identifier_consumes ?_ ?_ limits s
  · rintro (_ | name)
    · exact fun _ _ => .refl _
    · refine (ruleTail_reads _).moves.bind ?_
      rintro ⟨parts, complete⟩
      exact fun _ _ => .refl _
  · exact fun _ _ => rfl

theorem nextRule_consumes : Consumes nextRule := by
  intro limits s
  simp only [nextRule, ensures_bind, ensures_cursor, ensures_errorsFull]
  split
  · exact fun h => by cases h
  · refine (rule_consumes).bind ?_
    rintro (_ | rule) t shorter
    · exact fun h => by cases h
    · have shorter := shorter rfl
      have skipped (m : Cursor → Cursor) (moves : ∀ c : Cursor, c.Reaches (m c)) :
          (m t.cursor).skipBlank.rest.length < s.cursor.rest.length :=
        Nat.lt_of_le_of_lt (Cursor.length_le_of_reaches
          ((moves t.cursor).trans (Cursor.reaches_skipBlank _))) shorter
      dsimp only
      split
      · exact fun _ => skipped _ Cursor.reaches_synchronize
      · exact fun _ => skipped id .refl

theorem start_of_checkWord {c : Cursor} {word : String} (h : c.checkWord word = true)
    (hw : word.toList.all isWordChar = true) (start : word.toList.head?.any isIdentStart = true) :
    c.peek.any isIdentStart = true := by
  have run := (Cursor.checkWord_iff hw).1 h
  rw [← run] at start
  rw [Cursor.peek]
  cases hrest : c.rest with
  | nil =>
    rw [hrest] at start
    exact start
  | cons d rest =>
    rw [hrest, List.takeWhile_cons] at start
    split at start
    · exact start
    · cases start

theorem ruleTail_complains (name : String)
    (missing : startsAssignment s.cursor.skipBlank.rest = false) :
    Complains limits s (ruleTail name) ⟨(Complaint.equalsMissing name).message, s.cursor.nextSpan⟩ := by
  have nothing : Declines limits s (afterBlank singleEquals) :=
    Declines.afterBlank (singleEquals_nothing missing)
  refine (nothing.complains (.equalsMissing name)).bind ?_
  rintro (_ | _)
  · exact fun _ _ => .refl
  · refine (orReport_grows expression_tries.afterBlank.grows _).bind ?_
    rintro (_ | body)
    · exact fun _ _ => .refl
    · exact ruleUses_tries.afterBlank.grows.bind fun _ _ _ => .refl

/-- A name without `=` behind it. -/
theorem rule_complains (start : s.cursor.peek.any isIdentStart = true)
    (missing : startsAssignment (s.cursor.skipWhile isWordChar).skipBlank.rest = false) :
    Complains limits s rule
      ⟨(Complaint.equalsMissing (String.ofList (s.cursor.run isWordChar))).message,
        (s.cursor.skipWhile isWordChar).nextSpan⟩ := by
  rw [Complains, rule, ensures_bind, ensures_cursor, ensures_bind, ensures_errorCount]
  refine (identifier_of_start start).bind ?_
  rintro _ _ ⟨name, rfl, -, -, text, rfl⟩
  simp only [text, Option.getD_some]
  have missing := @ruleTail_complains limits
    { s with cursor := s.cursor.skipWhile isWordChar } (String.ofList (s.cursor.run isWordChar)) missing
  have rest (r : List Node × Bool) : Grows (do
      let node ← branchFrom .ruleDefinition s.cursor (name :: r.1)
      return some (Rule.mk node (r.2 && (← errorCount) == s.errors.length))) :=
    fun _ _ => .refl
  refine (missing.bind rest).mono ?_
  intro _ s' further
  rw [← ParseState.recording_moved] at further
  exact further

/-- A rule called `resolver`, without `=` at the end of the text. -/
theorem DefaultBehind.rule_complains (h : DefaultBehind F s) : Complains limits s rule
    ⟨(Complaint.equalsMissing "resolver").message, (s.cursor.advanceBy "resolver".length).nextSpan⟩ := by
  have word : s.cursor.checkWord "resolver" = true := by
    have first := h.first
    rw [Cursor.atKeyword, Bool.and_eq_true] at first
    exact first.1
  have run : s.cursor.run isWordChar = "resolver".toList := (Cursor.checkWord_iff (by decide)).1 word
  have behind : s.cursor.skipWhile isWordChar = s.cursor.advanceBy "resolver".length := by
    rw [Cursor.skipWhile, run]
    rfl
  have complains := @Parse.rule_complains limits s (start_of_checkWord word (by decide) (by decide))
  rw [run, String.ofList_toList, behind, h.atEnd] at complains
  exact complains rfl

theorem leavingRule_grows (r : Option Rule) : Grows
    (match r with
    | none => return none
    | some rule => do
      if !rule.clean then
        move Cursor.synchronize
      skipBlank
      return some rule.node) := by
  cases r with
  | none => exact fun _ _ => .refl
  | some rule => exact leaving_grows _ _ _

theorem DefaultBehind.nextRules_complain (h : DefaultBehind F s) : Complains limits s (many nextRule)
    ⟨(Complaint.equalsMissing "resolver").message, (s.cursor.advanceBy "resolver".length).nextSpan⟩ := by
  have first := h.first
  have left : s.cursor.atEnd = false := by
    have := length_le_of_atKeyword first
    rw [Cursor.atEnd, List.isEmpty_eq_false_iff, ← List.length_pos_iff]
    exact Nat.lt_of_lt_of_le (by decide) this
  have one : Complains limits s nextRule
      ⟨(Complaint.equalsMissing "resolver").message, (s.cursor.advanceBy "resolver".length).nextSpan⟩ := by
    rw [Complains, nextRule, ensures_bind, ensures_cursor, ensures_bind, ensures_errorsFull, left,
      Bool.false_or]
    split
    · next full =>
      rw [ParseState.recording, if_pos (of_decide_eq_true full)]
      exact .refl
    · exact h.rule_complains.bind leavingRule_grows
  rw [Complains, many, ensures_bind, ensures_cursor, manyFuel]
  exact one.bind (nextRule_carries.grows.furtherRounds _)

theorem nextRule_both (aligned : Aligned F s t) (inside : F.behind = [] ∨ s.cursor.rest ≠ []) :
    Both limits s t nextRule nextRule fun a s' b t' =>
      (b = shift F.lines a ∧ (a.isSome = true → Placed F s' t')) ∨ leftOpen F limits s' t' ∨
        a.any statementAwaits = true ∧ DoneBeforeWith F s' := by
  rw [nextRule, both_cursor, both_errorsFull, aligned.atEnd inside, aligned.count]
  split
  · exact .inl ⟨rfl, fun h => by cases h⟩
  · refine Both.bind (rule_orTakes aligned) ?_
    rintro a s₁ b t₁ (⟨rfl, aligned₁⟩ | parted | ⟨awaits, before⟩)
    · cases a with
      | none => exact .inl ⟨rfl, fun h => by cases h⟩
      | some rule =>
        have leaving := (Placed.synchronize aligned₁).cases
        have landed := @leaving_lands (Option Node) _ F limits s₁ t₁ _ (!rule.clean) _
          (Option.any statementAwaits) aligned₁ leaving (some rule.node)
        refine Both.mono landed ?_
        rintro a s₂ b t₂ (⟨same, placed⟩ | taken)
        · exact .inl ⟨same, fun _ => placed⟩
        · exact .inr taken
    · exact .inr (.inl (Lasting.keeps parted (leavingRule_grows a limits s₁)
        (leavingRule_grows b limits t₁)))
    · cases a with
      | none => cases awaits
      | some rule =>
        have skips := (Cursor.skipBlank_reaches_synchronize s₁.cursor).trans (Cursor.reaches_skipBlank _)
        exact leaving_done before skips fun _ done => .inr (.inr ⟨awaits, done⟩)

theorem nextRule_nothing_atEnd (h : s.cursor.rest = []) : Declines limits s nextRule := by
  have atEnd : s.cursor.atEnd = true := by
    rw [Cursor.atEnd, h]
    rfl
  simp only [Declines, nextRule, ensures_bind, ensures_cursor, ensures_errorsFull, atEnd, Bool.true_or,
    if_true, ensures_pure, and_self]

theorem nextRules_atEnd (h : s.cursor.rest = []) (fuel : Nat) :
    Ensures limits s (manyFuel nextRule fuel) fun a s' => a = [] ∧ s' = s :=
  (nextRule_nothing_atEnd h).manyFuel fuel

/-- How two readings of the rules of a document end. -/
inductive RulesEnd (F : Frame) (limits : Limits) (a : List Node) (s : ParseState) (b : List Node)
    (t : ParseState) : Prop where
  /-- Both stop at the same place in front of the end. -/
  | stopped (matched : Matched (Aligned F) F.lines a s b t) (inside : F.behind = [] ∨ s.cursor.rest ≠ [])
  /-- The first one stops at the seam, from where the second one goes on. -/
  | behind (t₁ : ParseState) (fuel : Nat) (seam : Seam F s t₁) (enough : t₁.cursor.rest.length < fuel)
    (further : Ensures limits t₁ (manyFuel nextRule fuel) fun more t₂ =>
      b = shift F.lines a ++ more ∧ t = t₂)
  /-- They have parted. -/
  | parted (h : leftOpen F limits s t)
  /-- The second one has taken the rule behind for options of the last statement. -/
  | taken (awaits : a.getLast?.any statementAwaits = true) (done : DoneBeforeWith F s)

/-- With nothing behind the text the readings do not part. -/
theorem RulesEnd.whole {a b : List Node} (h : RulesEnd F limits a s b t) (nothing : F.behind = []) :
    Matched (Aligned F) F.lines a s b t := by
  cases h with
  | stopped matched _ => exact matched
  | behind _ _ seam _ _ => exact absurd nothing seam.more
  | parted h => exact absurd nothing h.1
  | taken _ done => exact absurd nothing (Frame.behind_of_word done.word (by decide))

theorem RulesEnd.takenBehind (front : List Node) {last b : List Node}
    (awaits : last.getLast?.any statementAwaits = true) (done : DoneBeforeWith F s) :
    RulesEnd F limits (front ++ last) s b t := by
  obtain ⟨node, isLast, awaits⟩ := (Option.any_eq_true _ _).1 awaits
  refine .taken ?_ done
  rw [List.getLast?_append, Option.mem_def.1 isLast]
  exact awaits

theorem RulesEnd.prepend {a b : List Node} (h : RulesEnd F limits a s b t) (front : List Node) :
    RulesEnd F limits (front ++ a) s (shift F.lines front ++ b) t := by
  have moved : shift F.lines (front ++ a) = shift F.lines front ++ shift F.lines a := List.map_append
  cases h with
  | stopped matched inside =>
    obtain ⟨rfl, aligned⟩ := matched
    exact .stopped ⟨moved.symm, aligned⟩ inside
  | behind t₁ fuel seam enough further =>
    refine .behind t₁ fuel seam enough (further.mono ?_)
    rintro more t₂ ⟨rfl, rfl⟩
    rw [moved, List.append_assoc]
    exact ⟨rfl, rfl⟩
  | parted h => exact .parted h
  | taken awaits done => exact .takenBehind front awaits done

/-- **The rules of a document in step.** The induction is on the fuel of the first reading. -/
theorem nextRules_both {n m : Nat} (placed : Placed F s t)
    (enough : s.cursor.rest.length < n) (enough' : t.cursor.rest.length < m) :
    Both limits s t (manyFuel nextRule n) (manyFuel nextRule m) (RulesEnd F limits) := by
  have grows : Grows nextRule := nextRule_carries.grows
  induction n generalizing s t m with
  | zero => omega
  | succ n ih =>
    rcases placed with ⟨aligned, inside⟩ | seam
    · obtain ⟨m, rfl⟩ : ∃ k, m = k + 1 := ⟨m - 1, by omega⟩
      have round : Both limits s t nextRule nextRule fun a s' b t' =>
          (b = shift F.lines a ∧ (a.isSome = true → Placed F s' t') ∨ leftOpen F limits s' t' ∨
            a.any statementAwaits = true ∧ DoneBeforeWith F s') ∧
            (a = none → s' = s) ∧ (b = none → t' = t) ∧
            (a.isSome = true → s'.cursor.rest.length < s.cursor.rest.length) ∧
            (b.isSome = true → t'.cursor.rest.length < t.cursor.rest.length) :=
        ⟨nextRule_both aligned inside, nextRule_traceless limits s, nextRule_traceless limits t,
          nextRule_consumes limits s, nextRule_consumes limits t⟩
      refine Both.bind round ?_
      rintro a s' b t' ⟨⟨rfl, placed'⟩ | parted | ⟨awaits, done⟩, stays, stays', shorter, shorter'⟩
      · cases a with
        | none =>
          rw [stays rfl, stays' rfl]
          exact .stopped ⟨rfl, aligned⟩ inside
        | some node =>
          have := shorter rfl
          have := shorter' rfl
          refine Both.bind (ih (placed' rfl) (by omega) (by omega)) ?_
          intro nodes s'' nodes' t'' ends
          exact ends.prepend [node]
      · refine RulesEnd.parted ?_
        exact Lasting.keeps parted (grows.furtherRounds n a limits s') (grows.furtherRounds m b limits t')
      · cases a with
        | none => cases awaits
        | some node =>
          refine Ensures.bind (nextRules_atEnd done.atEnd n) ?_
          rintro _ _ ⟨rfl, rfl⟩
          exact .taken awaits done
    · refine (nextRules_atEnd seam.atEnd (n + 1)).mono ?_
      rintro _ _ ⟨rfl, rfl⟩
      exact .behind t m seam enough' ⟨rfl, rfl⟩

/-! ## Documents -/

/-- The rules behind the other statements. -/
def rulesFrom (front : List Node) : Parse (List Node) := do
  return front ++ (← many nextRule)

/-- The default resolver and what follows. -/
def resolverFrom (front : List Node) : Parse (List Node) := do
  let resolver ← resolverSection
  rulesFrom (front ++ resolver)

/-- The imports and what follows. -/
def importsFrom (front : List Node) : Parse (List Node) := do
  let imports ← many nextImport
  resolverFrom (front ++ imports)

/-- All statements of a document. -/
def statements : Parse (List Node) := do
  skipBlank
  let version ← versionSection
  importsFrom version

theorem document_eq : document =
    (do
      let start ← cursor
      branchFrom .root start (← statements)) := by
  simp only [document, statements, importsFrom, resolverFrom, rulesFrom, bind_assoc, pure_bind]

theorem rulesFrom_grows (front : List Node) : Grows (rulesFrom front) :=
  nextRule_carries.grows.many.bind fun _ _ _ => .refl

theorem resolverFrom_grows (front : List Node) : Grows (resolverFrom front) :=
  resolverSection_carries.grows.bind fun _ => rulesFrom_grows _

theorem importsFrom_grows (front : List Node) : Grows (importsFrom front) :=
  nextImport_carries.grows.many.bind fun _ => resolverFrom_grows _

/-! ### At the end of the text -/

theorem nextImport_nothing_atEnd (h : s.cursor.rest = []) : Declines limits s nextImport := by
  have keyword : s.cursor.atKeyword "import" = false := by
    rw [Cursor.atKeyword, Cursor.checkWord, Cursor.checkLiteral, h]
    rfl
  simp only [Declines, nextImport, ensures_bind, ensures_cursor, keyword, Bool.false_eq_true, if_false,
    ensures_pure, and_self]

theorem rulesFrom_atEnd (h : s.cursor.rest = []) (front : List Node) :
    Ensures limits s (rulesFrom front) fun a s' => a = front ∧ s' = s := by
  have rules : Ensures limits s (many nextRule) fun a s' => a = [] ∧ s' = s := nextRules_atEnd h _
  refine Ensures.bind rules ?_
  rintro _ _ ⟨rfl, rfl⟩
  exact ⟨List.append_nil front, rfl⟩

theorem resolverFrom_atEnd (h : s.cursor.rest = []) (front : List Node) :
    Ensures limits s (resolverFrom front) fun a s' => a = front ∧ s' = s := by
  have keyword : s.cursor.atKeyword "resolver" = false := by
    rw [Cursor.atKeyword, Cursor.checkWord, Cursor.checkLiteral, h]
    rfl
  have resolver : Ensures limits s resolverSection fun a s' => a = [] ∧ s' = s := by
    simp only [resolverSection, atResolverDefault, ensures_bind, ensures_cursor, keyword, ensures_pure,
      Bool.false_and, Bool.false_eq_true, if_false, and_self]
  refine Ensures.bind resolver ?_
  rintro _ _ ⟨rfl, rfl⟩
  rw [List.append_nil]
  exact rulesFrom_atEnd h front

/-! ### Documents in step -/

theorem rulesFrom_both (placed : Placed F s t) (front : List Node) :
    Both limits s t (rulesFrom front) (rulesFrom (shift F.lines front)) (RulesEnd F limits) := by
  rw [rulesFrom, rulesFrom, many, bind_assoc, bind_assoc, both_cursor]
  refine Both.bind (nextRules_both placed (Nat.lt_succ_self _) (Nat.lt_succ_self _)) ?_
  intro rules s' rules' t' ends
  exact ends.prepend front

theorem DefaultBehind.resolverFrom_complains (h : DefaultBehind F s) (front : List Node) :
    Complains limits s (resolverFrom front)
      ⟨(Complaint.equalsMissing "resolver").message, (s.cursor.advanceBy "resolver".length).nextSpan⟩ := by
  have alone : (s.cursor.advanceBy "resolver".length).skipBlank.checkWord "default" = false := by
    rw [← Bool.not_eq_true, Cursor.checkWord_iff (by decide), h.atEnd]
    exact fun same => by cases same
  have nothing : Ensures limits s resolverSection fun resolver s' => resolver = [] ∧ s' = s := by
    simp only [resolverSection, atResolverDefault, ensures_bind, ensures_cursor, ensures_pure, alone,
      Bool.and_false, Bool.false_eq_true, if_false, and_self]
  refine Ensures.bind nothing ?_
  rintro _ _ ⟨rfl, rfl⟩
  exact h.nextRules_complain.bind fun _ _ _ => .refl

theorem resolverFrom_both (placed : Placed F s t) (front : List Node) :
    Both limits s t (resolverFrom front) (resolverFrom (shift F.lines front)) (RulesEnd F limits) := by
  by_cases divided : DefaultBehind F s
  · have reached : (Cursor.ofChars F.text).Reaches s.cursor := by
      rcases placed with ⟨aligned, -⟩ | seam
      · exact aligned.reached
      · exact seam.reached
    have count : t.errors.length = s.errors.length := by
      rcases placed with ⟨aligned, -⟩ | seam
      · exact aligned.count
      · exact seam.count
    have opens : SyntaxError.LeavesOpen F.word F.text ⟨(Complaint.equalsMissing "resolver").message,
        (s.cursor.advanceBy "resolver".length).nextSpan⟩ :=
      ⟨.equalsMissing "resolver", s.cursor.advanceBy "resolver".length,
        by rw [divided.word]; rfl, reached.trans (Cursor.reaches_advanceBy _ _), divided.atEnd, rfl⟩
    have more := Frame.behind_of_word divided.word (by decide)
    exact ((divided.resolverFrom_complains front).parted more opens count (resolverFrom_grows _)).mono
      fun _ _ _ _ parted => .parted parted
  · refine Both.bind (resolverSection_lands placed divided) ?_
    rintro resolver s' resolver' t' (⟨rfl, placed'⟩ | parted | ⟨awaits, done⟩)
    · have moved : shift F.lines front ++ shift F.lines resolver = shift F.lines (front ++ resolver) :=
        List.map_append.symm
      rw [moved]
      exact rulesFrom_both placed' _
    · refine RulesEnd.parted ?_
      exact Lasting.keeps parted (rulesFrom_grows _ limits s') (rulesFrom_grows _ limits t')
    · refine (rulesFrom_atEnd done.atEnd (front ++ resolver)).mono ?_
      rintro _ _ ⟨rfl, rfl⟩
      exact .takenBehind front awaits done

theorem importsFrom_both (placed : Placed F s t) (front : List Node) :
    Both limits s t (importsFrom front) (importsFrom (shift F.lines front)) (RulesEnd F limits) := by
  have next (s t : ParseState) (placed : Placed F s t) :
      Both limits s t nextImport nextImport fun a s' b t' => Matched (Placed F) F.lines a s' b t' ∨
        leftOpen F limits s' t' ∨ ∃ node ∈ a, statementAwaits node = true ∧ DoneBeforeWith F s' := by
    refine Both.mono (nextImport_lands placed) ?_
    rintro a s' b t' (matched | parted | ⟨awaits, done⟩)
    · exact .inl matched
    · exact .inr (.inl parted)
    · obtain ⟨node, isSome, awaits⟩ := (Option.any_eq_true _ _).1 awaits
      exact .inr (.inr ⟨node, isSome, awaits, done⟩)
  have imports := Both.manyFuel next (fun _ _ last => nextImport_nothing_atEnd last.2.atEnd)
    nextImport_consumes nextImport_carries.grows (Nat.lt_succ_self _) (Nat.succ_le_succ placed.length_le)
    placed
  rw [importsFrom, importsFrom, many, bind_assoc, bind_assoc, both_cursor]
  refine Both.bind imports ?_
  rintro imports s' imports' t' (⟨rfl, placed'⟩ | parted | ⟨node, isLast, awaits, done⟩)
  · have moved : shift F.lines front ++ shift F.lines imports = shift F.lines (front ++ imports) :=
      List.map_append.symm
    rw [moved]
    exact resolverFrom_both placed' _
  · refine RulesEnd.parted ?_
    exact Lasting.keeps parted (resolverFrom_grows _ limits s') (resolverFrom_grows _ limits t')
  · refine (resolverFrom_atEnd done.atEnd (front ++ imports)).mono ?_
    rintro _ _ ⟨rfl, rfl⟩
    exact .takenBehind front ((Option.any_eq_true _ _).2 ⟨node, isLast, awaits⟩) done

/-- **Documents in step**: the second reading finds the statements of the first one, moved down, and then
goes on with the rule behind the text, unless both stop in front of the end or have parted. -/
theorem statements_both (aligned : Aligned F s t) :
    Both limits s t statements statements (RulesEnd F limits) := by
  rw [statements, both_skipBlank]
  refine Both.bind (versionSection_lands aligned.skipBlank) ?_
  rintro version s' _ t' ⟨rfl, placed⟩
  exact importsFrom_both placed version

end Parse

end PatternRules

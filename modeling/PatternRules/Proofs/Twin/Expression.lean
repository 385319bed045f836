import PatternRules.Proofs.Twin

/-!
Expressions are read in step, and the readings never part: an expression ends at the start of a rule, and
what is missing in front of it is complained about in front of the blanks. At the seam both readings find
no expression (`expressionWithin_inStep`).
-/

namespace PatternRules

/-! ## Reading on -/

theorem Cursor.length_le_of_reaches {c d : Cursor} (h : c.Reaches d) :
    d.rest.length ≤ c.rest.length := by
  obtain ⟨n, rfl⟩ := h
  rw [Cursor.rest_advanceBy, List.length_drop]
  omega

theorem Cursor.length_lt_of_advance_reaches {c d : Cursor} (left : c.rest ≠ [])
    (h : c.advance.Reaches d) : d.rest.length < c.rest.length := by
  have shorter := length_le_of_reaches h
  have := List.length_pos_iff.2 left
  rw [Cursor.rest_advance, List.length_tail] at shorter
  omega

namespace Parse

variable {F : Frame} {limits : Limits} {s t : ParseState}

theorem Moves.bind {α β : Type} {p : Parse α} {f : α → Parse β} (h : Moves p)
    (next : ∀ a, Moves (f a)) : Moves (p >>= f) :=
  fun limits s => (h limits s).bind fun a t reaches =>
    (next a limits t).mono fun _ _ reaches' => reaches.trans reaches'

/-- `p` reads a character, if there is one. -/
def Advances {α : Type} (p : Parse α) : Prop :=
  ∀ limits s, Ensures limits s p fun _ t => s.cursor.advance.Reaches t.cursor

/-- A reading that moves on first. -/
theorem advances_of_moves {α : Type} {m : Cursor → Cursor} {rest : Cursor → Parse α}
    (moves : ∀ c : Cursor, c.advance.Reaches (m c)) (h : ∀ start, Moves (rest start)) :
    Advances (do let start ← cursor; move m; rest start) := by
  intro limits s
  simp only [ensures_bind, ensures_cursor, ensures_move]
  refine (h s.cursor limits _).mono ?_
  intro _ t reaches
  exact (moves s.cursor).trans reaches

theorem Consumes.bind {α β : Type} {p : Parse (Option α)} {f : Option α → Parse (Option β)}
    (h : Consumes p) (moves : ∀ r, Moves (f r))
    (nothing : ∀ limits s, Ensures limits s (f none) fun r _ => r = none) : Consumes (p >>= f) := by
  intro limits s
  refine (h limits s).bind ?_
  rintro (_ | a) t shorter
  · refine (nothing limits t).mono ?_
    rintro _ u rfl h
    cases h
  · refine (moves (some a) limits t).mono ?_
    intro r u reaches _
    have := Cursor.length_le_of_reaches reaches
    have := shorter rfl
    omega

theorem Consumes.afterBlank {α : Type} {p : Parse (Option α)} (h : Consumes p) :
    Consumes (afterBlank p) := by
  intro limits s
  rw [Parse.afterBlank, ensures_bind, ensures_cursor, ensures_bind, ensures_skipBlank]
  refine (h limits _).bind ?_
  rintro (_ | a) t shorter
  · exact fun h => by cases h
  · intro h
    have := Cursor.length_le_of_reaches (Cursor.reaches_skipBlank s.cursor)
    have : t.cursor.rest.length < s.cursor.skipBlank.rest.length := shorter rfl
    show t.cursor.rest.length < s.cursor.rest.length
    omega

/-- A reading that finds something always, where something is left. -/
theorem Advances.consumes {α : Type} {p : Parse α} (h : Advances p) (left : s.cursor.rest ≠ []) :
    Ensures limits s (return some (← p)) fun r t =>
      r.isSome = true → t.cursor.rest.length < s.cursor.rest.length :=
  (h limits s).bind fun _ _ reaches _ => Cursor.length_lt_of_advance_reaches left reaches

theorem left_of_peek {c : Cursor} {ch : Char} (h : c.peek = some ch) : c.rest ≠ [] := by
  intro nothing
  rw [Cursor.peek, nothing] at h
  cases h

theorem accept_consumes {match? : Cursor → Option Cursor}
    (h : ∀ c d, match? c = some d → d.rest.length < c.rest.length) :
    Consumes (found (accept match?)) := by
  intro limits s
  simp only [found, accept, ensures_bind, ensures_cursor]
  cases matched : match? s.cursor with
  | none => exact fun h => by cases h
  | some c => exact fun _ => h _ _ matched

theorem eatChar_consumes (c : Char) : Consumes (found (eatChar c)) := by
  refine accept_consumes fun d e matched => ?_
  rw [Cursor.consume?] at matched
  split at matched
  · next here =>
    rw [← Option.some.inj matched]
    exact Cursor.length_lt_of_advance_reaches (left_of_peek here) (.refl _)
  · cases matched

theorem eatCharAfterBlank_consumes (c : Char) (limits : Limits) (s : ParseState) :
    Ensures limits s (eatCharAfterBlank c) fun found t =>
      found = true → t.cursor.rest.length < s.cursor.rest.length :=
  (eatChar_consumes c).afterBlank limits s

theorem takeLeaf_advances (kind : Kind) (n : Nat) : Advances (takeLeaf kind (n + 1)) :=
  fun _ _ => Cursor.reaches_advanceBy n _

theorem FollowsAt.asSome {α : Type} [Shifts α] {p q : Parse α} (h : FollowsAt F never limits s t p q) :
    FollowsAt F never limits s t (return some (← p)) (return some (← q)) :=
  h.then fun a _ _ aligned => .pure aligned (some a)

/-! ## Atoms -/

/-- The next characters are the same, except that a newline may be where the text ends. -/
theorem peek_cases (aligned : Aligned F s t) :
    s.cursor.peek = none ∧ (t.cursor.peek = none ∨ t.cursor.peek = some '\n') ∨
      ∃ c, s.cursor.peek = some c ∧ t.cursor.peek = some c ∧ s.cursor.rest ≠ [] := by
  rw [Cursor.peek, Cursor.peek, aligned.cursor, Frame.rest_lift]
  cases s.cursor.rest with
  | nil =>
    refine .inl ⟨rfl, ?_⟩
    rcases F.nextRule with nothing | ⟨line, behind, -⟩
    · exact .inl (by rw [nothing]; rfl)
    · exact .inr (by rw [behind]; rfl)
  | cons c rest => exact .inr ⟨c, rfl, rfl, List.cons_ne_nil _ _⟩

theorem escape_follows (aligned : Aligned F s t) (left : s.cursor.rest ≠ []) :
    FollowsAt F never limits s t escape escape := by
  have moved := aligned.advance left
  have node (s' t' : ParseState) (aligned' : Aligned F s' t') : FollowsAt F never limits s' t'
      (textNodeFrom .escape s.cursor []) (textNodeFrom .escape t.cursor []) := by
    rw [aligned.cursor]
    exact textNodeFrom_follows .escape aligned.reached [] limits s' t' aligned'
  have incomplete : FollowsAt F never limits { s with cursor := s.cursor.advance }
      { t with cursor := t.cursor.advance }
      (do report .escapeIncomplete (← spanFrom s.cursor); textNodeFrom .escape s.cursor [])
      (do report .escapeIncomplete (← spanFrom t.cursor); textNodeFrom .escape t.cursor []) := by
    have complained := reportFrom_follows .escapeIncomplete aligned.reached limits _ _ moved
    rw [← aligned.cursor, followsAt_spanFrom] at complained
    rw [followsAt_spanFrom]
    exact complained.then fun _ => node
  rw [escape, followsAt_cursor, followsAt_move, followsAt_peek]
  rcases peek_cases moved with ⟨here, there | there⟩ | ⟨c, here, there, more⟩
  · simp only [here, there]
    exact incomplete
  · simp only [here, there, true_or, if_true]
    exact incomplete
  · simp only [here, there]
    split
    · exact incomplete
    · exact node _ _ (moved.advance more)

theorem classChar_follows (aligned : Aligned F s t) (left : s.cursor.rest ≠ []) :
    FollowsAt F never limits s t classChar classChar := by
  rw [classChar, followsAt_peek]
  obtain ⟨x, here, there⟩ : ∃ x, s.cursor.peek = some x ∧ t.cursor.peek = some x := by
    rcases peek_cases aligned with ⟨none, -⟩ | ⟨x, here, there, -⟩
    · exact absurd (List.head?_eq_none_iff.1 none) left
    · exact ⟨x, here, there⟩
  simp only [here, there]
  split
  · exact escape_follows aligned left
  · exact takeLeaf_follows _ (List.length_pos_iff.2 left) aligned

theorem atRangeHyphen_lift (c : Cursor) :
    (decide ((F.lift c).peek = some '-') &&
        ((F.lift c).peekAt 1).any fun next => next != ']' && next != '\n') =
      (decide (c.peek = some '-') && (c.peekAt 1).any fun next => next != ']' && next != '\n') := by
  rw [decide_eq_decide.2 (Frame.peek_lift (by decide) c)]
  by_cases hyphen : c.peek = some '-'
  · have fits : 1 ≤ c.rest.length := List.length_pos_iff.2 (left_of_peek hyphen)
    rw [Frame.peekAt_lift rfl c fits]
  · rw [decide_eq_false hyphen, Bool.false_and, Bool.false_and]

theorem classItem_follows (aligned : Aligned F s t) (left : s.cursor.rest ≠ []) :
    FollowsAt F never limits s t classItem classItem := by
  rw [classItem, followsAt_cursor]
  refine (classChar_follows aligned left).then ?_
  intro low s' t' aligned'
  simp only [atRangeHyphen, bind_assoc, pure_bind]
  rw [followsAt_cursor, aligned'.cursor, atRangeHyphen_lift]
  split
  · next range =>
    obtain ⟨hyphen, y, there, -⟩ := range_of_hyphen range
    have moved := aligned'.advance (left_of_peek hyphen)
    rw [followsAt_move]
    refine (classChar_follows moved (left_of_peek there)).then ?_
    intro high s'' t'' aligned''
    rw [aligned.cursor]
    exact textNodeFrom_follows .charRange aligned.reached [low, high] limits s'' t'' aligned''
  · exact .pure aligned' low

theorem nextClassItem_follows : Follows F never nextClassItem nextClassItem := by
  intro limits s t aligned
  have unclosed : FollowsAt F never limits s t
      (do reportHere .classUnclosed; return (none : Option Node))
      (do reportHere .classUnclosed; return none) :=
    (reportHere_follows _ limits s t aligned).then fun _ _ _ aligned' => .pure aligned' none
  rw [nextClassItem, followsAt_peek]
  rcases peek_cases aligned with ⟨here, there | there⟩ | ⟨c, here, there, left⟩
  · simp only [here, there]
    exact unclosed
  · simp only [here, there, if_true]
    exact unclosed
  · simp only [here, there]
    split
    · exact unclosed
    · split
      · exact .pure (aligned.advance left) none
      · exact (classItem_follows aligned left).asSome

theorem escape_advances : Advances escape := by
  intro limits s
  have incomplete : Ensures limits { s with cursor := s.cursor.advance }
      (do report .escapeIncomplete (← spanFrom s.cursor); textNodeFrom .escape s.cursor [])
      fun _ t => s.cursor.advance.Reaches t.cursor :=
    report_moves _ _ limits _
  simp only [escape, ensures_bind, ensures_cursor, ensures_move, ensures_peek]
  split
  · exact incomplete
  · split
    · exact incomplete
    · exact Cursor.reaches_advance _

theorem classChar_advances : Advances classChar := by
  intro limits s
  simp only [classChar, ensures_bind, ensures_peek]
  split
  · next nothing =>
    simp only [ensures_cursor, ensures_spanFrom, ensures_pure, ensures_bind]
    rw [Cursor.advance_of_rest_nil (List.head?_eq_none_iff.1 nothing)]
    exact .refl _
  · split
    · exact escape_advances limits s
    · exact takeLeaf_advances .char 0 limits s

theorem classItem_advances : Advances classItem := by
  intro limits s
  simp only [classItem, ensures_bind, ensures_cursor]
  refine (classChar_advances limits s).mono ?_
  intro low t reaches
  simp only [atRangeHyphen, ensures_bind, ensures_cursor, ensures_pure]
  split
  · simp only [ensures_bind, ensures_move]
    refine (classChar_advances limits _).mono ?_
    intro high u further
    exact reaches.trans ((Cursor.reaches_advance _).trans ((Cursor.reaches_advance _).trans further))
  · exact reaches

theorem nextClassItem_consumes : Consumes nextClassItem := by
  intro limits s
  simp only [nextClassItem, ensures_bind, ensures_peek]
  cases hc : s.cursor.peek with
  | none => exact fun h => by cases h
  | some c =>
    have left : s.cursor.rest ≠ [] := left_of_peek hc
    dsimp only
    split
    · exact fun h => by cases h
    · split
      · exact fun h => by cases h
      · refine (classItem_advances limits s).bind ?_
        exact fun _ _ reaches _ => Cursor.length_lt_of_advance_reaches left reaches

theorem nextClassItem_grows : Grows nextClassItem :=
  fun limits s => (nextClassItem_onLine [] limits s).mono fun _ _ kept => kept.grows

theorem charClass_follows (aligned : Aligned F s t) (left : s.cursor.rest ≠ []) :
    FollowsAt F never limits s t charClass charClass := by
  rw [charClass, followsAt_cursor, followsAt_move]
  have items := nextClassItem_follows (F := F).many nextClassItem_consumes nextClassItem_grows
  refine (items limits _ _ (aligned.advance left)).then ?_
  intro items s' t' aligned'
  rw [aligned.cursor]
  exact textNodeFrom_follows .charClass aligned.reached items limits s' t' aligned'

theorem identifier_nothing (h : s.cursor.peek.any isIdentStart = false) :
    Declines limits s identifier := by
  simp only [Declines, identifier, ensures_bind, ensures_cursor, h, Bool.false_eq_true, if_false]
  exact ⟨rfl, rfl⟩

theorem FollowsAt.ofDeclines {α : Type} [Shifts α] {E : Parting} {p q : Parse (Option α)}
    (aligned : Aligned F s t) (h : Declines limits s p) (h' : Declines limits t q) :
    FollowsAt F E limits s t p q := by
  obtain ⟨nothing, same⟩ := h
  obtain ⟨nothing', same'⟩ := h'
  refine .inl ⟨?_, ?_⟩
  · rw [nothing, nothing']
    rfl
  · rw [same, same']
    exact aligned

theorem atom_follows : Follows F never atom atom := by
  intro limits s t aligned
  rw [atom, followsAt_peek]
  rcases peek_cases aligned with ⟨here, there | there⟩ | ⟨c, here, there, left⟩
  · simp only [here, there]
    exact .pure aligned none
  · simp only [here, there]
    refine .ofDeclines aligned ⟨rfl, rfl⟩ (identifier_nothing ?_)
    rw [there]
    rfl
  · simp only [here, there]
    have one : 1 ≤ s.cursor.rest.length := List.length_pos_iff.2 left
    split
    · exact (escape_follows aligned left).asSome
    · split
      · exact (takeLeaf_follows .anchor one aligned).asSome
      · split
        · exact (takeLeaf_follows .dot one aligned).asSome
        · split
          · exact (charClass_follows aligned left).asSome
          · split
            · exact string_follows limits s t aligned
            · exact identifier_follows limits s t aligned

/-! ## List matches -/

theorem filterArgument_follows : Follows F never filterArgument filterArgument := by
  intro limits s t aligned
  refine .overInlineBlank aligned fun s₁ t₁ aligned₁ => ?_
  refine (string_follows.orReport _ limits s₁ t₁ aligned₁).then ?_
  intro argument s₂ t₂ aligned₂
  refine .overInlineBlank aligned₂ fun s₃ t₃ aligned₃ => ?_
  refine (eatChar_follows (by decide) limits s₃ t₃ aligned₃).then ?_
  intro closed s₄ t₄ aligned₄
  refine .complaining aligned₄ (reportHere_follows _) fun s₅ t₅ aligned₅ => ?_
  cases argument with
  | none => exact .pure aligned₅ []
  | some argument => exact .pure aligned₅ [argument]

theorem filter_follows : Follows F never filter filter := by
  intro limits s t aligned
  rw [filter, followsAt_cursor, aligned.cursor]
  refine (identifier_follows.orReport _ limits s t aligned).then ?_
  rintro (_ | name) s₁ t₁ aligned₁
  · exact .pure aligned₁ none
  · refine (eatChar_follows (by decide) limits s₁ t₁ aligned₁).then ?_
    rintro (_ | _) s₂ t₂ aligned₂
    · refine (reportHere_follows _ limits s₂ t₂ aligned₂).then ?_
      intro _ s₃ t₃ aligned₃
      exact (branchFrom_follows .filter aligned.reached [name] limits s₃ t₃ aligned₃).asSome
    · refine (filterArgument_follows limits s₂ t₂ aligned₂).then ?_
      intro argument s₃ t₃ aligned₃
      exact (branchFrom_follows .filter aligned.reached (name :: argument) limits s₃ t₃ aligned₃).asSome

theorem untilBrackets_le_length (cs : List Char) : untilBrackets cs ≤ cs.length := by
  fun_induction untilBrackets cs with
  | case1 => exact Nat.le_refl 0
  | case2 => simp
  | case3 => simp
  | case4 c cs _ _ ih => exact Nat.succ_le_succ ih

theorem skipListMatch_follows : Follows F never skipListMatch skipListMatch := by
  intro limits s t aligned
  have same : untilBrackets t.cursor.rest = untilBrackets s.cursor.rest := by
    rw [aligned.cursor, Frame.rest_lift, Frame.untilBrackets_append_behind]
  refine .inl ⟨rfl, ?_⟩
  show Aligned F _ { t with cursor := t.cursor.advanceBy (untilBrackets t.cursor.rest) }
  rw [same]
  exact aligned.advanceBy (untilBrackets_le_length s.cursor.rest)

theorem listFilter_follows : Follows F never listFilter listFilter := by
  intro limits s t aligned
  rw [listFilter]
  refine (eatChar_follows (by decide) limits s t aligned).then ?_
  rintro (_ | _) s₁ t₁ aligned₁
  · exact .pure aligned₁ []
  · refine .overInlineBlank aligned₁ fun s₂ t₂ aligned₂ => ?_
    refine (filter_follows limits s₂ t₂ aligned₂).then ?_
    intro filter s₃ t₃ aligned₃
    refine .overInlineBlank aligned₃ fun s₄ t₄ aligned₄ => ?_
    cases filter with
    | none => exact .pure aligned₄ []
    | some filter => exact .pure aligned₄ [filter]

theorem listMatch_follows (aligned : Aligned F s t) (two : 2 ≤ s.cursor.rest.length) :
    FollowsAt F never limits s t listMatch listMatch := by
  rw [listMatch, followsAt_cursor, followsAt_move, aligned.cursor]
  have moved := aligned.advanceBy two
  rw [aligned.cursor] at moved
  refine .overInlineBlank moved fun s₁ t₁ aligned₁ => ?_
  refine (identifier_follows.orReport _ limits s₁ t₁ aligned₁).then ?_
  rintro (_ | name) s₂ t₂ aligned₂
  · refine (skipListMatch_follows limits s₂ t₂ aligned₂).then ?_
    intro _ s₃ t₃ aligned₃
    exact branchFrom_follows .listMatch aligned.reached [] limits s₃ t₃ aligned₃
  · refine .overInlineBlank aligned₂ fun s₃ t₃ aligned₃ => ?_
    refine (listFilter_follows limits s₃ t₃ aligned₃).then ?_
    intro filter s₄ t₄ aligned₄
    have node := branchFrom_follows (E := never) .listMatch aligned.reached (name :: filter) limits
    refine (eatLiteral_follows (by decide) limits s₄ t₄ aligned₄).then ?_
    rintro (_ | _) s₅ t₅ aligned₅
    · refine (reportHere_follows _ limits s₅ t₅ aligned₅).then ?_
      intro _ s₆ t₆ aligned₆
      refine (skipListMatch_follows limits s₆ t₆ aligned₆).then ?_
      intro _ s₇ t₇ aligned₇
      exact node s₇ t₇ aligned₇
    · exact node s₅ t₅ aligned₅

/-! ## Groups and captures -/

theorem reportUnlessNested_follows (complaint : Complaint) :
    Follows F never (reportUnlessNested complaint) (reportUnlessNested complaint) := by
  intro limits s t aligned
  rw [reportUnlessNested, followsAt_get, aligned.nesting]
  split
  · exact reportHere_follows complaint limits s t aligned
  · exact .pure aligned ()

/-- What is read within groups and captures is read in step. -/
structure InStep (F : Frame) (inner : Parse (Option Node)) : Prop where
  follows : Follows F never inner inner
  idle : Idle F inner
  reads : Reads (Each Kind.isExpression) inner
  tries : Tries ParseState.Settled ParseState.Orderly inner

section Nested

variable {inner : Parse (Option Node)}

theorem enclosed_follows (h : InStep F inner) (missing : Complaint) : Follows F never (enclosed missing inner) (enclosed missing inner) := by
  intro limits s t aligned
  rw [enclosed]
  refine (h.follows.afterBlank h.idle limits s t aligned).then ?_
  intro body s₁ t₁ aligned₁
  have closing (s₂ t₂ : ParseState) (aligned₂ : Aligned F s₂ t₂) : FollowsAt F never limits s₂ t₂
      (do
        if !(← eatCharAfterBlank ')') then
          reportUnlessNested .parenthesisUnclosed
        return body.toList)
      (do
        if !(← eatCharAfterBlank ')') then
          reportUnlessNested .parenthesisUnclosed
        return (shift F.lines body).toList) := by
    refine (eatCharAfterBlank_follows (by decide) rfl limits s₂ t₂ aligned₂).then ?_
    intro closed s₃ t₃ aligned₃
    refine .complaining aligned₃ (reportUnlessNested_follows _) fun s₄ t₄ aligned₄ => ?_
    cases body with
    | none => exact .pure aligned₄ []
    | some body => exact .pure aligned₄ [body]
  cases body with
  | none => exact (reportUnlessNested_follows missing limits s₁ t₁ aligned₁).then fun _ => closing
  | some body => exact closing s₁ t₁ aligned₁

theorem group_follows (h : InStep F inner)
    (aligned : Aligned F s t) (left : s.cursor.rest ≠ []) :
    FollowsAt F never limits s t (group inner) (group inner) := by
  rw [group, followsAt_cursor, followsAt_move]
  refine (enclosed_follows h _ limits _ _ (aligned.advance left)).then ?_
  intro body s₁ t₁ aligned₁
  rw [aligned.cursor]
  exact branchFrom_follows .group aligned.reached body limits s₁ t₁ aligned₁

theorem captureParts_follows (h : InStep F inner) :
    Follows F never (captureParts inner) (captureParts inner) := by
  intro limits s t aligned
  refine (identifier_follows.orReport _ limits s t aligned).then ?_
  rintro (_ | name) s₁ t₁ aligned₁
  · exact .pure aligned₁ []
  · refine (eatChar_follows (by decide) limits s₁ t₁ aligned₁).then ?_
    rintro (_ | _) s₂ t₂ aligned₂
    · refine (reportHere_follows _ limits s₂ t₂ aligned₂).then ?_
      intro _ s₃ t₃ aligned₃
      exact .pure aligned₃ [name]
    · refine (enclosed_follows h _ limits s₂ t₂ aligned₂).then ?_
      intro body s₃ t₃ aligned₃
      exact .pure aligned₃ (name :: body)

theorem namedCapture_follows (h : InStep F inner)
    (aligned : Aligned F s t) (four : 4 ≤ s.cursor.rest.length) :
    FollowsAt F never limits s t (namedCapture inner) (namedCapture inner) := by
  rw [namedCapture, followsAt_cursor, followsAt_move]
  refine (captureParts_follows h limits _ _ (aligned.advanceBy four)).then ?_
  intro parts s₁ t₁ aligned₁
  rw [aligned.cursor]
  exact branchFrom_follows .namedCapture aligned.reached parts limits s₁ t₁ aligned₁

/-! ## Quantifiers -/

theorem quantifierBounds_follows {start : Cursor} (reached : (Cursor.ofChars F.text).Reaches start)
    (least : Node) : Follows F never (quantifierBounds start least)
      (quantifierBounds (F.lift start) (shift F.lines least)) := by
  intro limits s t aligned
  refine .overInlineBlank aligned fun s₁ t₁ aligned₁ => ?_
  have closing (kind : Kind) (most : List Node) (s₂ t₂ : ParseState) (aligned₂ : Aligned F s₂ t₂) :
      FollowsAt F never limits s₂ t₂
        (do
          skipInlineBlank
          if !(← eatChar '}') then
            reportHere .quantifierUnclosed
          branchFrom kind start (least :: most))
        (do
          skipInlineBlank
          if !(← eatChar '}') then
            reportHere .quantifierUnclosed
          branchFrom kind (F.lift start) (shift F.lines (least :: most))) := by
    refine .overInlineBlank aligned₂ fun s₃ t₃ aligned₃ => ?_
    refine (eatChar_follows (by decide) limits s₃ t₃ aligned₃).then ?_
    intro closed s₄ t₄ aligned₄
    refine .complaining aligned₄ (reportHere_follows _) fun s₅ t₅ aligned₅ => ?_
    exact branchFrom_follows kind reached (least :: most) limits s₅ t₅ aligned₅
  refine (eatChar_follows (by decide) limits s₁ t₁ aligned₁).then ?_
  rintro (_ | _) s₂ t₂ aligned₂
  · exact closing .exactRange [] s₂ t₂ aligned₂
  · refine .overInlineBlank aligned₂ fun s₃ t₃ aligned₃ => ?_
    refine (number_follows limits s₃ t₃ aligned₃).then ?_
    rintro (_ | most) s₄ t₄ aligned₄
    · exact closing .range [] s₄ t₄ aligned₄
    · exact closing .range [most] s₄ t₄ aligned₄

theorem untilBrace_le_length (cs : List Char) : untilBrace cs ≤ cs.length := by
  induction cs with
  | nil => exact Nat.le_refl 0
  | cons c cs ih =>
    simp only [untilBrace, List.length_cons]
    split
    · omega
    · split <;> omega

theorem quantifier_follows : Follows F never quantifier quantifier := by
  intro limits s t aligned
  rw [quantifier, followsAt_cursor, aligned.cursor]
  refine (eatChar_follows (by decide) limits s t aligned).then ?_
  rintro (_ | _) s₁ t₁ aligned₁
  · refine (eatChar_follows (by decide) limits s₁ t₁ aligned₁).then ?_
    rintro (_ | _) s₂ t₂ aligned₂
    · exact .pure aligned₂ none
    · refine .overInlineBlank aligned₂ fun s₃ t₃ aligned₃ => ?_
      refine (number_follows limits s₃ t₃ aligned₃).then ?_
      rintro (_ | least) s₄ t₄ aligned₄
      · refine (reportHere_follows _ limits s₄ t₄ aligned₄).then ?_
        intro _ s₅ t₅ aligned₅
        have same : untilBrace t₅.cursor.rest = untilBrace s₅.cursor.rest := by
          rw [aligned₅.cursor, Frame.rest_lift, Frame.untilBrace_append_behind]
        rw [followsAt_move, same]
        exact .pure (aligned₅.advanceBy (untilBrace_le_length _)) none
      · exact (quantifierBounds_follows aligned.reached least limits s₄ t₄ aligned₄).asSome
  · exact (branchFrom_follows .questionMark aligned.reached [] limits s₁ t₁ aligned₁).asSome

/-! ## Expressions -/

theorem length_le_of_checkLiteral {c : Cursor} {literal : String} (h : c.checkLiteral literal = true) :
    literal.length ≤ c.rest.length := by
  rw [← String.length_toList]
  exact (List.isPrefixOf_iff_prefix.1 h).length_le

theorem primary_follows (h : InStep F inner) :
    Follows F never (primary inner) (primary inner) := by
  intro limits s t aligned
  rw [primary, followsAt_cursor, aligned.cursor, Frame.checkLiteral_lift (by decide),
    Frame.checkLiteral_lift (by decide)]
  simp only [@Frame.peek_lift F '(' (by decide)]
  split
  · next opened =>
    exact (namedCapture_follows h aligned (length_le_of_checkLiteral opened)).asSome
  · split
    · next opened => exact (group_follows h aligned (left_of_peek opened)).asSome
    · split
      · next opened => exact (listMatch_follows aligned (length_le_of_checkLiteral opened)).asSome
      · exact atom_follows limits s t aligned

theorem quantified_follows (h : InStep F inner) :
    Follows F never (quantified inner) (quantified inner) := by
  intro limits s t aligned
  rw [quantified, followsAt_cursor, aligned.cursor]
  refine (primary_follows h limits s t aligned).then ?_
  rintro (_ | subject) s₁ t₁ aligned₁
  · exact .pure aligned₁ none
  · refine (quantifier_follows limits s₁ t₁ aligned₁).then ?_
    rintro (_ | quantifier) s₂ t₂ aligned₂
    · exact .pure aligned₂ (some subject)
    · exact (branchFrom_follows .quantified aligned.reached [subject, quantifier] limits s₂ t₂
        aligned₂).asSome

theorem item_follows (h : InStep F inner) :
    Follows F never (item inner) (item inner) := by
  intro limits s t aligned
  simp only [item, atBoundary, bind_assoc, pure_bind]
  rw [followsAt_cursor, aligned.cursor, Frame.atKeyword_lift (by decide), Frame.atRuleStart_lift]
  split
  · exact .pure aligned none
  · exact quantified_follows h limits s t aligned

theorem item_nothing_atEnd (h : s.cursor.rest = []) : Declines limits s (item inner) := by
  have boundary : (s.cursor.atKeyword "uses" || s.cursor.atRuleStart) = false := by
    rw [Cursor.atKeyword, Cursor.checkWord, Cursor.checkLiteral, Cursor.atRuleStart, h]
    rfl
  have opening (literal : String) (ne : literal.toList ≠ []) : s.cursor.checkLiteral literal = false := by
    rw [Cursor.checkLiteral, h]
    cases hl : literal.toList with
    | nil => exact absurd hl ne
    | cons c cs => rfl
  have next : s.cursor.peek = none := by
    rw [Cursor.peek, h]
    rfl
  simp only [Declines, item, atBoundary, quantified, primary, atom, ensures_bind, ensures_cursor,
    ensures_pure, ensures_peek, boundary, opening "(?P<" (by decide), opening "[[" (by decide), next,
    Bool.false_eq_true, if_false, reduceCtorEq, and_self]

theorem item_nothing_atRule (h : startsRule s.cursor.rest = true) : Declines limits s (item inner) := by
  have boundary : (s.cursor.atKeyword "uses" || s.cursor.atRuleStart) = true := by
    rw [Cursor.atRuleStart, h, Bool.or_true]
  simp only [Declines, item, atBoundary, ensures_bind, ensures_cursor, ensures_pure, boundary, if_true,
    and_self]

theorem joined_follows (kind : Kind) {start : Cursor} (reached : (Cursor.ofChars F.text).Reaches start)
    (first : Node) (further : List Node) :
    Follows F never (joined kind start first further)
      (joined kind (F.lift start) (shift F.lines first) (shift F.lines further)) := by
  intro limits s t aligned
  cases further with
  | nil => exact .pure aligned (some first)
  | cons second further =>
    exact (branchFrom_follows kind reached (first :: second :: further) limits s t aligned).asSome

theorem Declines.bind {α β : Type} {p : Parse (Option α)} {f : Option α → Parse (Option β)}
    (h : Declines limits s p) (nothing : Declines limits s (f none)) :
    Declines limits s (p >>= f) := by
  refine Ensures.bind h ?_
  rintro _ _ ⟨rfl, rfl⟩
  exact nothing

theorem concatenation_nothing (h : Declines limits s (item inner)) :
    Declines limits s (concatenation inner) := by
  rw [Declines, concatenation, ensures_bind, ensures_cursor]
  exact h.bind ⟨rfl, rfl⟩

theorem alternation_nothing (h : Declines limits s (item inner)) :
    Declines limits s (alternation inner) := by
  rw [Declines, alternation, ensures_bind, ensures_cursor]
  exact (concatenation_nothing h).bind ⟨rfl, rfl⟩

theorem item_idle : Idle F (item inner) := fun _ _ _ seam =>
  Declines.idleAt seam (item_nothing_atEnd seam.atEnd) (item_nothing_atRule seam.rule)

theorem concatenation_idle : Idle F (concatenation inner) := fun _ _ _ seam =>
  Declines.idleAt seam (concatenation_nothing (item_nothing_atEnd seam.atEnd))
    (concatenation_nothing (item_nothing_atRule seam.rule))

theorem alternation_idle : Idle F (alternation inner) := fun _ _ _ seam =>
  Declines.idleAt seam (alternation_nothing (item_nothing_atEnd seam.atEnd))
    (alternation_nothing (item_nothing_atRule seam.rule))

/-! ### Every round of a repetition reads something -/

theorem identifier_consumes : Consumes identifier := by
  intro limits s
  rw [identifier, ensures_bind, ensures_cursor]
  split
  · next start =>
    obtain ⟨c, next, start⟩ := (Option.any_eq_true _ _).1 start
    obtain ⟨rest, hrest⟩ := List.head?_eq_some_iff.1 next
    have run : (s.cursor.run isWordChar).length = (rest.takeWhile isWordChar).length + 1 := by
      rw [Cursor.run, hrest, List.takeWhile_cons_of_pos (isWordChar_of_isIdentStart start),
        List.length_cons]
    rw [run]
    exact (takeLeaf_advances .identifier _).consumes (left_of_peek next)
  · exact fun h => by cases h

theorem string_consumes : Consumes string := by
  intro limits s
  rw [string, ensures_bind, ensures_cursor]
  split
  · next quote =>
    have literal (n : Nat) (closed : Bool) : Ensures limits s
        (do
          move (·.advanceBy (n + 1))
          if !closed then
            report .stringUnterminated (← spanFrom s.cursor)
          return some (← textNodeFrom .string s.cursor []))
        fun _ t => s.cursor.advance.Reaches t.cursor := by
      rw [ensures_bind, ensures_move]
      cases closed with
      | false => exact (Cursor.reaches_advanceBy n _).trans (report_moves _ _ limits _)
      | true => exact Cursor.reaches_advanceBy n _
    refine (literal _ _).mono ?_
    exact fun _ _ reaches _ => Cursor.length_lt_of_advance_reaches (left_of_peek quote) reaches
  · exact fun h => by cases h

theorem charClass_advances : Advances charClass :=
  advances_of_moves (fun _ => .refl _) fun _ =>
    nextClassItem_reads.many.moves.bind fun _ _ _ => .refl _

theorem atom_consumes : Consumes atom := by
  intro limits s
  rw [atom, ensures_bind, ensures_peek]
  cases next : s.cursor.peek with
  | none => exact fun h => by cases h
  | some c =>
    have left := left_of_peek next
    dsimp only
    split
    · exact escape_advances.consumes left
    · split
      · exact (takeLeaf_advances .anchor 0).consumes left
      · split
        · exact (takeLeaf_advances .dot 0).consumes left
        · split
          · exact charClass_advances.consumes left
          · split
            · exact string_consumes limits s
            · exact identifier_consumes limits s

theorem skipInlineBlank_moves : Moves skipInlineBlank := fun _ _ => Cursor.reaches_skipInlineBlank _

theorem listMatch_advances : Advances listMatch := by
  have node (kind : Kind) (start : Cursor) (ns : List Node) : Moves (branchFrom kind start ns) :=
    fun _ _ => .refl _
  refine advances_of_moves (fun _ => Cursor.reaches_advanceBy 1 _) fun start => ?_
  refine skipInlineBlank_moves.bind fun _ => (identifier_reads.orReport _).moves.bind ?_
  rintro (_ | name)
  · exact skipListMatch_moves.bind fun _ => node _ _ _
  · refine skipInlineBlank_moves.bind fun _ => listFilter_reads.moves.bind fun filter => ?_
    refine (eatLiteral_moves "]]").bind ?_
    rintro (_ | _)
    · exact (reportHere_moves _).bind fun _ => skipListMatch_moves.bind fun _ => node _ _ _
    · exact node _ _ _

theorem group_advances (h : Reads (Each Kind.isExpression) inner) : Advances (group inner) := by
  refine advances_of_moves (fun c => .refl _) fun start => ?_
  exact (enclosed_reads _ h).moves.bind fun body _ _ => .refl _

theorem namedCapture_advances (h : Reads (Each Kind.isExpression) inner) :
    Advances (namedCapture inner) := by
  refine advances_of_moves (fun c => Cursor.reaches_advanceBy 3 _) fun start => ?_
  exact (captureParts_reads h).moves.bind fun body _ _ => .refl _

theorem left_of_checkLiteral {c : Cursor} {literal : String} (h : c.checkLiteral literal = true)
    (ne : 0 < literal.length) : c.rest ≠ [] := by
  have := length_le_of_checkLiteral h
  exact List.length_pos_iff.1 (by omega)

theorem primary_consumes (h : Reads (Each Kind.isExpression) inner) : Consumes (primary inner) := by
  intro limits s
  rw [primary, ensures_bind, ensures_cursor]
  split
  · next opened => exact (namedCapture_advances h).consumes (left_of_checkLiteral opened (by decide))
  · split
    · next opened => exact (group_advances h).consumes (left_of_peek opened)
    · split
      · next opened => exact listMatch_advances.consumes (left_of_checkLiteral opened (by decide))
      · exact atom_consumes limits s

theorem quantified_consumes (h : Reads (Each Kind.isExpression) inner) : Consumes (quantified inner) := by
  intro limits s
  rw [quantified, ensures_bind, ensures_cursor]
  refine Consumes.bind (primary_consumes h) ?_ ?_ limits s
  · rintro (_ | subject)
    · exact fun _ _ => .refl _
    · refine quantifier_reads.moves.bind ?_
      rintro (_ | quantifier)
      · exact fun _ _ => .refl _
      · exact fun _ _ => .refl _
  · exact fun _ _ => rfl

theorem item_consumes (h : Reads (Each Kind.isExpression) inner) : Consumes (item inner) := by
  intro limits s
  simp only [item, atBoundary, ensures_bind, ensures_cursor, ensures_pure]
  split
  · exact fun h => by cases h
  · exact quantified_consumes h limits s

theorem nextBranch_consumes (h : Reads (Each Kind.isExpression) inner) :
    Consumes (nextBranch inner) := by
  intro limits s
  rw [nextBranch, ensures_bind]
  refine (eatCharAfterBlank_consumes '|' limits s).mono ?_
  rintro (_ | _) t shorter
  · exact fun h => by cases h
  · refine ((((concatenation_reads h).afterBlank rfl).orReport _).moves limits t).mono ?_
    intro r u reaches _
    have := Cursor.length_le_of_reaches reaches
    have := shorter rfl
    omega

theorem concatenation_follows (h : InStep F inner) :
    Follows F never (concatenation inner) (concatenation inner) := by
  intro limits s t aligned
  rw [concatenation, followsAt_cursor, aligned.cursor]
  refine (item_follows h limits s t aligned).then ?_
  rintro (_ | first) s₁ t₁ aligned₁
  · exact .pure aligned₁ none
  · have items := ((item_follows h).afterBlank item_idle).many (item_consumes h.reads).afterBlank
      (item_tries h.tries).afterBlank.grows
    refine (items limits s₁ t₁ aligned₁).then ?_
    intro further s₂ t₂ aligned₂
    exact joined_follows .concatenation aligned.reached first further limits s₂ t₂ aligned₂

theorem nextBranch_follows (h : InStep F inner) :
    Follows F never (nextBranch inner) (nextBranch inner) := by
  intro limits s t aligned
  refine (eatCharAfterBlank_follows (by decide) rfl limits s t aligned).then ?_
  rintro (_ | _) s₁ t₁ aligned₁
  · exact .pure aligned₁ none
  · exact ((concatenation_follows h).afterBlank concatenation_idle).orReport _ limits s₁ t₁ aligned₁

theorem alternation_follows (h : InStep F inner) :
    Follows F never (alternation inner) (alternation inner) := by
  intro limits s t aligned
  rw [alternation, followsAt_cursor, aligned.cursor]
  refine (concatenation_follows h limits s t aligned).then ?_
  rintro (_ | first) s₁ t₁ aligned₁
  · exact .pure aligned₁ none
  · have branches := (nextBranch_follows h).many (nextBranch_consumes h.reads)
      (nextBranch_carries h.tries).grows
    refine (branches limits s₁ t₁ aligned₁).then ?_
    intro further s₂ t₂ aligned₂
    exact joined_follows .alternation aligned.reached first further limits s₂ t₂ aligned₂

end Nested

theorem reportNesting_follows : Follows F never reportNesting reportNesting := by
  intro limits s t aligned
  rw [reportNesting, followsAt_get, aligned.nesting]
  split
  · rw [followsAt_modify, followsAt_read]
    exact reportHere_follows _ limits _ _
      ⟨aligned.reached, aligned.cursor, aligned.count, aligned.errors, rfl⟩
  · exact .pure aligned ()

/-- Too deep a nesting is complained about at the seam as it is elsewhere. -/
theorem reportNesting_both (count : t.errors.length = s.errors.length)
    (nesting : t.nestingReported = s.nestingReported) :
    Both limits s t reportNesting reportNesting fun _ s' _ t' =>
      t'.errors.length = s'.errors.length ∧ t'.nestingReported = s'.nestingReported := by
  simp only [Both, reportNesting, reportHere, ensures_bind, ensures_get, nesting]
  split
  · simp only [ensures_bind, ensures_modify, ensures_read, ensures_cursor, ensures_report,
      ParseState.nestingReported_recording, and_true]
    simp only [ParseState.recording, count]
    split
    · exact count
    · simp [count]
  · exact ⟨count, nesting⟩

/-- **Expressions are read in step at every level of nesting.** The induction is on the levels that are
left. At the last one both readings complain, also at the seam. -/
theorem expressionWithin_inStep (levels : Nat) : InStep F (expressionWithin levels) := by
  induction levels with
  | zero =>
    refine ⟨?_, ?_, expressionWithin_reads 0, expressionWithin_tries 0⟩
    · intro limits s t aligned
      refine (reportNesting_follows limits s t aligned).then ?_
      exact fun _ _ _ aligned' => .pure aligned' none
    · intro limits s t seam
      refine Both.bind (reportNesting_both seam.count seam.nesting) ?_
      exact fun _ _ _ _ same => ⟨rfl, rfl, same⟩
  | succ levels ih =>
    exact ⟨alternation_follows ih, alternation_idle, expressionWithin_reads _, expressionWithin_tries _⟩

theorem expression_follows : Follows F never expression expression :=
  fun limits s t aligned => (expressionWithin_inStep limits.depth).follows limits s t aligned

theorem expression_idle : Idle F expression :=
  fun limits s t seam => (expressionWithin_inStep limits.depth).idle limits s t seam

end Parse

end PatternRules

import PatternRules.Proofs.Twin.Expression

/-!
Resolver clauses are read in step until the seam. There the readings may part: the next argument of a
method, its value and the next file name are sought across lines, and so are the words of a clause, without
a look at whether a rule starts. Where that happens the reading of the text by itself complains about what
it misses at its end (`SyntaxError.LeavesOpen`), and the readings have parted in a known way (`leftOpen`).

Options are sought in the same way, but they need not be there: a rule called `with` is taken for them
without any complaint about the text (`FollowsOrTakes`).
-/

namespace PatternRules

/-! ## Complaints that leave a statement open -/

/-- Complaints about something missing for which the rule on the next line is searched, its name being
`word`. -/
def Complaint.leavesOpen (word : List Char) : Complaint → Bool
  | .argumentMissing => true
  | .argumentValueMissing => true
  | .tokensFileMissing => true
  | .methodMissing => String.ofList word ∈ resolverScopes
  | .asMissing => word == "as".toList
  | .usesMissing => word == "uses".toList
  | .equalsMissing name => name == "resolver" && word == "default".toList
  | _ => false

/-- The error is such a complaint at the end of the text, where only blanks follow. -/
def SyntaxError.LeavesOpen (word text : List Char) (e : SyntaxError) : Prop :=
  ∃ complaint : Complaint, ∃ c : Cursor, complaint.leavesOpen word = true ∧
    (Cursor.ofChars text).Reaches c ∧ c.skipBlank.rest = [] ∧ e = ⟨complaint.message, c.nextSpan⟩

/-- There is a rule behind the text, and the readings have parted where a statement was left open, or when
no more errors are recorded. -/
def leftOpen (F : Frame) : Parting := fun limits s t =>
  F.behind ≠ [] ∧ ((∃ e ∈ s.errors, e.LeavesOpen F.word F.text) ∨
    limits.errors ≤ s.errors.length ∧ limits.errors ≤ t.errors.length)

theorem Frame.behind_of_word {F : Frame} {word : List Char} (h : F.word = word) (ne : word ≠ []) :
    F.behind ≠ [] := by
  intro none
  rw [← h, Frame.word, none] at ne
  exact ne rfl

instance (F : Frame) : Lasting (leftOpen F) where
  keeps := by
    rintro limits s t s' t' ⟨more, ⟨e, he, opens⟩ | ⟨full, full'⟩⟩ grows grows'
    · exact ⟨more, .inl ⟨e, grows.front.subset he, opens⟩⟩
    · refine ⟨more, .inr ⟨?_, ?_⟩⟩
      · rw [grows.full full]
        exact full
      · rw [grows'.full full']
        exact full'

namespace Parse

variable {F : Frame} {E : Parting} {limits : Limits} {s t : ParseState}

/-- From `s`, `p` records the error `e`, if it records any. -/
def Complains {α : Type} (limits : Limits) (s : ParseState) (p : Parse α) (e : SyntaxError) : Prop :=
  Ensures limits s p fun _ s' => Extends limits (s.recording limits e).errors s'.errors

/-- **A statement that is left open**: the first reading complains at the end of the text, and whatever
the second one does, it adds errors at most. -/
theorem Complains.parted {α β : Type} {p : Parse α} {q : Parse β} {e : SyntaxError}
    (h : Complains limits s p e) (more : F.behind ≠ []) (opens : e.LeavesOpen F.word F.text)
    (count : t.errors.length = s.errors.length) (grows : Grows q) :
    Both limits s t p q fun _ s' _ t' => leftOpen F limits s' t' := by
  have grows' := grows limits t
  by_cases full : limits.errors ≤ s.errors.length
  · have h : Extends limits _ _ := h
    rw [ParseState.recording, if_pos full] at h
    have both : PatternRules.leftOpen F limits s t := ⟨more, .inr ⟨full, by rw [count]; exact full⟩⟩
    exact Lasting.keeps both h grows'
  · refine ⟨more, .inl ⟨e, h.front.subset ?_, opens⟩⟩
    rw [ParseState.recording, if_neg full]
    exact List.mem_append_right _ List.mem_cons_self

theorem Complains.bind {α β : Type} {p : Parse α} {f : α → Parse β} {e : SyntaxError}
    (h : Complains limits s p e) (grows : ∀ a, Grows (f a)) : Complains limits s (p >>= f) e :=
  Ensures.bind h fun a t complained =>
    (grows a limits t).mono fun _ _ further => Extends.trans complained further

theorem Complains.leftOpen {α : Type} [Shifts α] {p q : Parse α} {complaint : Complaint}
    (h : Complains limits s p ⟨complaint.message, s.cursor.nextSpan⟩) (more : F.behind ≠ [])
    (opens : complaint.leavesOpen F.word = true)
    (reached : (Cursor.ofChars F.text).Reaches s.cursor) (atEnd : s.cursor.skipBlank.rest = [])
    (count : t.errors.length = s.errors.length) (grows : Grows q) :
    FollowsAt F (leftOpen F) limits s t p q :=
  .inr (h.parted more ⟨complaint, s.cursor, opens, reached, atEnd, rfl⟩ count grows)

theorem Declines.complains {α : Type} {p : Parse (Option α)} (h : Declines limits s p)
    (complaint : Complaint) :
    Complains limits s (orReport complaint p) ⟨complaint.message, s.cursor.nextSpan⟩ := by
  refine Ensures.bind h ?_
  rintro _ _ ⟨rfl, rfl⟩
  simp only [Option.isNone_none, if_true, reportHere, ensures_bind, ensures_cursor, ensures_report]
  exact .refl

theorem Grows.bind {α β : Type} {p : Parse α} {f : α → Parse β} (h : Grows p)
    (next : ∀ a, Grows (f a)) : Grows (p >>= f) :=
  fun limits s => (h limits s).bind fun a t grows =>
    (next a limits t).mono fun _ _ grows' => grows.trans grows'

theorem orReport_grows {α : Type} {p : Parse (Option α)} (h : Grows p) (complaint : Complaint) :
    Grows (orReport complaint p) :=
  h.bind (missing_grows complaint)

/-! ## Lists -/

theorem eatCharAfterBlank_grows (c : Char) : Grows (eatCharAfterBlank c) :=
  (eatCharAfterBlank_tries c).orderly.matches.grows

section Lists

variable {α : Type} {item : Parse (Option α)}

/-- The next item of a list, behind a comma. -/
def nextInList (item : Parse (Option α)) : Parse (Option α) := do
  if ← eatCharAfterBlank ',' then item else return none

theorem nextInList_follows [Shifts α] (h : Follows F E item item) :
    Follows F E (nextInList item) (nextInList item) := by
  intro limits s t aligned
  refine (eatCharAfterBlank_follows (by decide) rfl limits s t aligned).then ?_
  rintro (_ | _) s₁ t₁ aligned₁
  · exact .pure aligned₁ none
  · exact h limits s₁ t₁ aligned₁

theorem nextInList_consumes (moves : Moves item) : Consumes (nextInList item) := by
  intro limits s
  rw [nextInList, ensures_bind]
  refine (eatCharAfterBlank_consumes ',' limits s).mono ?_
  rintro (_ | _) t shorter
  · exact fun h => by cases h
  · refine (moves limits t).mono ?_
    intro r u reaches _
    exact Nat.lt_of_le_of_lt (Cursor.length_le_of_reaches reaches) (shorter rfl)

theorem nextInList_grows (grows : Grows item) : Grows (nextInList item) := by
  refine (eatCharAfterBlank_grows ',').bind ?_
  rintro (_ | _)
  · exact fun _ _ => .refl
  · exact grows

theorem furtherItems_grows (grows : Grows item) (r : Option α) : Grows
    (match r with
    | none => return []
    | some first => return first :: (← Parse.many (nextInList item))) := by
  cases r with
  | none => exact fun _ _ => .refl
  | some first => exact (nextInList_grows grows).many.bind fun _ _ _ => .refl

/-- A list stays in step if its items do. -/
theorem Follows.commaList [Shifts α] [Lasting E] (h : Follows F E item item) (moves : Moves item)
    (grows : Grows item) : Follows F E (commaList item) (commaList item) := by
  have rest := furtherItems_grows grows
  intro limits s t aligned
  refine (h limits s t aligned).bind ?_ rest rest
  rintro (_ | first) s₁ t₁ aligned₁
  · exact .pure aligned₁ []
  · have further := (nextInList_follows h).many (nextInList_consumes moves) (nextInList_grows grows)
    refine (further limits s₁ t₁ aligned₁).bind ?_ ?_ ?_
    · intro further s₂ t₂ aligned₂
      exact .pure aligned₂ (first :: further)
    · exact fun _ _ _ => .refl
    · exact fun _ _ _ => .refl

end Lists

/-- A parenthesis that may be missing ends a list. -/
theorem closing_follows {complaint : Complaint} {kind : Kind} {start : Cursor}
    (reached : (Cursor.ofChars F.text).Reaches start) (ns : List Node) :
    Follows F never
      (do
        if !(← eatCharAfterBlank ')') then
          reportHere complaint
        branchFrom kind start ns)
      (do
        if !(← eatCharAfterBlank ')') then
          reportHere complaint
        branchFrom kind (F.lift start) (shift F.lines ns)) := by
  intro limits s t aligned
  refine (eatCharAfterBlank_follows (by decide) rfl limits s t aligned).then ?_
  intro closed s₁ t₁ aligned₁
  refine .complaining aligned₁ (reportHere_follows _) fun s₂ t₂ aligned₂ => ?_
  exact branchFrom_follows kind reached ns limits s₂ t₂ aligned₂

theorem closing_grows (complaint : Complaint) (kind : Kind) (start : Cursor) (ns : List Node) :
    Grows (do
      if !(← eatCharAfterBlank ')') then
        reportHere complaint
      branchFrom kind start ns) := by
  refine (eatCharAfterBlank_grows ')').bind ?_
  rintro (_ | _)
  · exact (reportHere_grows complaint).bind fun _ _ _ => .refl
  · exact fun _ _ => .refl

/-! ## Options -/

/-- The next item of a list is sought up to the next rule. -/
theorem seekListItem_follows (missing : Complaint) :
    Follows F never (seekListItem missing) (seekListItem missing) := by
  have nothing (limits : Limits) (s : ParseState) (h : (s.cursor.atEnd || s.cursor.atRuleStart) = true) :
      Declines limits s (do
        let c ← cursor
        return if c.atEnd || c.atRuleStart then none else some ()) := by
    simp only [Declines, ensures_bind, ensures_cursor, h, if_true]
    exact ⟨rfl, rfl⟩
  refine Follows.orReport ?_ missing
  intro limits s t aligned
  rcases aligned.skipBlank with ⟨inStep, inside⟩ | seam
  · refine .afterBlankInStep aligned ?_
    rw [followsAt_cursor, inStep.atEnd inside, inStep.cursor, Frame.atRuleStart_lift]
    split
    · exact .pure inStep none
    · exact .pure inStep (some ())
  · refine .afterBlankAtSeam aligned seam
      (Declines.idleAt seam (nothing limits _ ?_) (nothing limits _ ?_))
    · rw [Cursor.atEnd, seam.atEnd]
      rfl
    · rw [Cursor.atRuleStart, seam.rule, Bool.or_true]

theorem length_le_of_peekWord? {c : Cursor} {word : String} (h : c.peekWord? = some word) :
    word.length ≤ c.rest.length := by
  have run : (c.run isWordChar).length ≤ c.rest.length := (List.takeWhile_prefix _).length_le
  unfold Cursor.peekWord? at h
  split at h
  · cases h
  · rw [← Option.some.inj h, String.length_ofList]
    exact run

theorem unknownWord_follows (complaint : String → Complaint) (word : String) :
    Follows F never (unknownWord complaint word) (unknownWord complaint word) := by
  intro limits s t aligned
  rw [unknownWord, followsAt_cursor, followsAt_move]
  have complained := reportFrom_follows (complaint word) aligned.reached limits _ _
    (aligned.skipWhile (p := isWordChar) rfl)
  rwa [← aligned.cursor] at complained

theorem string_nothing (h : s.cursor.peek ≠ some '"') : Declines limits s string := by
  simp only [Declines, string, ensures_bind, ensures_cursor, if_neg h]
  exact ⟨rfl, rfl⟩

/-- What is sought behind blanks, and missed at the end of the text. -/
theorem sought_follows {α : Type} [Shifts α] {p : Parse (Option α)} {complaint : Complaint}
    (h : Follows F (leftOpen F) p p) (opens : complaint.leavesOpen F.word = true)
    (nothing : ∀ limits s, s.cursor.rest = [] → Declines limits s p) (grows : Grows p)
    (aligned : Aligned F s t) :
    FollowsAt F (leftOpen F) limits { s with cursor := s.cursor.skipBlank }
      { t with cursor := t.cursor.skipBlank } (orReport complaint p) (orReport complaint p) := by
  rcases aligned.skipBlank with ⟨inStep, -⟩ | seam
  · exact h.orReport complaint limits _ _ inStep
  · exact ((nothing limits _ seam.atEnd).complains complaint).leftOpen seam.more opens seam.reached
      seam.blank_left seam.count (orReport_grows grows complaint)

theorem string_nothing_atEnd (limits : Limits) (s : ParseState) (h : s.cursor.rest = []) :
    Declines limits s string := by
  refine string_nothing ?_
  rw [Cursor.peek, h]
  exact fun h => by cases h

theorem identifier_nothing_atEnd (limits : Limits) (s : ParseState) (h : s.cursor.rest = []) :
    Declines limits s identifier := by
  refine identifier_nothing ?_
  rw [Cursor.peek, h]
  rfl

theorem tokensFile_follows : Follows F (leftOpen F) tokensFile tokensFile := by
  intro limits s t aligned
  rw [tokensFile, followsAt_skipBlank]
  exact sought_follows string_follows.mayPart rfl string_nothing_atEnd string_tries.grows aligned

theorem optionalTokens_follows : Follows F (leftOpen F) optionalTokens optionalTokens := by
  intro limits s t aligned
  rw [optionalTokens, followsAt_cursor, aligned.cursor]
  refine (eatCharAfterBlank_follows (by decide) rfl limits s t aligned).then ?_
  rintro (_ | _) s₁ t₁ aligned₁
  · refine (reportHere_follows _ limits s₁ t₁ aligned₁).then ?_
    intro _ s₂ t₂ aligned₂
    exact branchFrom_follows .optionalTokens aligned.reached [] limits s₂ t₂ aligned₂
  · have files := tokensFile_follows (F := F).commaList tokensFile_reads.moves tokensFile_carries.grows
    refine (files limits s₁ t₁ aligned₁).bind ?_ (closing_grows _ _ _) (closing_grows _ _ _)
    intro files s₂ t₂ aligned₂
    exact (closing_follows aligned.reached files limits s₂ t₂ aligned₂).mayPart

theorem resolverFlag_follows : Follows F (leftOpen F) resolverFlag resolverFlag := by
  intro limits s t aligned
  rw [resolverFlag, followsAt_cursor, aligned.cursor, Frame.peekWord?_lift]
  cases hword : s.cursor.peekWord? with
  | none =>
    refine (reportHere_follows _ limits s t aligned).then ?_
    exact fun _ _ _ aligned₁ => .pure aligned₁ []
  | some word =>
    have fits := length_le_of_peekWord? hword
    dsimp only
    split
    · refine (takeLeaf_follows .resolverFlag fits aligned).then ?_
      exact fun flag _ _ aligned₁ => .pure aligned₁ [flag]
    · split
      · rw [followsAt_move]
        refine (optionalTokens_follows limits _ _ (aligned.advanceBy fits)).bind ?_ ?_ ?_
        · intro files s₁ t₁ aligned₁
          refine (textNodeFrom_follows .resolverFlag aligned.reached [files] limits s₁ t₁ aligned₁).then ?_
          exact fun flag _ _ aligned₂ => .pure aligned₂ [flag]
        · exact fun _ _ _ => .refl
        · exact fun _ _ _ => .refl
      · refine (unknownWord_follows _ word limits s t aligned).then ?_
        exact fun _ _ _ aligned₁ => .pure aligned₁ []

theorem nextResolverFlag_follows : Follows F (leftOpen F) nextResolverFlag nextResolverFlag := by
  intro limits s t aligned
  refine (seekListItem_follows _ limits s t aligned).then ?_
  rintro (_ | _) s₁ t₁ aligned₁
  · exact .pure aligned₁ none
  · refine (resolverFlag_follows limits s₁ t₁ aligned₁).bind ?_ ?_ ?_
    · exact fun flags _ _ aligned₂ => .pure aligned₂ (some flags)
    · exact fun _ _ _ => .refl
    · exact fun _ _ _ => .refl

/-- Options with commas between them, as one node. -/
theorem optionList_follows [Lasting E] {kind : Kind} {item : Parse (Option (List Node))}
    (h : Follows F E item item) (moves : Moves item) (grows : Grows item) :
    Follows F E
      (do
        skipInlineBlank
        let start ← cursor
        let flags ← commaList item
        branchFrom kind start flags.flatten)
      (do
        skipInlineBlank
        let start ← cursor
        let flags ← commaList item
        branchFrom kind start flags.flatten) := by
  intro limits s t aligned
  refine .overInlineBlank aligned fun s₁ t₁ aligned₁ => ?_
  rw [followsAt_cursor, aligned₁.cursor]
  refine (h.commaList moves grows limits s₁ t₁ aligned₁).bind ?_ ?_ ?_
  · intro flags s₂ t₂ aligned₂
    have node := branchFrom_follows (E := E) kind aligned₁.reached flags.flatten limits s₂ t₂ aligned₂
    have moved : shift F.lines flags.flatten = (shift F.lines flags).flatten := List.map_flatten
    rw [moved] at node
    exact node
  · exact fun _ _ _ => .refl
  · exact fun _ _ _ => .refl

theorem resolverOptions_follows : Follows F (leftOpen F) resolverOptions resolverOptions :=
  optionList_follows nextResolverFlag_follows nextResolverFlag_reads.moves nextResolverFlag_carries.grows

/-! ## Methods -/

theorem argumentValue_grows (start : Cursor) (name : Node) (r : Option Node) : Grows
    (match r with
    | none => return none
    | some value => return some (← branchFrom .resolverArgument start [name, value])) := by
  cases r with
  | none => exact fun _ _ => .refl
  | some value => exact fun _ _ => .refl

theorem resolverArgument_follows : Follows F (leftOpen F) resolverArgument resolverArgument := by
  intro limits s t aligned
  have node := branchFrom_follows (F := F) (E := never) .resolverArgument aligned.reached
  rw [resolverArgument, followsAt_cursor, aligned.cursor]
  refine (identifier_follows limits s t aligned).then ?_
  rintro (_ | name) s₁ t₁ aligned₁
  · refine (string_follows limits s₁ t₁ aligned₁).then ?_
    rintro (_ | value) s₂ t₂ aligned₂
    · exact .pure aligned₂ none
    · exact (node [value] limits s₂ t₂ aligned₂).asSome.mayPart
  · refine (eatCharAfterBlank_follows (by decide) rfl limits s₁ t₁ aligned₁).then ?_
    rintro (_ | _) s₂ t₂ aligned₂
    · refine (reportHere_follows _ limits s₂ t₂ aligned₂).then ?_
      intro _ s₃ t₃ aligned₃
      exact (node [name] limits s₃ t₃ aligned₃).asSome.mayPart
    · simp only [Shifts.shift_bool, if_true]
      rw [followsAt_skipBlank]
      refine (sought_follows string_follows.mayPart rfl string_nothing_atEnd string_tries.grows
        aligned₂).bind ?_ (argumentValue_grows _ _) (argumentValue_grows _ _)
      rintro (_ | value) s₃ t₃ aligned₃
      · exact .pure aligned₃ none
      · exact (node [name, value] limits s₃ t₃ aligned₃).asSome.mayPart

theorem resolverArgument_nothing_atEnd (limits : Limits) (s : ParseState) (h : s.cursor.rest = []) :
    Declines limits s resolverArgument := by
  rw [Declines, resolverArgument, ensures_bind, ensures_cursor]
  refine (identifier_nothing_atEnd limits s h).bind ?_
  exact (string_nothing_atEnd limits s h).bind ⟨rfl, rfl⟩

theorem nextArgument_follows : Follows F (leftOpen F) nextArgument nextArgument := by
  intro limits s t aligned
  rw [nextArgument, followsAt_skipBlank]
  exact sought_follows resolverArgument_follows rfl resolverArgument_nothing_atEnd
    resolverArgument_carries.grows aligned

theorem resolverArguments_follows (aligned : Aligned F s t) (left : s.cursor.rest ≠ []) :
    FollowsAt F (leftOpen F) limits s t resolverArguments resolverArguments := by
  rw [resolverArguments, followsAt_cursor, followsAt_move]
  have arguments := nextArgument_follows (F := F).commaList nextArgument_reads.moves
    nextArgument_carries.grows
  refine (arguments limits _ _ (aligned.advance left)).bind ?_ (closing_grows _ _ _) (closing_grows _ _ _)
  intro arguments s₁ t₁ aligned₁
  rw [aligned.cursor]
  exact (closing_follows aligned.reached arguments limits s₁ t₁ aligned₁).mayPart

theorem resolverMethod_follows : Follows F (leftOpen F) resolverMethod resolverMethod := by
  intro limits s t aligned
  have node := branchFrom_follows (F := F) (E := never) .resolverMethod aligned.reached
  rw [resolverMethod, followsAt_cursor, aligned.cursor]
  refine (identifier_follows limits s t aligned).then ?_
  rintro (_ | name) s₁ t₁ aligned₁
  · exact .pure aligned₁ none
  · have parenthesis : t₁.cursor.peek = some '(' ↔ s₁.cursor.peek = some '(' := by
      rw [aligned₁.cursor, Frame.peek_lift (by decide)]
    simp only [Shifts.shift_some]
    rw [followsAt_peek]
    simp only [parenthesis]
    split
    · next opened =>
      refine (resolverArguments_follows aligned₁ (left_of_peek opened)).bind ?_ ?_ ?_
      · intro arguments s₂ t₂ aligned₂
        exact (node [name, arguments] limits s₂ t₂ aligned₂).asSome.mayPart
      · exact fun _ _ _ => .refl
      · exact fun _ _ _ => .refl
    · exact (node [name] limits s₁ t₁ aligned₁).asSome.mayPart

theorem resolverMethod_nothing_atEnd (limits : Limits) (s : ParseState) (h : s.cursor.rest = []) :
    Declines limits s resolverMethod := by
  rw [Declines, resolverMethod, ensures_bind, ensures_cursor]
  exact (identifier_nothing_atEnd limits s h).bind ⟨rfl, rfl⟩

/-! ## A rule taken for options -/

/-- Only blanks follow in the text, and the rule behind it is called `with`. -/
structure BeforeWith (F : Frame) (s : ParseState) : Prop where
  word : F.word = "with".toList
  atEnd : s.cursor.skipBlank.rest = []

/-- From `s` and `t`, `q` does in the frame what `p` does on the text, unless they part, or the second
reading takes the rule for options behind a result that satisfies `awaits`. -/
def FollowsOrTakes {α : Type} [Shifts α] (F : Frame) (limits : Limits) (s t : ParseState)
    (awaits : α → Bool) (p q : Parse α) : Prop :=
  Both limits s t p q fun a s' b t' => Matched (Aligned F) F.lines a s' b t' ∨
    leftOpen F limits s' t' ∨ awaits a = true ∧ BeforeWith F s'

section Taken

variable {α β : Type} [Shifts α] [Shifts β] {awaits : α → Bool} {awaits' : β → Bool}

theorem FollowsAt.orTakes {p q : Parse α} (h : FollowsAt F (leftOpen F) limits s t p q) :
    FollowsOrTakes F limits s t awaits p q :=
  Both.mono h fun _ _ _ _ either => either.imp_right .inl

theorem FollowsOrTakes.taken {p q : Parse α}
    (h : Ensures limits s p fun a s' => awaits a = true ∧ BeforeWith F s') :
    FollowsOrTakes F limits s t awaits p q :=
  .inr (.inr h)

theorem FollowsAt.thenOrTakes {p q : Parse α} {f g : α → Parse β}
    (h : FollowsAt F never limits s t p q)
    (next : ∀ a s' t', Aligned F s' t' →
      FollowsOrTakes F limits s' t' awaits' (f a) (g (shift F.lines a))) :
    FollowsOrTakes F limits s t awaits' (p >>= f) (q >>= g) := by
  refine Both.bind h.matched ?_
  rintro a s' _ t' ⟨rfl, aligned⟩
  exact next a s' t' aligned

/-- Two readings in a row, where the rule may be taken for options by the second one. -/
theorem FollowsAt.bindOrTakes {p q : Parse α} {f g : α → Parse β} {found : α → Prop}
    (h : FollowsAt F (leftOpen F) limits s t p q) (given : Ensures limits s p fun a _ => found a)
    (next : ∀ a s' t', found a → Aligned F s' t' →
      FollowsOrTakes F limits s' t' awaits' (f a) (g (shift F.lines a)))
    (grows : ∀ a, Grows (f a)) (grows' : ∀ b, Grows (g b)) :
    FollowsOrTakes F limits s t awaits' (p >>= f) (q >>= g) := by
  have both : Both limits s t p q fun a s' b t' =>
      (Matched (Aligned F) F.lines a s' b t' ∨ leftOpen F limits s' t') ∧ found a := ⟨h, given⟩
  refine Both.bind both ?_
  rintro a s' b t' ⟨⟨rfl, aligned⟩ | parted, found⟩
  · exact next a s' t' found aligned
  · exact .inr (.inl (Lasting.keeps parted (grows a limits s') (grows' b limits t')))

/-- Two readings in a row, where the rule may be taken for options by the first one. -/
theorem FollowsOrTakes.bind {p q : Parse α} {f g : α → Parse β}
    (h : FollowsOrTakes F limits s t awaits p q)
    (next : ∀ a s' t', Aligned F s' t' →
      FollowsAt F (leftOpen F) limits s' t' (f a) (g (shift F.lines a)))
    (taken : ∀ a s', awaits a = true → BeforeWith F s' →
      Ensures limits s' (f a) fun b s'' => awaits' b = true ∧ BeforeWith F s'')
    (grows : ∀ a, Grows (f a)) (grows' : ∀ b, Grows (g b)) :
    FollowsOrTakes F limits s t awaits' (p >>= f) (q >>= g) := by
  refine Both.bind h ?_
  rintro a s' b t' (⟨rfl, aligned⟩ | parted | ⟨opens, before⟩)
  · exact (next a s' t' aligned).orTakes
  · exact .inr (.inl (Lasting.keeps parted (grows a limits s') (grows' b limits t')))
  · exact FollowsOrTakes.taken (taken a s' opens before)

theorem FollowsOrTakes.afterBlank {p q : Parse (Option α)} (aligned : Aligned F s t)
    (h : FollowsOrTakes F limits { s with cursor := s.cursor.skipBlank }
      { t with cursor := t.cursor.skipBlank } (Option.any awaits) p q) :
    FollowsOrTakes F limits s t (Option.any awaits) (afterBlank p) (afterBlank q) := by
  refine h.bind ?_ ?_ (foundOrBack_grows s.cursor) (foundOrBack_grows t.cursor)
  · rintro (_ | a) s' t' aligned'
    · exact .inl
        ⟨rfl, aligned.reached, aligned.cursor, aligned'.count, aligned'.errors, aligned'.nesting⟩
    · exact .pure aligned' (some a)
  · rintro (_ | a) s' opens before
    · cases opens
    · exact ⟨opens, before⟩

theorem FollowsOrTakes.orReport {p q : Parse (Option α)}
    (h : FollowsOrTakes F limits s t (Option.any awaits) p q) (complaint : Complaint) :
    FollowsOrTakes F limits s t (Option.any awaits) (orReport complaint p) (orReport complaint q) := by
  refine h.bind ?_ ?_ (missing_grows complaint) (missing_grows complaint)
  · rintro (_ | a) s' t' aligned'
    · exact .inl ⟨rfl, (reportHere_follows complaint limits s' t' aligned').matched.states⟩
    · exact .pure aligned' (some a)
  · rintro (_ | a) s' opens before
    · cases opens
    · exact ⟨opens, before⟩

end Taken

/-- A word is sought in step, unless the text has come to its end and the rule has the word as its name. -/
theorem eatWordAfterBlank_cases {word : String} (h : word.toList.all isWordChar = true)
    (ne : word.toList ≠ []) (aligned : Aligned F s t) :
    FollowsAt F never limits s t (eatWordAfterBlank word) (eatWordAfterBlank word) ∨
      F.word = word.toList ∧ s.cursor.skipBlank.rest = [] := by
  rcases aligned.skipBlank with ⟨inStep, -⟩ | seam
  · have found : FollowsAt F never limits _ _ (found (eatWord word)) (found (eatWord word)) :=
      (eatWord_follows h).found limits _ _ inStep
    exact .inl (FollowsAt.isSome (.afterBlankInStep aligned found))
  · by_cases same : F.word = word.toList
    · exact .inr ⟨same, seam.atEnd⟩
    · exact .inl (eatWordAfterBlank_follows h ne same limits s t aligned)

theorem Declines.afterBlank {α : Type} {p : Parse (Option α)}
    (h : Declines limits { s with cursor := s.cursor.skipBlank } p) :
    Declines limits s (afterBlank p) := by
  rw [Declines, Parse.afterBlank, ensures_bind, ensures_cursor, ensures_bind, ensures_skipBlank]
  refine Ensures.bind h ?_
  rintro _ _ ⟨rfl, rfl⟩
  exact ⟨rfl, rfl⟩

theorem eatWordAfterBlank_nothing {word : String} (hw : word.toList.all isWordChar = true)
    (ne : word.toList ≠ []) (atEnd : s.cursor.skipBlank.rest = []) :
    Ensures limits s (eatWordAfterBlank word) fun found s' => found = false ∧ s' = s := by
  have other : s.cursor.skipBlank.checkWord word = false := by
    rw [← Bool.not_eq_true, Cursor.checkWord_iff hw, atEnd]
    exact ne.symm
  have nothing : Declines limits s (afterBlank (found (eatWord word))) := (eatWord_nothing other).afterBlank
  refine Ensures.bind nothing ?_
  rintro _ _ ⟨rfl, rfl⟩
  exact ⟨rfl, rfl⟩

/-! ## The clause -/

theorem resolverScope_follows : Follows F never resolverScope resolverScope := by
  intro limits s t aligned
  rw [resolverScope, followsAt_cursor, aligned.cursor, Frame.peekWord?_lift]
  cases hword : s.cursor.peekWord? with
  | none => exact .pure aligned none
  | some word =>
    dsimp only
    split
    · exact (takeLeaf_follows .resolverScope (length_le_of_peekWord? hword) aligned).asSome
    · exact .pure aligned none

theorem resolverScope_nothing_atEnd (limits : Limits) (s : ParseState) (h : s.cursor.rest = []) :
    Declines limits s resolverScope := by
  have word : s.cursor.peekWord? = none := by
    rw [Cursor.peekWord?, Cursor.run, h]
    rfl
  simp only [Declines, resolverScope, ensures_bind, ensures_cursor, word, ensures_pure, and_self]

theorem resolverScope_idle (other : String.ofList F.word ∉ resolverScopes) :
    Idle F resolverScope := by
  intro limits s t seam
  refine Declines.idleAt seam (resolverScope_nothing_atEnd limits s seam.atEnd) ?_
  simp only [Declines, resolverScope, ensures_bind, ensures_cursor, Cursor.peekWord?, seam.run_right]
  cases hword : F.word with
  | nil => exact ⟨rfl, rfl⟩
  | cons c cs =>
    rw [hword] at other
    simp only [if_neg other, ensures_pure, and_self]

theorem methodBeforeOptions_follows : Follows F (leftOpen F) methodBeforeOptions methodBeforeOptions := by
  intro limits s t aligned
  rw [methodBeforeOptions, followsAt_cursor, aligned.cursor, Frame.checkWord_lift (by decide),
    Frame.atRuleStart_lift]
  split
  · exact .pure aligned none
  · exact resolverMethod_follows limits s t aligned

theorem methodBeforeOptions_nothing_atEnd (limits : Limits) (s : ParseState) (h : s.cursor.rest = []) :
    Declines limits s methodBeforeOptions := by
  have boundary : (s.cursor.checkWord "with" || s.cursor.atRuleStart) = false := by
    rw [Cursor.checkWord, Cursor.checkLiteral, Cursor.atRuleStart, h]
    rfl
  simp only [Declines, methodBeforeOptions, ensures_bind, ensures_cursor, boundary,
    Bool.false_eq_true, if_false]
  exact resolverMethod_nothing_atEnd limits s h

theorem methodBeforeOptions_idle : Idle F methodBeforeOptions := by
  intro limits s t seam
  refine Declines.idleAt seam (methodBeforeOptions_nothing_atEnd limits s seam.atEnd) ?_
  have boundary : (t.cursor.checkWord "with" || t.cursor.atRuleStart) = true := by
    rw [Cursor.atRuleStart, seam.rule, Bool.or_true]
  simp only [Declines, methodBeforeOptions, ensures_bind, ensures_cursor, boundary, if_true,
    ensures_pure, and_self]

theorem optionsBehindWith_orTakes (aligned : Aligned F s t) :
    FollowsOrTakes F limits s t List.isEmpty optionsBehindWith optionsBehindWith := by
  have cases := @eatWordAfterBlank_cases F limits s t "with" (by decide) (by decide) aligned
  rcases cases with announced | ⟨word, atEnd⟩
  · refine announced.thenOrTakes ?_
    rintro (_ | _) s₁ t₁ aligned₁
    · exact (FollowsAt.pure aligned₁ []).orTakes
    · refine FollowsAt.orTakes ((resolverOptions_follows limits s₁ t₁ aligned₁).bind ?_ ?_ ?_)
      · exact fun options _ _ aligned₂ => .pure aligned₂ [options]
      · exact fun _ _ _ => .refl
      · exact fun _ _ _ => .refl
  · refine .taken (Ensures.bind (eatWordAfterBlank_nothing (by decide) (by decide) atEnd) ?_)
    rintro _ _ ⟨rfl, rfl⟩
    exact ⟨rfl, word, atEnd⟩

/-- A clause without scope and method is complained about. -/
theorem usesClause_complains (start : Cursor) (atEnd : s.cursor.skipBlank.rest = []) :
    Complains limits s (usesClause start) ⟨Complaint.methodMissing.message, s.cursor.nextSpan⟩ := by
  have scope : Declines limits s (afterBlank resolverScope) :=
    (resolverScope_nothing_atEnd limits _ atEnd).afterBlank
  have method : Declines limits s (afterBlank methodBeforeOptions) :=
    (methodBeforeOptions_nothing_atEnd limits _ atEnd).afterBlank
  refine Ensures.bind scope ?_
  rintro _ _ ⟨rfl, rfl⟩
  refine Ensures.bind method ?_
  rintro _ _ ⟨rfl, rfl⟩
  simp only [Option.isNone_none, Bool.and_self, if_true, reportHere, ensures_bind, ensures_cursor,
    ensures_report, ensures_branchFrom]
  exact .refl

/-- What follows the scope and the method of a clause. -/
def behindMethod (start : Cursor) (scope method : Option Node) : Parse Node := do
  if scope.isNone && method.isNone then
    reportHere .methodMissing
    branchFrom .usesClause start []
  else
    let options ← optionsBehindWith
    branchFrom .usesClause start (scope.toList ++ method.toList ++ options)

/-- What follows the scope of a clause. -/
def behindScope (start : Cursor) (scope : Option Node) : Parse Node := do
  behindMethod start scope (← afterBlank methodBeforeOptions)

theorem usesClause_eq (start : Cursor) :
    usesClause start = afterBlank resolverScope >>= behindScope start := rfl

theorem behindMethod_grows (start : Cursor) (scope method : Option Node) :
    Grows (behindMethod start scope method) := by
  unfold behindMethod
  split
  · exact (reportHere_grows _).bind fun _ _ _ => .refl
  · exact optionsBehindWith_carries.grows.bind fun _ _ _ => .refl

theorem behindScope_grows (start : Cursor) (scope : Option Node) : Grows (behindScope start scope) :=
  methodBeforeOptions_tries.afterBlank.grows.bind (behindMethod_grows start scope)

/-- A scope or a method without options, behind which options may follow. -/
def clauseAwaits (n : Node) : Bool :=
  n.kind == .usesClause && !n.children.isEmpty && n.children.all (·.kind != .resolverOptions)

theorem behindMethod_orTakes {start : Cursor} (reached : (Cursor.ofChars F.text).Reaches start)
    {scope method : Option Node} (plain : ∀ n ∈ scope, n.kind = .resolverScope)
    (plain' : ∀ n ∈ method, n.kind = .resolverMethod) (aligned : Aligned F s t) :
    FollowsOrTakes F limits s t clauseAwaits (behindMethod start scope method)
      (behindMethod (F.lift start) (shift F.lines scope) (shift F.lines method)) := by
  -- Once there is a scope or a method, options may follow.
  have behind (parts : List Node) (some : parts ≠ [])
      (plain : ∀ n ∈ parts, n.kind = .resolverScope ∨ n.kind = .resolverMethod) :
      FollowsOrTakes F limits s t clauseAwaits
      (do
        let options ← optionsBehindWith
        branchFrom .usesClause start (parts ++ options))
      (do
        let options ← optionsBehindWith
        branchFrom .usesClause (F.lift start) (shift F.lines parts ++ options)) := by
    refine (optionsBehindWith_orTakes aligned).bind ?_ ?_ ?_ ?_
    · intro options s₁ t₁ aligned₁
      have node := branchFrom_follows (E := leftOpen F) .usesClause reached (parts ++ options) limits s₁ t₁
        aligned₁
      have moved : shift F.lines (parts ++ options) = shift F.lines parts ++ shift F.lines options :=
        List.map_append
      rw [moved] at node
      exact node
    · intro options s₁ none before
      refine ⟨?_, before⟩
      rw [List.isEmpty_iff.1 none, List.append_nil]
      show (!parts.isEmpty && parts.all (·.kind != .resolverOptions)) = true
      rw [Bool.and_eq_true, Bool.not_eq_true', List.isEmpty_eq_false_iff, List.all_eq_true]
      refine ⟨some, fun n hn => ?_⟩
      rcases plain n hn with kind | kind
      · rw [kind]
        rfl
      · rw [kind]
        rfl
    · exact fun _ _ _ => .refl
    · exact fun _ _ _ => .refl
  cases scope with
  | none =>
    cases method with
    | none =>
      refine FollowsAt.orTakes ((reportHere_follows _ limits s t aligned).then ?_)
      intro _ s₁ t₁ aligned₁
      exact branchFrom_follows .usesClause reached [] limits s₁ t₁ aligned₁
    | some method =>
      refine behind [method] (List.cons_ne_nil _ _) ?_
      simpa using Or.inr (plain' method rfl)
  | some scope =>
    cases method with
    | none =>
      refine behind [scope] (List.cons_ne_nil _ _) ?_
      simpa using Or.inl (plain scope rfl)
    | some method =>
      refine behind [scope, method] (List.cons_ne_nil _ _) ?_
      simpa using ⟨Or.inl (plain scope rfl), Or.inr (plain' method rfl)⟩

/-- What is read of a single kind. -/
theorem Reads.kind_eq {p : Parse (Option Node)} {kind : Kind} (h : Reads (Each (· == kind)) p)
    (limits : Limits) (s : ParseState) :
    Ensures limits s p fun r _ => ∀ n ∈ r, n.kind = kind := by
  refine (h limits s).mono ?_
  rintro r _ found n hn
  rw [Option.mem_def] at hn
  subst hn
  exact beq_iff_eq.1 found.kind

theorem behindScope_orTakes {start : Cursor} (reached : (Cursor.ofChars F.text).Reaches start)
    {scope : Option Node} (plain : ∀ n ∈ scope, n.kind = .resolverScope) (aligned : Aligned F s t) :
    FollowsOrTakes F limits s t clauseAwaits (behindScope start scope)
      (behindScope (F.lift start) (shift F.lines scope)) := by
  have method := methodBeforeOptions_follows.afterBlank (F := F) methodBeforeOptions_idle limits s t aligned
  refine method.bindOrTakes ((methodBeforeOptions_reads.afterBlank rfl).kind_eq limits s) ?_
    (behindMethod_grows start scope) (behindMethod_grows _ _)
  exact fun method s₁ t₁ plain' aligned₁ => behindMethod_orTakes reached plain plain' aligned₁

theorem usesClause_orTakes {start : Cursor} (reached : (Cursor.ofChars F.text).Reaches start)
    (aligned : Aligned F s t) :
    FollowsOrTakes F limits s t clauseAwaits (usesClause start) (usesClause (F.lift start)) := by
  have behind (scope : FollowsAt F (leftOpen F) limits s t (afterBlank resolverScope)
      (afterBlank resolverScope)) :
      FollowsOrTakes F limits s t clauseAwaits (usesClause start) (usesClause (F.lift start)) := by
    rw [usesClause_eq, usesClause_eq]
    refine scope.bindOrTakes ((resolverScope_reads.afterBlank rfl).kind_eq limits s) ?_
      (behindScope_grows start) (behindScope_grows _)
    exact fun scope s₁ t₁ plain aligned₁ => behindScope_orTakes reached plain aligned₁
  rcases aligned.skipBlank with ⟨inStep, -⟩ | seam
  · exact behind (.afterBlankInStep aligned (resolverScope_follows limits _ _ inStep).mayPart)
  · by_cases scope : String.ofList F.word ∈ resolverScopes
    · exact ((usesClause_complains start seam.atEnd).leftOpen seam.more (decide_eq_true scope)
        aligned.reached seam.atEnd aligned.count (usesClause_carries _).grows).orTakes
    · exact behind (.afterBlankAtSeam aligned seam (resolverScope_idle scope limits _ _ seam))

theorem usesWithClause_orTakes (aligned : Aligned F s t) :
    FollowsOrTakes F limits s t (Option.any clauseAwaits) usesWithClause usesWithClause := by
  rw [usesWithClause, FollowsOrTakes, both_cursor, aligned.cursor]
  refine FollowsAt.thenOrTakes (eatWord_follows (by decide) limits s t aligned) ?_
  rintro (_ | _) s₁ t₁ aligned₁
  · exact (FollowsAt.pure aligned₁ none).orTakes
  · refine (usesClause_orTakes aligned.reached aligned₁).bind ?_ ?_ ?_ ?_
    · exact fun clause _ _ aligned₂ => .pure aligned₂ (some clause)
    · exact fun clause _ opens before => ⟨opens, before⟩
    · exact fun _ _ _ => .refl
    · exact fun _ _ _ => .refl

end Parse

end PatternRules

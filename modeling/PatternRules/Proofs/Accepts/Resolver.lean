import PatternRules.Proofs.Accepts

/-!
`uses` clauses are accepted as they are rendered. A clause ends with its line; whether it has options
is decided by the word behind it, so that a clause without options must not be followed by the word
`with` on the next line (`NextLine`).
-/

namespace PatternRules

/-- What may stand on the line behind a statement. If the statement is `optional`, it could go on with
options. -/
structure NextLine (optional : Bool) (rest : List Char) : Prop where
  stops : Stops opensBlank rest
  comma : rest.head? ≠ some ','
  noWith : optional = true → rest.takeWhile isWordChar ≠ "with".toList

theorem endsWord_line (rest : List Char) : EndsWord ('\n' :: rest) :=
  ⟨Stops.cons_iff.2 rfl, rfl⟩

theorem Cursor.peekWord?_eq {c : Cursor} {word : String} {tail : List Char}
    (h : c.rest = word.toList ++ tail) (all : word.toList.all isWordChar = true)
    (ne : word.toList ≠ []) (stop : Stops isWordChar tail) : c.peekWord? = some word := by
  have hrun : c.run isWordChar = word.toList := by rw [run, h, stop.takeWhile_append all]
  unfold peekWord?
  rw [hrun]
  cases hword : word.toList with
  | nil => exact absurd hword ne
  | cons x xs =>
    show some (String.ofList (x :: xs)) = some word
    rw [← hword, String.ofList_toList]

namespace Parse

open Abstract

variable {limits : Limits} {optional : Bool} {rest tail : List Char}

/-! ## Lists behind a keyword -/

theorem seekListItem_accepts {word : List Char} (blank : List Char) (hb : blank.all isBlank = true)
    (missing : Complaint) (all : word.all isWordChar = true) (ne : word ≠ []) (ends : EndsWord tail) :
    Accepts limits (seekListItem missing) blank (word ++ tail) (Finds fun _ => True) := by
  have item : Accepts limits
      (do let c ← cursor; return if c.atEnd || c.atRuleStart then none else some ()) [] (word ++ tail)
      (Finds fun _ => True) := by
    apply cursor_accepts.last
    intro c hc
    have inside : (c.atEnd || c.atRuleStart) = false := by
      rw [Cursor.atEnd, Cursor.atRuleStart, hc, startsRule_append all ends, Bool.or_false,
        List.isEmpty_eq_false_iff]
      exact List.append_ne_nil_of_left_ne_nil ne tail
    rw [inside]
    exact .pure ⟨(), rfl, trivial⟩
  have behind := item.afterBlank blank hb (stops_of_word all ne tail)
  rw [List.append_nil] at behind
  exact behind.orReport missing

/-- A list in parentheses goes on up to the closing one. -/
theorem closedList_accepts {γ : Type} {p : Parse (Option Node)} {write : γ → List Char}
    {means : γ → Outline} (xs : Series γ)
    (item : ∀ x blank tail, blank.all isBlank = true →
      Accepts limits p (blank ++ write x) tail (Finds (·.outline = means x))) :
    Accepts limits (commaList p) (xs.render write) (')' :: tail)
      (Node.outlines · = xs.toList.map means) := by
  have noComma : Accepts limits (eatCharAfterBlank ',') [] (')' :: tail) (· = false) :=
    eatCharAfterBlank_declines [] rfl (Stops.cons_iff.2 rfl) (by simp)
  refine (commaList_accepts (fun _ => True) xs (fun x blank tail hb _ => item x blank tail hb)
    (fun _ => trivial) trivial noComma).mono ?_
  intro ns hns
  rw [Node.outlines_eq_map, hns]

theorem closingParenthesis_accepts :
    Accepts limits (eatCharAfterBlank ')') [')'] tail (· = true) :=
  eatCharAfterBlank_accepts [] rfl rfl

/-- A list of options goes on up to the end of its line. -/
theorem optionList_accepts {γ : Type} {p : Parse (Option (List Node))} {write : γ → List Char}
    {means : γ → Outline} (kind : Kind) (os : Series γ)
    (front : Stops opensBlank (os.render write ++ '\n' :: rest))
    (item : ∀ o blank tail, blank.all isBlank = true → EndsWord tail →
      Accepts limits p (blank ++ write o) tail (Finds (Node.outlines · = [means o])))
    (next : NextLine optional rest) :
    Accepts limits (do
      skipInlineBlank
      let start ← cursor
      let options ← commaList p
      branchFrom kind start options.flatten) (' ' :: os.render write) ('\n' :: rest)
      (·.outline = .branch kind (os.toList.map means)) := by
  have noComma : Accepts limits (eatCharAfterBlank ',') [] ('\n' :: rest) (· = false) :=
    eatCharAfterBlank_declines ['\n'] rfl next.stops next.comma
  have inFront := front.mono fun c hc => isInlineBlank_of_opensBlank hc
  apply (skipInlineBlank_accepts rfl inFront).one
  intro _ _
  apply cursor_accepts.look
  intro start _
  apply (commaList_accepts EndsWord os item (fun _ => ⟨rfl, rfl⟩) (endsWord_line rest) noComma).last
  intro options hoptions
  refine branchFrom_accepts ?_
  rw [Node.outlines_flatten, hoptions, ← List.flatMap_def, ← List.map_eq_flatMap]

/-- The word in front of options. -/
theorem with_accepts :
    Accepts limits (eatWordAfterBlank "with") (' ' :: "with".toList) (' ' :: tail) (· = true) :=
  eatWordAfterBlank_accepts [' '] rfl rfl (by simp) (Stops.cons_iff.2 rfl)

/-- The next line has to tell that there are no options. -/
theorem with_declines (next : NextLine true rest) :
    Accepts limits (eatWordAfterBlank "with") [] ('\n' :: rest) (· = false) :=
  eatWordAfterBlank_declines ['\n'] rfl rfl next.stops (next.noWith rfl)

/-! ## Options -/

/-- Options begin with a space, and without options the line ends. -/
theorem endsWord_options {α : Type} (write : α → List Char) (os : Option (Series α))
    (rest : List Char) : EndsWord (withOptions write os ++ '\n' :: rest) := by
  cases os with
  | none => exact endsWord_line rest
  | some os => exact ⟨Stops.cons_iff.2 rfl, rfl⟩

theorem tokensFile_accepts (s : StringLiteral) (blank tail : List Char)
    (hb : blank.all isBlank = true) :
    Accepts limits tokensFile (blank ++ s.render) tail (Finds (·.outline = s.outline)) := by
  apply (skipBlank_accepts hb (Stops.cons_iff.2 rfl)).bind
  intro _ _
  exact (string_accepts s).orReport _

theorem optionalTokens_accepts (files : Series StringLiteral) :
    Accepts limits optionalTokens ('(' :: (files.render StringLiteral.render ++ [')'])) tail
      (·.outline = .branch .optionalTokens (files.toList.map StringLiteral.outline)) := by
  apply cursor_accepts.look
  intro start _
  have opening : Accepts limits (eatCharAfterBlank '(') ['(']
      (files.render StringLiteral.render ++ [')'] ++ tail) (· = true) :=
    eatCharAfterBlank_accepts [] rfl rfl
  apply opening.one
  rintro _ rfl
  apply (closedList_accepts files tokensFile_accepts).bind
  intro ns hns
  apply closingParenthesis_accepts.last
  rintro _ rfl
  exact branchFrom_accepts hns

theorem resolverFlags_word : ∀ w ∈ resolverFlags, w.toList.all isWordChar = true ∧ w.toList ≠ [] := by
  decide

theorem resolverFlag_word {w : String} (hw : w ∈ resolverFlags) (stop : Stops isWordChar tail) :
    Accepts limits resolverFlag w.toList tail
      (Node.outlines · = [.leaf .resolverFlag w.toList]) := by
  obtain ⟨all, ne⟩ := resolverFlags_word w hw
  apply cursor_accepts.look
  intro c hc
  simp only [Cursor.peekWord?_eq hc all ne stop, if_pos hw]
  apply (takeLeaf_accepts String.length_toList.symm).last
  intro n hn
  exact .pure (Node.outlines_singleton hn)

theorem resolverFlag_optionalTokens (files : Series StringLiteral) :
    Accepts limits resolverFlag (ResolverOption.optionalTokens files).render tail
      (Node.outlines · = [(ResolverOption.optionalTokens files).outline]) := by
  intro s hs room
  have peek : s.cursor.peekWord? = some optionalTokensWord := by
    rw [ResolverOption.render, List.append_assoc] at hs
    exact Cursor.peekWord?_eq hs (by decide) (by decide) (Stops.cons_iff.2 rfl)
  have other : optionalTokensWord ∉ resolverFlags := by decide
  have read : Accepts limits
      (do move (·.advanceBy optionalTokensWord.length); optionalTokens)
      (ResolverOption.optionalTokens files).render tail
      (·.outline = .branch .optionalTokens (files.toList.map StringLiteral.outline)) := by
    apply (advanceBy_accepts String.length_toList.symm).bind
    intro _ _
    exact optionalTokens_accepts files
  rw [resolverFlag, ensures_bind, ensures_cursor]
  simp only [peek, if_neg other, if_true]
  rw [← bind_assoc]
  apply (read s hs room).bind
  rintro n t ⟨rfl, hn⟩
  rw [ensures_bind, ensures_textNodeFrom, ParseState.textSince_past hs, ensures_pure]
  refine ⟨rfl, ?_⟩
  rw [Node.outlines_cons, Node.outline_mk, Node.outlines_cons, hn, Node.outlines_nil,
    ResolverOption.outline]

theorem nextResolverFlag_accepts (o : ResolverOption) (blank tail : List Char)
    (hb : blank.all isBlank = true) (ends : EndsWord tail) :
    Accepts limits nextResolverFlag (blank ++ o.render) tail
      (Finds (Node.outlines · = [o.outline])) := by
  have seek : Accepts limits (seekListItem .resolverFlagMissing) blank (o.render ++ tail)
      (Finds fun _ => True) := by
    cases o with
    | word w =>
      obtain ⟨all, ne⟩ := resolverFlags_word w.1 w.2
      exact seekListItem_accepts blank hb _ all ne ends
    | optionalTokens files =>
      rw [ResolverOption.render, List.append_assoc]
      exact seekListItem_accepts blank hb _ (by decide) (by decide) ⟨Stops.cons_iff.2 rfl, rfl⟩
  have flag : Accepts limits resolverFlag o.render tail (Node.outlines · = [o.outline]) := by
    cases o with
    | word w => exact resolverFlag_word w.2 ends.stops
    | optionalTokens files => exact resolverFlag_optionalTokens files
  apply seek.bind
  rintro _ ⟨_, rfl, -⟩
  exact flag.someOf

theorem stops_resolverOption (o : ResolverOption) (tail : List Char) :
    Stops opensBlank (o.render ++ tail) := by
  cases o with
  | word w =>
    obtain ⟨all, ne⟩ := resolverFlags_word w.1 w.2
    exact stops_of_word all ne tail
  | optionalTokens files => exact Stops.cons_iff.2 rfl

theorem resolverOptions_accepts (os : Series ResolverOption) (next : NextLine optional rest) :
    Accepts limits resolverOptions (' ' :: os.render ResolverOption.render) ('\n' :: rest)
      (·.outline = .branch .resolverOptions (os.toList.map ResolverOption.outline)) := by
  have front : Stops opensBlank (os.render ResolverOption.render ++ '\n' :: rest) := by
    rw [Series.render, List.append_assoc]
    exact stops_resolverOption os.first _
  exact optionList_accepts .resolverOptions os front nextResolverFlag_accepts next

/-- The options behind a clause. The line behind them has to tell that there are none. -/
theorem optionsBehindWith_accepts (os : Option (Series ResolverOption))
    (next : NextLine os.isNone rest) :
    Accepts limits optionsBehindWith (withOptions ResolverOption.render os) ('\n' :: rest)
      (Node.outlines · = os.toList.map fun os =>
        .branch .resolverOptions (os.toList.map ResolverOption.outline)) := by
  cases os with
  | none =>
    apply (with_declines next).last
    rintro _ rfl
    exact .pure Node.outlines_nil
  | some os =>
    show Accepts limits _ (' ' :: "with".toList ++ ' ' :: os.render ResolverOption.render) _ _
    apply with_accepts.bind
    rintro _ rfl
    apply (resolverOptions_accepts os next).last
    intro n hn
    exact .pure (Node.outlines_singleton hn)

/-! ## Methods -/

theorem resolverArgument_accepts (a : Argument) :
    Accepts limits resolverArgument a.render tail (Finds (·.outline = a.outline)) := by
  apply cursor_accepts.look
  intro start _
  obtain ⟨name, value⟩ := a
  cases name with
  | none =>
    have noName : Accepts limits identifier [] (value.render ++ tail) (· = none) :=
      identifier_declines (Stops.cons_iff.2 rfl)
    apply noName.look
    rintro _ rfl
    apply (string_accepts value).last
    rintro _ ⟨v, rfl, hv⟩
    exact (branchFrom_accepts (Node.outlines_singleton hv)).someOf
  | some name =>
    have text : (Argument.mk (some name) value).render =
        name.render ++ ([' ', '='] ++ ([' '] ++ value.render)) := by
      simp [Argument.render]
    have equals : Accepts limits (eatCharAfterBlank '=') [' ', '='] ([' '] ++ value.render ++ tail)
        (· = true) :=
      eatCharAfterBlank_accepts [' '] rfl rfl
    rw [text]
    apply (identifier_accepts name (Stops.cons_iff.2 rfl)).bind
    rintro _ ⟨n, rfl, hn⟩
    apply equals.bind
    rintro _ rfl
    apply (skipBlank_accepts rfl (Stops.cons_iff.2 rfl)).bind
    intro _ _
    apply ((string_accepts value).orReport _).last
    rintro _ ⟨v, rfl, hv⟩
    refine (branchFrom_accepts ?_).someOf
    rw [Node.outlines_cons, Node.outlines_cons, hn, hv, Node.outlines_nil]
    rfl

theorem stops_argument (a : Argument) (tail : List Char) :
    Stops opensBlank (a.render ++ tail) := by
  obtain ⟨name, value⟩ := a
  cases name with
  | none => exact Stops.cons_iff.2 rfl
  | some name => exact opensBlank_of_isIdentStart name.first_start

theorem nextArgument_accepts (a : Argument) (blank tail : List Char)
    (hb : blank.all isBlank = true) :
    Accepts limits nextArgument (blank ++ a.render) tail (Finds (·.outline = a.outline)) := by
  apply (skipBlank_accepts hb (stops_argument a tail)).bind
  intro _ _
  exact (resolverArgument_accepts a).orReport _

theorem resolverArguments_accepts (args : Series Argument) :
    Accepts limits resolverArguments ('(' :: (args.render Argument.render ++ [')'])) tail
      (·.outline = .branch .resolverArguments (args.toList.map Argument.outline)) := by
  apply cursor_accepts.look
  intro start _
  apply advance_accepts.one
  intro _ _
  apply (closedList_accepts args nextArgument_accepts).bind
  intro ns hns
  apply closingParenthesis_accepts.last
  rintro _ rfl
  exact branchFrom_accepts hns

theorem resolverMethod_accepts (m : Method) (stop : Stops isWordChar tail)
    (noArguments : tail.head? ≠ some '(') :
    Accepts limits resolverMethod m.render tail (Finds (·.outline = m.outline)) := by
  apply cursor_accepts.look
  intro start _
  obtain ⟨name, arguments⟩ := m
  cases arguments with
  | none =>
    rw [Method.render, Option.elim_none]
    apply (identifier_accepts name stop).bind
    rintro _ ⟨n, rfl, hn⟩
    apply peek_accepts.look
    rintro _ rfl
    rw [List.nil_append, if_neg noArguments]
    exact (branchFrom_accepts (Node.outlines_singleton hn)).someOf
  | some args =>
    rw [Method.render, Option.elim_some]
    apply (identifier_accepts name (Stops.cons_iff.2 rfl)).bind
    rintro _ ⟨n, rfl, hn⟩
    apply peek_accepts.look
    rintro _ rfl
    rw [List.cons_append, List.head?_cons, if_pos rfl]
    apply (resolverArguments_accepts args).last
    intro ns hns
    refine (branchFrom_accepts ?_).someOf
    rw [Node.outlines_cons, Node.outlines_cons, hn, hns, Node.outlines_nil]
    rfl

/-! ## The clause -/

theorem resolverScopes_word : ∀ w ∈ resolverScopes, w.toList.all isWordChar = true ∧ w.toList ≠ [] := by
  decide

theorem resolverScope_accepts {w : String} (hw : w ∈ resolverScopes) (stop : Stops isWordChar tail) :
    Accepts limits resolverScope w.toList tail (Finds (·.outline = .leaf .resolverScope w.toList)) := by
  obtain ⟨all, ne⟩ := resolverScopes_word w hw
  apply cursor_accepts.look
  intro c hc
  simp only [Cursor.peekWord?_eq hc all ne stop, if_pos hw]
  exact (takeLeaf_accepts String.length_toList.symm).someOf

theorem resolverScope_declines (i : Identifier) (h : i.word ∉ resolverScopes)
    (stop : Stops isWordChar tail) :
    Accepts limits resolverScope [] (i.render ++ tail) (· = none) := by
  have word : i.word.toList = i.render := String.toList_ofList
  apply cursor_accepts.look
  intro c hc
  rw [List.nil_append, ← word] at hc
  have all := i.all_word
  have ne : i.render ≠ [] := List.cons_ne_nil _ _
  rw [← word] at all ne
  simp only [Cursor.peekWord?_eq hc all ne stop, if_neg h]
  exact .pure rfl

/-- The name of a method ends where its arguments begin, or with the method. -/
theorem endsWord_arguments (m : Method) (ends : EndsWord tail) : EndsWord
    ((m.arguments.elim [] fun args => '(' :: (args.render Argument.render ++ [')'])) ++ tail) := by
  cases m.arguments with
  | none => exact ends
  | some args => exact ⟨Stops.cons_iff.2 rfl, rfl⟩

theorem methodBeforeOptions_accepts (m : Method) (h : m.name.word ≠ "with") (ends : EndsWord tail)
    (noArguments : tail.head? ≠ some '(') :
    Accepts limits methodBeforeOptions m.render tail (Finds (·.outline = m.outline)) := by
  have behind := endsWord_arguments m ends
  apply cursor_accepts.look
  intro c hc
  rw [Method.render, List.append_assoc] at hc
  have noWith : ¬ c.checkWord "with" = true := by
    rw [Cursor.checkWord_iff rfl, hc, behind.stops.takeWhile_append m.name.all_word]
    intro e
    rw [Identifier.word, e, String.ofList_toList] at h
    exact h rfl
  have noRule : c.atRuleStart = false := by
    rw [Cursor.atRuleStart, hc]
    exact startsRule_append m.name.all_word behind
  rw [Bool.not_eq_true] at noWith
  rw [noWith, noRule]
  exact resolverMethod_accepts m ends.stops noArguments

theorem methodBeforeOptions_declines
    (h : tail.takeWhile isWordChar = "with".toList ∨ tail = [] ∨ startsRule tail = true) :
    Accepts limits methodBeforeOptions [] tail (· = none) := by
  apply cursor_accepts.look
  intro c hc
  rw [List.nil_append] at hc
  rcases h with h | rfl | h
  · have word : c.checkWord "with" = true := by
      rw [Cursor.checkWord_iff rfl, hc, h]
    rw [word]
    exact .pure rfl
  · have word : c.checkWord "with" = false := by
      rw [← Bool.not_eq_true, Cursor.checkWord_iff rfl, hc]
      decide
    have noRule : c.atRuleStart = false := by
      rw [Cursor.atRuleStart, hc]
      rfl
    rw [word, noRule]
    apply cursor_accepts.look
    intro start _
    apply (identifier_declines .nil).last
    rintro _ rfl
    exact .pure rfl
  · have rule : c.atRuleStart = true := by
      rw [Cursor.atRuleStart, hc, h]
    rw [rule, Bool.or_true]
    exact .pure rfl

/-- A rule or nothing on the next line, which is not called `with` if options could follow. -/
structure NextRule (optional : Bool) (rest : List Char) : Prop where
  rule : rest = [] ∨ startsRule rest = true
  noWith : optional = true → rest.takeWhile isWordChar ≠ "with".toList

theorem NextRule.nextLine (h : NextRule optional rest) : NextLine optional rest := by
  rcases h.rule with rfl | hrule
  · exact ⟨.nil, by simp, h.noWith⟩
  · obtain ⟨c, cs, rfl, hc⟩ := head_of_startsRule hrule
    refine ⟨opensBlank_of_isIdentStart hc, ?_, h.noWith⟩
    rintro ⟨⟩
    cases hc

theorem scopePart_accepts (u : UsesClause) (hu : u.unambiguous = true) (rest : List Char) :
    Accepts limits (afterBlank resolverScope) (u.scope.elim [] (' ' :: ·.1.toList))
      (u.method.elim [] (' ' :: ·.render) ++
        (withOptions ResolverOption.render u.options ++ '\n' :: rest))
      (fun r => Node.outlines r.toList = u.scope.toList.map (.leaf .resolverScope ·.1.toList) ∧
        r.isNone = u.scope.isNone) := by
  obtain ⟨scope, method, options, resolves⟩ := u
  cases scope with
  | some w =>
    obtain ⟨all, ne⟩ := resolverScopes_word w.1 w.2
    have stop : Stops isWordChar (method.elim [] (' ' :: ·.render) ++
        (withOptions ResolverOption.render options ++ '\n' :: rest)) := by
      cases method with
      | none => exact (endsWord_options _ options rest).stops
      | some m => exact Stops.cons_iff.2 rfl
    refine ((resolverScope_accepts w.2 stop).afterBlank [' '] rfl (stops_of_word all ne _)).mono ?_
    rintro _ ⟨n, rfl, hn⟩
    exact ⟨Node.outlines_singleton hn, rfl⟩
  | none =>
    cases method with
    | none => exact absurd resolves (by simp)
    | some m =>
      have noScope : m.name.word ∉ resolverScopes := by
        simp only [UsesClause.unambiguous, Option.all_some, Option.isSome_none, Bool.false_or,
          Bool.and_eq_true, decide_eq_true_eq] at hu
        exact hu.2
      have stop :=
        (endsWord_arguments m (endsWord_options ResolverOption.render options rest)).stops
      have nothing : Accepts limits resolverScope [] (m.render ++
          (withOptions ResolverOption.render options ++ '\n' :: rest))
          (· = none) := by
        rw [Method.render, List.append_assoc]
        exact resolverScope_declines m.name noScope stop
      refine (nothing.afterBlank_none [' '] rfl ?_).mono ?_
      · exact opensBlank_of_isIdentStart m.name.first_start
      · rintro _ rfl
        exact ⟨Node.outlines_nil, rfl⟩

theorem methodPart_accepts (u : UsesClause) (hu : u.unambiguous = true)
    (next : NextRule u.options.isNone rest) :
    Accepts limits (afterBlank methodBeforeOptions) (u.method.elim [] (' ' :: ·.render))
      (withOptions ResolverOption.render u.options ++ '\n' :: rest)
      (fun r => Node.outlines r.toList = u.method.toList.map Method.outline ∧
        r.isNone = u.method.isNone) := by
  obtain ⟨scope, method, options, resolves⟩ := u
  have ends := endsWord_options ResolverOption.render options rest
  cases method with
  | some m =>
    have noArguments : (withOptions ResolverOption.render options ++ '\n' :: rest).head? ≠ some '(' := by
      cases options <;> simp [withOptions]
    have noWith : m.name.word ≠ "with" := by
      simp only [UsesClause.unambiguous, Option.all_some, Bool.and_eq_true, bne_iff_ne] at hu
      exact hu.1
    have front : Stops opensBlank (m.render ++
        (withOptions ResolverOption.render options ++ '\n' :: rest)) :=
      opensBlank_of_isIdentStart m.name.first_start
    refine ((methodBeforeOptions_accepts m noWith ends noArguments).afterBlank [' '] rfl front).mono ?_
    rintro _ ⟨n, rfl, hn⟩
    exact ⟨Node.outlines_singleton hn, rfl⟩
  | none =>
    have nothing : Accepts limits (afterBlank methodBeforeOptions) []
        (withOptions ResolverOption.render options ++ '\n' :: rest)
        (· = none) := by
      cases options with
      | none =>
        exact (methodBeforeOptions_declines (.inr next.rule)).afterBlank_none ['\n'] rfl
          next.nextLine.stops
      | some os =>
        have word : "with".toList.all isWordChar = true := rfl
        have stop : Stops isWordChar (' ' :: os.render ResolverOption.render ++ '\n' :: rest) :=
          Stops.cons_iff.2 rfl
        have run := stop.takeWhile_append word
        exact (methodBeforeOptions_declines (.inl run)).afterBlank_none [' '] rfl
          (Stops.cons_iff.2 rfl)
    refine nothing.mono ?_
    rintro _ rfl
    exact ⟨Node.outlines_nil, rfl⟩

/-- **Clauses are accepted as they are rendered**, behind the word `uses`. -/
theorem usesClause_accepts {start : Cursor} (u : UsesClause) (hu : u.unambiguous = true)
    (next : NextRule u.options.isNone rest) :
    Accepts limits (usesClause start) u.inside ('\n' :: rest) (·.outline = u.outline) := by
  apply Accepts.bind
  · rw [List.append_assoc]
    exact scopePart_accepts u hu rest
  rintro scope ⟨hscope, noScope⟩
  apply (methodPart_accepts u hu next).bind
  rintro method ⟨hmethod, noMethod⟩
  have resolves : (scope.isNone && method.isNone) = false := by
    rw [noScope, noMethod]
    rcases u.resolves with h | h
    · simp [Option.isNone_eq_false_iff.2 h]
    · simp [Option.isNone_eq_false_iff.2 h]
  rw [resolves]
  apply (optionsBehindWith_accepts u.options next.nextLine).last
  intro options hoptions
  refine branchFrom_accepts ?_
  rw [Node.outlines_append, Node.outlines_append, hscope, hmethod, hoptions]

end Parse

end PatternRules

import PatternRules.Proofs.Reads.Expression
import PatternRules.Proofs.Settles

/-!
What reading an expression leaves behind. Classes and escapes stay on their line, so that their texts do;
the other parts follow the grammar. Behind an expression the cursor may stand in front of blanks at whose
end too deep a nesting was reported, so from groups upward states are `Orderly` only.
-/

namespace PatternRules

open ParseState (Settled Orderly Steady)

/-! ## Staying on the line -/

namespace Cursor

theorem line_advance {c : Cursor} (h : c.peek ≠ some '\n') : c.advance.line = c.line := by
  unfold advance
  split
  · rfl
  · next ch rest hrest =>
    have hch : ch ≠ '\n' := fun e => h (by rw [peek, hrest, e]; rfl)
    rw [if_neg hch]

theorem line_advanceBy (n : Nat) (c : Cursor) :
    (c.advanceBy n).line = c.line + (c.rest.take n).count '\n' := by
  induction n generalizing c with
  | zero => rfl
  | succ n ih =>
    rw [advanceBy, ih, rest_advance]
    unfold advance
    split
    · next h => simp [h]
    · next ch rest h =>
      rw [h, List.tail_cons, List.take_succ_cons, List.count_cons]
      split
      · next hch =>
        simp only [hch, beq_self_eq_true, if_true]
        omega
      · next hch => simp [hch]

/-- The end of a text. -/
theorem at_end_of_text {text : List Char} {c : Cursor} (h : (ofChars text).Reaches c)
    (atEnd : c.rest = []) : c.pos = text.length ∧ c.line = text.count '\n' + 1 := by
  obtain ⟨n, rfl⟩ := h
  rw [rest_advanceBy, List.drop_eq_nil_iff] at atEnd
  rw [pos_advanceBy, line_advanceBy, List.take_of_length_le atEnd, Nat.min_eq_right atEnd]
  exact ⟨Nat.zero_add _, Nat.add_comm _ _⟩

theorem advance_newline {c : Cursor} {rest : List Char} (h : c.rest = '\n' :: rest) :
    c.advance = ⟨c.source, rest, c.pos + 1, c.line + 1, 1⟩ := by
  unfold advance
  rw [h]
  rfl

/-- What is read on one line has no newline. -/
theorem Reaches.oneLine {a b : Cursor} (h : a.Reaches b) (same : b.line = a.line) :
    '\n' ∉ b.textSince a := by
  obtain ⟨n, rfl⟩ := h
  rw [line_advanceBy] at same
  rw [Parse.textSince_advanceBy, ← List.count_eq_zero]
  omega

end Cursor

/-- What a reading on one line keeps. -/
structure KeptOnLine (text : List Char) (limits : Limits) (s t : ParseState) (ns : List Node) : Prop
    extends Kept text limits Settled Settled s t ns where
  reaches : s.cursor.Reaches t.cursor
  line : t.cursor.line = s.cursor.line

namespace KeptOnLine

variable {text : List Char} {limits : Limits} {s t u : ParseState} {ns ms : List Node}

theorem refl : KeptOnLine text limits s s [] := ⟨.refl id, .refl _, rfl⟩

theorem advance (h : s.cursor.peek ≠ some '\n') :
    KeptOnLine text limits s { s with cursor := s.cursor.advance } [] :=
  ⟨.moved (Cursor.reaches_advance _), Cursor.reaches_advance _, Cursor.line_advance h⟩

theorem trans (h : KeptOnLine text limits s t ns) (h' : KeptOnLine text limits t u ms) :
    KeptOnLine text limits s u (ns ++ ms) :=
  ⟨h.toKept.trans h'.toKept, h.reaches.trans h'.reaches, h'.line.trans h.line⟩

theorem textNode (h : KeptOnLine text limits s t ns) (kind : Kind) (hk : kind ≠ .number)
    (span : Span) :
    KeptOnLine text limits s t
      [⟨kind, some (.text (String.ofList (t.cursor.textSince s.cursor))), ns, span⟩] :=
  ⟨h.toKept.ofText hk fun _ => h.reaches.oneLine h.line, h.reaches, h.line⟩

end KeptOnLine

namespace Parse

variable {limits : Limits} {s : ParseState}

/-! ## Atoms -/

theorem escape_onLine (text : List Char) (h : s.cursor.peek ≠ some '\n') :
    Ensures limits s escape fun n t => KeptOnLine text limits s t [n] := by
  have backslash : KeptOnLine text limits s { s with cursor := s.cursor.advance } [] := .advance h
  have incomplete : Ensures limits { s with cursor := s.cursor.advance }
      (do report .escapeIncomplete (← spanFrom s.cursor); textNodeFrom .escape s.cursor [])
      fun n t => KeptOnLine text limits s t [n] := by
    simp only [ensures_bind, ensures_spanFrom, ensures_report, ensures_textNodeFrom,
      ParseState.cursor_recording]
    have complained : KeptOnLine text limits s _ [] :=
      ⟨.complained backslash.reaches Complaint.escapeIncomplete.message,
        by simpa using backslash.reaches, by simpa using backslash.line⟩
    simpa using complained.textNode .escape (by decide) (s.cursor.advance.spanFrom s.cursor.mark)
  simp only [escape, ensures_bind, ensures_cursor, ensures_move, ensures_peek]
  split
  · exact incomplete
  · next c hc =>
    split
    · exact incomplete
    · next other =>
      simp only [ensures_bind, ensures_move, ensures_textNodeFrom]
      have next : s.cursor.advance.peek ≠ some '\n' := by
        rw [hc]
        exact fun e => other (.inl (Option.some.inj e))
      exact (backslash.trans (.advance next)).textNode .escape (by decide) _

theorem classChar_onLine (text : List Char) {x : Char} (here : s.cursor.peek = some x) (inLine : x ≠ '\n') :
    Ensures limits s classChar fun n t => KeptOnLine text limits s t [n] := by
  have h : s.cursor.peek ≠ some '\n' := by
    rw [here]
    exact fun e => inLine (Option.some.inj e)
  rw [ensures_classChar here]
  split
  · exact escape_onLine text h
  · exact (KeptOnLine.advance h).textNode .char (by decide) _

theorem classItem_onLine (text : List Char) {x : Char} (here : s.cursor.peek = some x) (inLine : x ≠ '\n') :
    Ensures limits s classItem fun n t => KeptOnLine text limits s t [n] := by
  simp only [classItem, ensures_bind, ensures_cursor]
  refine (classChar_onLine text here inLine).mono ?_
  intro low t hlow
  simp only [atRangeHyphen, ensures_bind, ensures_cursor, ensures_pure]
  split
  · next range =>
    obtain ⟨hyphen, y, there, -, inLine⟩ := range_of_hyphen range
    have atHyphen : t.cursor.peek ≠ some '\n' := by
      rw [hyphen]
      decide
    simp only [ensures_bind, ensures_move]
    refine (classChar_onLine text there inLine).mono ?_
    intro high u hhigh
    exact (hlow.trans ((KeptOnLine.advance atHyphen).trans hhigh)).textNode .charRange (by decide) _
  · exact hlow

theorem nextClassItem_onLine (text : List Char) (limits : Limits) (s : ParseState) :
    Ensures limits s nextClassItem fun r t => KeptOnLine text limits s t (HasNodes.nodes r) := by
  have unclosed : Ensures limits s (do reportHere .classUnclosed; return (none : Option Node))
      fun r t => KeptOnLine text limits s t (HasNodes.nodes r) := by
    simp only [reportHere, ensures_bind, ensures_cursor, ensures_report, ensures_pure]
    exact ⟨.recorded fun h => Steady.record limits h (.inl rfl), by simpa using .refl _, by simp⟩
  simp only [nextClassItem, ensures_bind, ensures_peek]
  split
  · exact unclosed
  · next c hc =>
    split
    · exact unclosed
    · next other =>
      have h : s.cursor.peek ≠ some '\n' := by
        rw [hc]
        exact fun e => other (Option.some.inj e)
      split
      · exact .advance h
      · exact classItem_onLine text hc other

theorem classItems_onLine (text : List Char) (fuel : Nat) (limits : Limits) (s : ParseState) :
    Ensures limits s (manyFuel nextClassItem fuel) fun ns t => KeptOnLine text limits s t ns := by
  induction fuel generalizing s with
  | zero => exact .refl
  | succ fuel ih =>
    simp only [manyFuel, ensures_bind]
    refine (nextClassItem_onLine text limits s).mono ?_
    rintro (_ | n) t kept
    · exact kept
    · refine (ih t).bind ?_
      intro ns u further
      exact kept.trans further

theorem charClass_onLine (text : List Char) (h : s.cursor.peek ≠ some '\n') :
    Ensures limits s charClass fun n t => KeptOnLine text limits s t [n] := by
  simp only [charClass, many, ensures_bind, ensures_cursor, ensures_move]
  refine (classItems_onLine text _ limits _).mono ?_
  intro items t hitems
  exact ((KeptOnLine.advance h).trans hitems).textNode .charClass (by decide) _

theorem atom_tries : Tries Settled Settled atom := by
  intro text limits s
  simp only [atom, ensures_bind, ensures_peek]
  have one {c : Char} (hc : s.cursor.peek = some c) (ne : c ≠ '\n') : '\n' ∉ s.cursor.rest.take 1 := by
    obtain ⟨rest, hrest⟩ : ∃ rest, s.cursor.rest = c :: rest := List.head?_eq_some_iff.1 hc
    simpa [hrest] using ne.symm
  split
  · exact ⟨rfl, .refl id⟩
  · next c hc =>
    have noNewline (ne : c ≠ '\n') : s.cursor.peek ≠ some '\n' := by
      rw [hc]
      exact fun e => ne (Option.some.inj e)
    split
    · next e => exact (escape_onLine text (noNewline (by rw [e]; decide))).mono fun _ _ kept => kept.toKept
    · split
      · next e => exact takeLeaf_carries text (by decide) (one hc (by rcases e with e | e <;> rw [e] <;> decide))
      · split
        · next e => exact takeLeaf_carries text (by decide) (one hc (by rw [e]; decide))
        · split
          · next e =>
            exact (charClass_onLine text (noNewline (by rw [e]; decide))).mono fun _ _ kept => kept.toKept
          · split
            · exact string_tries text limits s
            · exact identifier_tries text limits s

/-! ## List matches -/

theorem filterArgument_carries : Carries Settled Settled filterArgument := by
  intro text limits s
  simp only [filterArgument, ensures_bind, ensures_skipInlineBlank]
  refine ((string_tries.orReport _).carries text limits _).mono ?_
  intro argument t hargument
  refine ((eatChar_tries ')').matches text limits _).mono ?_
  intro closed u hu
  refine .complaining text (reportHere_carries Settled _) ?_
  intro v hv
  rw [ensures_pure, HasNodes.nodes_list, ← HasNodes.nodes_option]
  exact Kept.inline.after (hargument.upTo (Kept.inline.after (hu.upTo hv)))

theorem filter_tries : Tries Settled Settled filter := by
  intro text limits s
  simp only [filter, ensures_bind, ensures_cursor]
  refine (identifier_tries.orReport _ text limits s).mono ?_
  rintro (_ | name) t hname
  · exact hname
  · refine .choosing text (eatChar_tries '(') ?_ ?_
    · intro u hu
      refine (filterArgument_carries text limits u).bind ?_
      intro argument v hargument
      rw [HasNodes.nodes_list] at hargument
      exact (hname.trans (hu.after hargument)).branch (by decide)
    · intro u _ hu
      refine (reportHere_carries Settled _ text limits u).bind ?_
      intro _ v hv
      exact (hname.upTo (hu.upTo hv)).branch (by decide)

theorem skipListMatch_carries : Carries Settled Settled skipListMatch :=
  fun _ _ _ => .moved (Cursor.reaches_advanceBy _ _)

theorem listFilter_carries : Carries Settled Settled listFilter := by
  intro text limits s
  refine .choosing text (eatChar_tries ':') ?_ ?_
  · intro t ht
    simp only [ensures_bind, ensures_skipInlineBlank]
    refine (filter_tries.carries text limits _).mono ?_
    intro filter u hfilter
    rw [ensures_pure, HasNodes.nodes_list, ← HasNodes.nodes_option]
    exact ht.after (Kept.inline.after (hfilter.upTo .inline))
  · intro t _ ht
    exact ht

theorem listMatch_carries : Carries Settled Settled listMatch := by
  intro text limits s
  simp only [listMatch, ensures_bind, ensures_cursor, ensures_move, ensures_skipInlineBlank]
  have opening : Kept text limits Settled Settled s
      { s with cursor := (s.cursor.advanceBy 2).skipInlineBlank } [] :=
    .moved ((Cursor.reaches_advanceBy 2 _).trans (Cursor.reaches_skipInlineBlank _))
  refine (identifier_tries.orReport _ text limits _).mono ?_
  rintro (_ | name) t hname
  · refine (skipListMatch_carries text limits t).bind ?_
    intro _ u hu
    rw [ensures_branchFrom]
    exact (opening.after (hname.2.upTo hu)).branch (by decide)
  · simp only [ensures_bind, ensures_skipInlineBlank]
    refine (listFilter_carries text limits _).mono ?_
    intro filter u hfilter
    rw [HasNodes.nodes_list] at hfilter
    have parts : Kept text limits Settled Settled s u (name :: filter) :=
      opening.after ((Kept.upTo hname .inline).trans hfilter)
    refine ((eatLiteral_tries "]]").matches text limits u).mono ?_
    intro closed v hv
    split
    · refine (reportHere_carries Settled _ text limits v).bind ?_
      intro _ w hw
      refine (skipListMatch_carries text limits w).bind ?_
      intro _ x hx
      rw [ensures_branchFrom]
      exact (parts.upTo (hv.upTo (hw.upTo hx))).branch (by decide)
    · rw [ensures_branchFrom]
      exact (parts.upTo hv).branch (by decide)

/-! ## Groups and captures -/

theorem reportUnlessNested_carries (P : List Char → ParseState → Prop) [Steady P]
    (complaint : Complaint) : Carries P P (reportUnlessNested complaint) := by
  intro text limits s
  simp only [reportUnlessNested, ensures_bind, ensures_get]
  split
  · exact reportHere_carries P complaint text limits s
  · exact .refl id

section

variable {inner : Parse (Option Node)}

theorem enclosed_carries (missing : Complaint) (h : Tries Settled Orderly inner) :
    Carries Orderly Orderly (enclosed missing inner) := by
  intro text limits s
  simp only [enclosed, ensures_bind]
  refine (h.afterBlank.carries text limits s).mono ?_
  intro body t hbody
  refine .complaining text (reportUnlessNested_carries Orderly missing) ?_
  intro u hu
  refine ((eatCharAfterBlank_tries ')').orderly.matches text limits u).bind ?_
  intro closed v hv
  refine .complaining text (reportUnlessNested_carries Orderly _) ?_
  intro w hw
  rw [ensures_pure, HasNodes.nodes_list, ← HasNodes.nodes_option]
  exact hbody.upTo (hu.upTo (hv.upTo hw))

theorem group_carries (h : Tries Settled Orderly inner) : Carries Settled Orderly (group inner) := by
  intro text limits s
  simp only [group, ensures_bind, ensures_cursor, ensures_move]
  refine (enclosed_carries _ h text limits _).mono ?_
  intro body t hbody
  rw [HasNodes.nodes_list] at hbody
  rw [ensures_branchFrom]
  exact ((Kept.moved (Cursor.reaches_advance _)).settle.after hbody).branch (by decide)

theorem captureParts_carries (h : Tries Settled Orderly inner) :
    Carries Settled Orderly (captureParts inner) := by
  intro text limits s
  simp only [captureParts, ensures_bind]
  refine (identifier_tries.orReport _ text limits s).mono ?_
  rintro (_ | name) t hname
  · exact hname.2.settle
  · refine .choosing text (eatChar_tries '>') ?_ ?_
    · intro u hu
      refine (enclosed_carries _ h text limits u).bind ?_
      intro body v hbody
      rw [HasNodes.nodes_list] at hbody
      rw [ensures_pure, HasNodes.nodes_list]
      exact Kept.trans hname (hu.settle.after hbody)
    · intro u _ hu
      refine (reportHere_carries Settled _ text limits u).bind ?_
      intro _ v hv
      exact Kept.upTo hname (hu.upTo hv).settle

theorem namedCapture_carries (h : Tries Settled Orderly inner) :
    Carries Settled Orderly (namedCapture inner) := by
  intro text limits s
  simp only [namedCapture, ensures_bind, ensures_cursor, ensures_move]
  refine (captureParts_carries h text limits _).mono ?_
  intro parts t hparts
  rw [HasNodes.nodes_list] at hparts
  rw [ensures_branchFrom]
  exact ((Kept.moved (Cursor.reaches_advanceBy 4 _)).after hparts).branch (by decide)

/-! ## Quantifiers -/

/-- The bounds of a quantifier of which the least was read already. -/
theorem quantifierBounds_carries {text : List Char} {P : List Char → ParseState → Prop}
    {s t : ParseState} {limits : Limits} {least : Node} (start : Cursor)
    (hleast : Kept text limits P Settled s t [least]) :
    Ensures limits t (quantifierBounds start least) fun n u =>
      Kept text limits P Settled s u [n] := by
  -- Both forms of the bounds end in the same way.
  have closing (kind : Kind) (hk : kind ≠ .number) (most : List Node) (u : ParseState)
      (hmost : Kept text limits P Settled s u (least :: most)) :
      Ensures limits u (do
        skipInlineBlank
        if !(← eatChar '}') then
          reportHere .quantifierUnclosed
        branchFrom kind start (least :: most)) fun n u => Kept text limits P Settled s u [n] := by
    simp only [ensures_bind, ensures_skipInlineBlank]
    refine ((eatChar_tries '}').matches text limits _).mono ?_
    intro closed v hv
    refine .complaining text (reportHere_carries Settled _) ?_
    intro w hw
    rw [ensures_branchFrom]
    exact (hmost.upTo (Kept.inline.upTo (hv.upTo hw))).branch hk
  simp only [quantifierBounds, ensures_bind, ensures_skipInlineBlank]
  refine ((eatChar_tries ',').matches text limits _).mono ?_
  intro comma u hu
  have before := hleast.upTo (Kept.inline.upTo hu)
  split
  · simp only [ensures_bind, ensures_skipInlineBlank]
    refine (number_tries.carries text limits _).mono ?_
    intro most v hmost
    rw [HasNodes.nodes_option] at hmost
    exact closing .range (by decide) most.toList v (before.trans (Kept.inline.after hmost))
  · exact closing .exactRange (by decide) [] u before

theorem quantifier_carries : Carries Orderly Orderly quantifier := by
  intro text limits s
  rw [quantifier, ensures_bind, ensures_cursor]
  refine .choosing text (eatChar_settles '?' rfl) ?_ ?_
  · intro t ht
    exact ht.settle.branch (by decide)
  · intro t _ ht
    refine .choosing text (eatChar_settles '{' rfl) ?_ ?_
    · intro u hu
      simp only [ensures_bind, ensures_skipInlineBlank]
      have before := ht.upTo (hu.upTo .inline)
      refine (number_tries text limits _).mono ?_
      rintro (_ | least) v hleast
      · refine (reportHere_carries Settled _ text limits v).bind ?_
        intro _ w hw
        exact (before.upTo (hleast.2.upTo (hw.upTo (.moved (Cursor.reaches_advanceBy _ _))))).settle
      · refine (quantifierBounds_carries s.cursor (before.after hleast)).bind ?_
        intro n w kept
        exact kept.settle
    · intro u _ hu
      exact ht.upTo hu

/-! ## Expressions -/

theorem primary_tries (h : Tries Settled Orderly inner) : Tries Settled Orderly (primary inner) := by
  intro text limits s
  simp only [primary, ensures_bind, ensures_cursor]
  split
  · exact namedCapture_carries h text limits s
  · split
    · exact group_carries h text limits s
    · split
      · exact (listMatch_carries text limits s).bind fun _ _ kept => kept.settle
      · exact atom_tries.orderly text limits s

theorem quantified_tries (h : Tries Settled Orderly inner) :
    Tries Settled Orderly (quantified inner) := by
  intro text limits s
  simp only [quantified, ensures_bind, ensures_cursor]
  refine (primary_tries h text limits s).mono ?_
  rintro (_ | subject) t hsubject
  · exact hsubject
  · refine (quantifier_carries text limits t).bind ?_
    rintro (_ | quantifier) u hquantifier
    · exact Kept.upTo hsubject hquantifier
    · exact (Kept.trans hsubject hquantifier).branch (by decide)

theorem item_tries (h : Tries Settled Orderly inner) : Tries Settled Orderly (item inner) := by
  intro text limits s
  simp only [item, atBoundary, ensures_bind, ensures_cursor, ensures_pure]
  split
  · exact ⟨rfl, .refl id⟩
  · exact quantified_tries h text limits s

theorem joined_keeps {text : List Char} {limits : Limits} {s t : ParseState} {first : Node}
    {further : List Node} (kind : Kind) (hk : kind ≠ .number) (start : Cursor)
    (h : Kept text limits Settled Orderly s t (first :: further)) (nothing : Prop) :
    Ensures limits t (joined kind start first further) fun r u =>
      r.elim nothing fun n => Kept text limits Settled Orderly s u [n] := by
  unfold joined
  split
  · next alone =>
    rw [List.isEmpty_iff] at alone
    rw [alone] at h
    exact h
  · exact h.branch hk

theorem concatenation_tries (h : Tries Settled Orderly inner) :
    Tries Settled Orderly (concatenation inner) := by
  intro text limits s
  simp only [concatenation, ensures_bind, ensures_cursor]
  refine (item_tries h text limits s).mono ?_
  rintro (_ | first) t hfirst
  · exact hfirst
  · refine ((item_tries h).afterBlank.carries.many text limits t).bind ?_
    intro further u hfurther
    rw [HasNodes.nodes_list] at hfurther
    exact joined_keeps _ (by decide) _ (Kept.trans hfirst hfurther) _

theorem nextBranch_carries (h : Tries Settled Orderly inner) :
    Carries Orderly Orderly (nextBranch inner) := by
  intro text limits s
  refine .choosing text (eatCharAfterBlank_tries '|') ?_ ?_
  · intro t ht
    refine (((concatenation_tries h).afterBlank.orReport _).carries text limits t).mono ?_
    intro branch u kept
    exact ht.settle.after kept
  · intro t _ ht
    exact ht

theorem alternation_tries (h : Tries Settled Orderly inner) :
    Tries Settled Orderly (alternation inner) := by
  intro text limits s
  simp only [alternation, ensures_bind, ensures_cursor]
  refine (concatenation_tries h text limits s).mono ?_
  rintro (_ | first) t hfirst
  · exact hfirst
  · refine ((nextBranch_carries h).many text limits t).bind ?_
    intro further u hfurther
    rw [HasNodes.nodes_list] at hfurther
    exact joined_keeps _ (by decide) _ (Kept.trans hfirst hfurther) _

end

theorem reportNesting_carries : Carries Settled Settled reportNesting := by
  intro text limits s
  simp only [reportNesting, ensures_bind, ensures_get]
  split
  · simp only [reportHere, ensures_bind, ensures_modify, ensures_read, ensures_cursor, ensures_report]
    refine ⟨.recording { s with nestingReported := true } _, ?_, ?_, by simp [HasNodes.nodes, Node.nodesOf]⟩
    · intro _
      unfold ParseState.recording
      split
      · next full => exact .inr (.inl full)
      · exact .inr (.inr (by simp))
    · intro settled
      have same : ParseState.Settled text { s with nestingReported := true } :=
        ⟨settled.reached, settled.placed⟩
      exact Steady.record limits same (.inl rfl)
  · exact .refl id

/-- **Reading an expression** keeps what is so of errors and nodes, however deep it goes. -/
theorem expressionWithin_tries (levels : Nat) : Tries Settled Orderly (expressionWithin levels) := by
  induction levels with
  | zero =>
    intro text limits s
    exact ⟨reportNesting_keeps limits s, reportNesting_carries text limits s⟩
  | succ levels ih => exact alternation_tries ih

theorem expression_tries : Tries Settled Orderly expression := by
  intro text limits s
  simp only [expression, ensures_bind, ensures_read]
  exact expressionWithin_tries limits.depth text limits s

end Parse

end PatternRules

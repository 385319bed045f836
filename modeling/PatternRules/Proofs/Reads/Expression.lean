import PatternRules.Proofs.Reads

/-!
What expressions read: atoms, list matches, groups and captures, quantifiers, and the ladder from items
over concatenations to alternations. Groups and captures take the contract of what they contain as a
hypothesis; `expressionWithin_reads` discharges it level by level.
-/

namespace PatternRules.Parse

variable {limits : Limits} {s : ParseState}

/-! ## Atoms -/

theorem escape_reads : Reads (Each (· == .escape)) escape := by
  have backslash (s : ParseState) : s.cursor.Reaches s.cursor.advance := Cursor.reaches_advance _
  intro limits s
  simp only [escape, ensures_bind, ensures_cursor, ensures_move, ensures_peek]
  have incomplete : Ensures limits { s with cursor := s.cursor.advance }
      (do report .escapeIncomplete (← spanFrom s.cursor); textNodeFrom .escape s.cursor [])
      fun n t => Found (Each (· == .escape)) [n] s.cursor t.cursor := by
    simp only [ensures_bind, ensures_spanFrom]
    refine (report_keeps _ _ limits _).mono ?_
    intro _ t ht
    simp only [ensures_textNodeFrom, ht]
    exact .node (.ofText (.nil (backslash s)) rfl rfl) rfl
  split
  · exact incomplete
  · split
    · exact incomplete
    · simp only [ensures_bind, ensures_move, ensures_textNodeFrom]
      exact .node (.ofText (.nil ((backslash s).trans (Cursor.reaches_advance _))) rfl rfl) rfl

/-- In front of a character, that character or an escape is read. -/
theorem ensures_classChar {Q : Node → ParseState → Prop} {x : Char} (here : s.cursor.peek = some x) :
    Ensures limits s classChar Q ↔ Ensures limits s (if x = '\\' then escape else takeLeaf .char 1) Q := by
  simp only [classChar, ensures_bind, ensures_peek, here]

/-- A hyphen that makes a range has a character behind it, which is in the line and does not close the class. -/
theorem range_of_hyphen {c : Cursor}
    (h : (decide (c.peek = some '-') && (c.peekAt 1).any fun next => next != ']' && next != '\n') = true) :
    c.peek = some '-' ∧ ∃ x, c.advance.peek = some x ∧ x ≠ ']' ∧ x ≠ '\n' := by
  rw [Bool.and_eq_true, decide_eq_true_eq, Option.any_eq_true] at h
  obtain ⟨hyphen, x, behind, inside⟩ := h
  rw [Bool.and_eq_true, bne_iff_ne, bne_iff_ne] at inside
  refine ⟨hyphen, x, ?_, inside⟩
  rw [Cursor.peek, Cursor.rest_advance, List.head?_tail]
  exact behind

theorem classChar_reads {x : Char} (here : s.cursor.peek = some x) :
    Ensures limits s classChar fun n t => Found (Each Kind.isClassChar) [n] s.cursor t.cursor := by
  rw [ensures_classChar here]
  split
  · exact escape_reads.ofKind rfl limits s
  · exact (takeLeaf_reads rfl rfl 1).ofKind rfl limits s

theorem classItem_reads {x : Char} (here : s.cursor.peek = some x) :
    Ensures limits s classItem fun n t => Found (Each Kind.isClassItem) [n] s.cursor t.cursor := by
  simp only [classItem, ensures_bind, ensures_cursor]
  refine (classChar_reads here).mono ?_
  intro low t hlow
  simp only [atRangeHyphen, ensures_bind, ensures_cursor, ensures_pure]
  split
  · next range =>
    obtain ⟨-, y, there, -⟩ := range_of_hyphen range
    simp only [ensures_bind, ensures_move]
    refine (classChar_reads there).mono ?_
    intro high u hhigh
    simp only [ensures_textNodeFrom]
    have both := hlow.read.append (.after (Cursor.reaches_advance _) hhigh.read)
    refine .node (.ofText both rfl ?_) rfl
    simp [Kind.admits, hlow.kind, hhigh.kind]
  · exact ⟨hlow.read, each_of_each (fun k hk => by simp [Kind.isClassItem, hk]) _ hlow.kinds⟩

theorem nextClassItem_reads : Reads (Each Kind.isClassItem) nextClassItem := by
  intro limits s
  have unclosed : Ensures limits s (do reportHere .classUnclosed; return (none : Option Node))
      fun r t => Found (Each Kind.isClassItem) (HasNodes.nodes r) s.cursor t.cursor := by
    refine (reportHere_moves _ limits s).bind ?_
    intro _ t reaches
    exact .none reaches rfl
  simp only [nextClassItem, ensures_bind, ensures_peek]
  split
  · exact unclosed
  · next x here =>
    split
    · exact unclosed
    · split
      · exact .none (Cursor.reaches_advance _) rfl
      · exact classItem_reads here

theorem charClass_reads : Reads (Each (· == .charClass)) charClass := by
  intro limits s
  simp only [charClass, ensures_bind, ensures_cursor, ensures_move]
  refine (nextClassItem_reads.many limits _).mono ?_
  intro items t hitems
  rw [HasNodes.nodes_list] at hitems
  simp only [ensures_textNodeFrom]
  exact .node (.ofText (.after (Cursor.reaches_advance _) hitems.read) rfl hitems.kinds) rfl

theorem atom_reads : Reads (Each Kind.isAtom) atom := by
  intro limits s
  simp only [atom, ensures_bind, ensures_peek]
  split
  · exact .none (.refl _) rfl
  · split
    · exact escape_reads.ofKind rfl limits s
    · split
      · exact (takeLeaf_reads rfl rfl 1).ofKind rfl limits s
      · split
        · exact (takeLeaf_reads rfl rfl 1).ofKind rfl limits s
        · split
          · exact charClass_reads.ofKind rfl limits s
          · split
            · exact string_reads.ofKind rfl limits s
            · exact identifier_reads.ofKind rfl limits s

/-! ## List matches -/

theorem filterArgument_reads :
    Reads (fun ks => Kind.filter.admits (.identifier :: ks) = true) filterArgument := by
  intro limits s
  simp only [filterArgument, ensures_bind, ensures_skipInlineBlank]
  refine (string_reads.orReport _ limits _).mono ?_
  intro argument t hargument
  refine (eatChar_moves ')' limits _).mono ?_
  intro closed u hu
  refine .reporting (reportHere_keeps _) ?_
  intro v hv
  rw [ensures_pure, HasNodes.nodes_list, hv]
  have before := Cursor.reaches_skipInlineBlank s.cursor
  have behind := (Cursor.reaches_skipInlineBlank t.cursor).trans hu
  rw [HasNodes.nodes_option] at hargument
  exact ⟨.after before (.upTo hargument.read behind), hargument.fits [.identifier] rfl rfl⟩

theorem filter_reads : Reads (Each (· == .filter)) filter := by
  intro limits s
  simp only [filter, ensures_bind, ensures_cursor]
  refine (identifier_reads.orReport _ limits s).mono ?_
  rintro (_ | name) t hname
  · exact .none hname.read.reaches rfl
  · have isName := beq_iff_eq.1 hname.kind
    refine (eatChar_moves '(' limits t).bind ?_
    intro opened u hu
    split
    · refine (filterArgument_reads limits u).bind ?_
      intro argument v hargument
      rw [HasNodes.nodes_list] at hargument
      simp only [ensures_bind, ensures_branchFrom, ensures_pure]
      have both := hname.read.append (.after hu hargument.read)
      refine .node (.branch both (fun _ => rfl) ?_) rfl
      rw [List.map_cons, isName]
      exact hargument.kinds
    · refine (reportHere_moves _ limits u).bind ?_
      intro _ v hv
      simp only [ensures_bind, ensures_branchFrom, ensures_pure]
      refine .node (.branch (.upTo hname.read (hu.trans hv)) (fun _ => rfl) ?_) rfl
      simp [Kind.admits, isName]

theorem skipListMatch_moves : Moves skipListMatch := fun _ _ => Cursor.reaches_advanceBy _ _

theorem listFilter_reads :
    Reads (fun ks => Kind.listMatch.admits (.identifier :: ks) = true) listFilter := by
  intro limits s
  simp only [listFilter, ensures_bind]
  refine (eatChar_moves ':' limits s).mono ?_
  intro announced t ht
  split
  · simp only [ensures_bind, ensures_skipInlineBlank]
    refine (filter_reads limits _).mono ?_
    intro filter u hfilter
    rw [ensures_pure, HasNodes.nodes_list]
    have before := ht.trans (Cursor.reaches_skipInlineBlank t.cursor)
    have behind := Cursor.reaches_skipInlineBlank u.cursor
    rw [HasNodes.nodes_option] at hfilter
    exact ⟨.after before (.upTo hfilter.read behind), hfilter.fits [.identifier] rfl rfl⟩
  · exact .none ht rfl

theorem listMatch_reads : Reads (Each (· == .listMatch)) listMatch := by
  intro limits s
  simp only [listMatch, ensures_bind, ensures_cursor, ensures_move, ensures_skipInlineBlank]
  have opening := (Cursor.reaches_advanceBy 2 s.cursor).trans (Cursor.reaches_skipInlineBlank _)
  refine (identifier_reads.orReport _ limits _).mono ?_
  rintro (_ | name) t hname
  · refine (skipListMatch_moves limits t).bind ?_
    intro _ u hu
    rw [ensures_branchFrom]
    exact .node (.branch (.nil (opening.trans (hname.read.reaches.trans hu))) (fun _ => rfl) rfl)
      rfl
  · have isName := beq_iff_eq.1 hname.kind
    simp only [ensures_bind, ensures_skipInlineBlank]
    refine (listFilter_reads limits _).mono ?_
    intro filter u hfilter
    rw [HasNodes.nodes_list] at hfilter
    have parts : Node.AllReadFrom (name :: filter) s.cursor u.cursor :=
      (Node.AllReadFrom.after opening hname.read).append
        (.after (Cursor.reaches_skipInlineBlank _) hfilter.read)
    have fits : Kind.listMatch.admits ((name :: filter).map Node.kind) = true := by
      rw [List.map_cons, isName]
      exact hfilter.kinds
    refine (eatLiteral_moves "]]" limits u).mono ?_
    intro closed v hv
    split
    · refine (reportHere_moves _ limits v).bind ?_
      intro _ w hw
      refine (skipListMatch_moves limits w).bind ?_
      intro _ x hx
      rw [ensures_branchFrom]
      exact .node (.branch (.upTo parts (hv.trans (hw.trans hx))) (fun _ => rfl) fits) rfl
    · rw [ensures_branchFrom]
      exact .node (.branch (.upTo parts hv) (fun _ => rfl) fits) rfl

/-! ## Groups and captures -/

theorem reportUnlessNested_keeps (complaint : Complaint) (limits : Limits) (s : ParseState) :
    Ensures limits s (reportUnlessNested complaint) fun _ t => t.cursor = s.cursor := by
  simp only [reportUnlessNested, ensures_bind, ensures_get]
  split
  · exact reportHere_keeps complaint limits s
  · rfl

variable {inner : Parse (Option Node)}

theorem enclosed_reads (missing : Complaint) (h : Reads (Each Kind.isExpression) inner) :
    Reads (fun ks => Kind.group.admits ks = true) (enclosed missing inner) := by
  intro limits s
  simp only [enclosed, ensures_bind]
  refine (h.afterBlank rfl limits s).mono ?_
  intro body t hbody
  refine .reporting (reportUnlessNested_keeps missing) ?_
  intro u hu
  refine (eatCharAfterBlank_moves ')' limits u).bind ?_
  intro closed v hv
  refine .reporting (reportUnlessNested_keeps _) ?_
  intro w hw
  rw [ensures_pure, HasNodes.nodes_list, hw]
  rw [hu] at hv
  cases body with
  | none => exact .none (hbody.read.reaches.trans hv) rfl
  | some body =>
    refine ⟨.upTo hbody.read hv, ?_⟩
    simp [Kind.admits, hbody.kind]

theorem group_reads (h : Reads (Each Kind.isExpression) inner) :
    Reads (Each (· == .group)) (group inner) := by
  intro limits s
  simp only [group, ensures_bind, ensures_cursor, ensures_move]
  refine (enclosed_reads _ h limits _).mono ?_
  intro body t hbody
  rw [HasNodes.nodes_list] at hbody
  rw [ensures_branchFrom]
  exact .node (.branch (.after (Cursor.reaches_advance _) hbody.read) (fun _ => rfl)
    hbody.kinds) rfl

theorem captureParts_reads (h : Reads (Each Kind.isExpression) inner) :
    Reads (fun ks => Kind.namedCapture.admits ks = true) (captureParts inner) := by
  intro limits s
  simp only [captureParts, ensures_bind]
  refine (identifier_reads.orReport _ limits s).mono ?_
  rintro (_ | name) t hname
  · exact .none hname.read.reaches rfl
  · have isName := beq_iff_eq.1 hname.kind
    refine (eatChar_moves '>' limits t).bind ?_
    intro named u hu
    split
    · refine (enclosed_reads _ h limits u).bind ?_
      intro body v hbody
      rw [HasNodes.nodes_list] at hbody
      rw [ensures_pure, HasNodes.nodes_list]
      refine ⟨hname.read.append (.after hu hbody.read), ?_⟩
      have fits := hbody.kinds
      rw [List.map_cons, isName]
      rcases body with _ | ⟨body, _ | ⟨_, _⟩⟩
      · rfl
      · simpa [Kind.admits] using fits
      · simp [Kind.admits] at fits
    · refine (reportHere_moves _ limits u).bind ?_
      intro _ v hv
      rw [ensures_pure, HasNodes.nodes_list]
      refine ⟨.upTo hname.read (hu.trans hv), ?_⟩
      simp [Kind.admits, isName]

theorem namedCapture_reads (h : Reads (Each Kind.isExpression) inner) :
    Reads (Each (· == .namedCapture)) (namedCapture inner) := by
  intro limits s
  simp only [namedCapture, ensures_bind, ensures_cursor, ensures_move]
  refine (captureParts_reads h limits _).mono ?_
  intro parts t hparts
  rw [HasNodes.nodes_list] at hparts
  rw [ensures_branchFrom]
  exact .node (.branch (.after (Cursor.reaches_advanceBy 4 _) hparts.read) (fun _ => rfl)
    hparts.kinds) rfl

/-! ## Quantifiers -/

/-- The bounds of a quantifier that started at `start`, of which the least was read already. -/
theorem quantifierBounds_reads {start : Cursor} {least : Node} {limits : Limits} {s : ParseState}
    (hleast : Found (Each (· == .number)) [least] start s.cursor) :
    Ensures limits s (quantifierBounds start least) fun n t =>
      Found (Each Kind.isQuantifier) [n] start t.cursor := by
  have isNumber := beq_iff_eq.1 hleast.kind
  -- Both forms of the bounds end in the same way.
  have closing (kind : Kind) (most : List Node) (t : ParseState)
      (bare : ∀ text, kind.valueOf text = none) (fits : kind.admits ((least :: most).map Node.kind))
      (isQuantifier : kind.isQuantifier = true)
      (hmost : Node.AllReadFrom (least :: most) start t.cursor) :
      Ensures limits t (do
        skipInlineBlank
        if !(← eatChar '}') then
          reportHere .quantifierUnclosed
        branchFrom kind start (least :: most)) fun n t =>
        Found (Each Kind.isQuantifier) [n] start t.cursor := by
    simp only [ensures_bind, ensures_skipInlineBlank]
    refine (eatChar_moves '}' limits _).mono ?_
    intro closed u hu
    refine .reporting (reportHere_keeps _) ?_
    intro v hv
    rw [ensures_branchFrom, hv]
    exact .node (.branch (.upTo hmost ((Cursor.reaches_skipInlineBlank _).trans hu)) bare fits)
      isQuantifier
  simp only [quantifierBounds, ensures_bind, ensures_skipInlineBlank]
  refine (eatChar_moves ',' limits _).mono ?_
  intro comma t ht
  have before := (Cursor.reaches_skipInlineBlank s.cursor).trans ht
  split
  · simp only [ensures_bind, ensures_skipInlineBlank]
    refine (number_reads limits _).mono ?_
    intro most u hmost
    have behind := before.trans (Cursor.reaches_skipInlineBlank t.cursor)
    rw [HasNodes.nodes_option] at hmost
    refine closing .range most.toList u (fun _ => rfl) ?_ rfl
      (hleast.read.append (.after behind hmost.read))
    rw [List.map_cons, isNumber]
    exact hmost.fits [.number] rfl rfl
  · refine closing .exactRange [] t (fun _ => rfl) ?_ rfl (.upTo hleast.read before)
    simp [Kind.admits, isNumber]

theorem quantifier_reads : Reads (Each Kind.isQuantifier) quantifier := by
  intro limits s
  simp only [quantifier, ensures_bind, ensures_cursor]
  refine (eatChar_moves '?' limits s).mono ?_
  intro optional t ht
  split
  · simp only [ensures_bind, ensures_branchFrom, ensures_pure]
    exact .node (.branch (.nil ht) (fun _ => rfl) rfl) rfl
  · refine (eatChar_moves '{' limits t).bind ?_
    intro opened u hu
    split
    · simp only [ensures_bind, ensures_skipInlineBlank]
      have before := ht.trans (hu.trans (Cursor.reaches_skipInlineBlank u.cursor))
      refine (number_reads limits _).mono ?_
      rintro (_ | least) v hleast
      · refine (reportHere_moves _ limits v).bind ?_
        intro _ w hw
        have behind := hleast.read.reaches.trans hw
        exact .none (before.trans (behind.trans (Cursor.reaches_advanceBy _ _))) rfl
      · exact (quantifierBounds_reads (.after before hleast)).bind fun _ _ found => found
    · exact .none (ht.trans hu) rfl

/-! ## Expressions -/

theorem primary_reads (h : Reads (Each Kind.isExpression) inner) :
    Reads (Each Kind.isPrimary) (primary inner) := by
  intro limits s
  simp only [primary, ensures_bind, ensures_cursor]
  split
  · exact (namedCapture_reads h).ofKind rfl limits s
  · split
    · exact (group_reads h).ofKind rfl limits s
    · split
      · exact listMatch_reads.ofKind rfl limits s
      · exact atom_reads.weaken (each_of_each fun _ => Kind.isPrimary_of_isAtom) limits s

theorem quantified_reads (h : Reads (Each Kind.isExpression) inner) :
    Reads (Each Kind.isItem) (quantified inner) := by
  intro limits s
  simp only [quantified, ensures_bind, ensures_cursor]
  refine (primary_reads h limits s).mono ?_
  rintro (_ | subject) t hsubject
  · exact .none hsubject.read.reaches rfl
  · refine (quantifier_reads limits t).bind ?_
    rintro (_ | quantifier) u hquantifier
    · rw [ensures_pure]
      refine ⟨.upTo hsubject.read hquantifier.read.reaches, ?_⟩
      simp [Each, Kind.isItem, hsubject.kind]
    · simp only [ensures_bind, ensures_branchFrom, ensures_pure]
      refine .node (.branch (hsubject.read.append hquantifier.read) (fun _ => rfl) ?_) rfl
      simp [Kind.admits, hsubject.kind, hquantifier.kind]

theorem item_reads (h : Reads (Each Kind.isExpression) inner) :
    Reads (Each Kind.isItem) (item inner) := by
  intro limits s
  simp only [item, atBoundary, ensures_bind, ensures_cursor, ensures_pure]
  split
  · exact .none (.refl _) rfl
  · exact quantified_reads h limits s

/-- One part stands for itself; several parts come under a node above them. -/
theorem joined_reads {P Q : Kind → Bool} {kind : Kind} {start : Cursor} {first : Node}
    {further : List Node} {limits : Limits} {s : ParseState}
    (parts : Found (Each P) (first :: further) start s.cursor)
    (bare : ∀ text, kind.valueOf text = none)
    (fits : ∀ ks, 2 ≤ ks.length → Each P ks → kind.admits ks = true)
    (above : ∀ k, P k = true → Q k = true) (isKind : Q kind = true) :
    Ensures limits s (joined kind start first further) fun r t =>
      Found (Each Q) (HasNodes.nodes r) start t.cursor := by
  unfold joined
  cases further with
  | nil => exact ⟨parts.read, each_of_each above _ parts.kinds⟩
  | cons second further =>
    simp only [List.isEmpty_cons, Bool.false_eq_true, ↓reduceIte, ensures_bind, ensures_branchFrom]
    exact .node (.branch parts.read bare (fits _ (by simp) parts.kinds)) isKind

theorem concatenation_reads (h : Reads (Each Kind.isExpression) inner) :
    Reads (Each Kind.isBranch) (concatenation inner) := by
  intro limits s
  simp only [concatenation, ensures_bind, ensures_cursor]
  refine (item_reads h limits s).mono ?_
  rintro (_ | first) t hfirst
  · exact .none hfirst.read.reaches rfl
  · refine (((item_reads h).afterBlank rfl).many limits t).bind ?_
    intro further u hfurther
    rw [HasNodes.nodes_list] at hfurther
    refine joined_reads (hfirst.append hfurther) (fun _ => rfl) ?_ ?_ rfl
    · intro ks two each
      simp only [Kind.admits, two, decide_true, Bool.true_and]
      exact each
    · intro k hk
      simp [Kind.isBranch, hk]

theorem nextBranch_reads (h : Reads (Each Kind.isExpression) inner) :
    Reads (Each Kind.isBranch) (nextBranch inner) := by
  intro limits s
  simp only [nextBranch, ensures_bind]
  refine (eatCharAfterBlank_moves '|' limits s).mono ?_
  intro bar t ht
  split
  · refine (((concatenation_reads h).afterBlank rfl).orReport _ limits t).mono ?_
    intro branch u hbranch
    exact .after ht hbranch
  · exact .none ht rfl

theorem alternation_reads (h : Reads (Each Kind.isExpression) inner) :
    Reads (Each Kind.isExpression) (alternation inner) := by
  intro limits s
  simp only [alternation, ensures_bind, ensures_cursor]
  refine (concatenation_reads h limits s).mono ?_
  rintro (_ | first) t hfirst
  · exact .none hfirst.read.reaches rfl
  · refine ((nextBranch_reads h).many limits t).bind ?_
    intro further u hfurther
    rw [HasNodes.nodes_list] at hfurther
    refine joined_reads (hfirst.append hfurther) (fun _ => rfl) ?_ ?_ rfl
    · intro ks two each
      simp only [Kind.admits, two, decide_true, Bool.true_and]
      exact each
    · intro k hk
      simp [Kind.isExpression, hk]

theorem reportNesting_keeps (limits : Limits) (s : ParseState) :
    Ensures limits s reportNesting fun _ t => t.cursor = s.cursor := by
  simp only [reportNesting, ensures_bind, ensures_get]
  split
  · simp only [ensures_bind, ensures_modify, ensures_read]
    exact reportHere_keeps _ limits _
  · rfl

/-- **Expressions at every level of nesting.** The induction is on the levels that are left: a level
takes the contract of the one below for what its groups and captures contain. -/
theorem expressionWithin_reads (levels : Nat) :
    Reads (Each Kind.isExpression) (expressionWithin levels) := by
  induction levels with
  | zero =>
    intro limits s
    refine (reportNesting_keeps limits s).bind ?_
    intro _ t ht
    exact .none (ht ▸ .refl _) rfl
  | succ levels ih => exact alternation_reads ih

theorem expression_reads : Reads (Each Kind.isExpression) expression := by
  intro limits s
  exact expressionWithin_reads limits.depth limits s

end PatternRules.Parse
